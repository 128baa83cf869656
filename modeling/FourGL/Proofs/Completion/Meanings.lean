import FourGL.Completion.RuleDocument.Resolution
import Mathlib.Data.List.Forall2
import Mathlib.Order.Bounds.Defs

/-!
# What rule documents mean

A name of a document stands for a value, and a record of a document for one of a table. `Means` says
for which, record by record, and says nothing on the order in which names are looked up. A document
has a table if all its entries mean something and no two of them have the same trigger. Otherwise
the first entry is reported that has no meaning or repeats a trigger (`resolve_outcome`).
-/

namespace FourGL

namespace RuleDocument

/-! ## Meanings -/

/-- Without a version, the baseline is meant. -/
def VersionMeans : Option String → Version → Prop
  | none, v => v = .baseline
  | some text, v => Version.ofText? text = some v

/-- Without a list of names, members of all kinds are meant. -/
def KindsMean : Option (List String) → MemberKinds → Prop
  | none, kinds => kinds = .all
  | some names, kinds =>
    ∃ ks, List.Forall₂ (fun name k => MemberKind.ofName? name = some k) names ks ∧
      kinds = .ofList ks

structure Token.Means (t : Token) (o : TokenOffer) : Prop where
  kind : Kind.ofRuleName? t.token = some o.kind
  version : VersionMeans t.minVersion o.version

structure Provider.Means (isProvider : String → Bool) (p : Provider)
    (o : ProviderOffer) : Prop where
  known : isProvider p.provider = true
  provider : o.provider = p.provider
  kinds : KindsMean p.memberKinds o.kinds
  version : VersionMeans p.minVersion o.version

structure Target.Means (t : Target) (u : FourGL.Target) : Prop where
  kind : Kind.ofRuleName? t.token = some u.kind
  isGuard : u.isGuard = t.failIfMatch

/-- A search item has a token and no list of targets, or a list with a target in it and no token. -/
def SearchItem.Seeks (s : SearchItem) : Pattern → Prop
  | .nearest kind =>
    s.ordered = none ∧ ∃ name, s.token = some name ∧ Kind.ofRuleName? name = some kind
  | .ordered us =>
    s.token = none ∧ ∃ ts, s.ordered = some ts ∧ ts ≠ [] ∧
    List.Forall₂ Target.Means ts us

structure SearchItem.Means (s : SearchItem) (c : Condition) : Prop where
  pattern : s.Seeks c.pattern
  expected : c.expected = s.mustMatch
  version : VersionMeans s.minVersion c.version

structure Possibility.Means (isProvider : String → Bool) (p : Possibility)
    (q : FourGL.Possibility) : Prop where
  version : VersionMeans p.minVersion q.version
  tokens : List.Forall₂ Token.Means p.singleTokens q.tokens
  providers : List.Forall₂ (Provider.Means isProvider) p.setProviders q.providers
  conditions : List.Forall₂ SearchItem.Means p.backwardSearch q.conditions

/-- An entry has a token and no category, or a category and no token. -/
def Entry.Names (e : Entry) : Trigger → Prop
  | .token kind =>
    e.category = none ∧ ∃ name, e.token = some name ∧ Kind.ofRuleName? name = some kind
  | .category c =>
    e.token = none ∧ ∃ name, e.category = some name ∧ Category.ofName? name = some c

structure Entry.Means (isProvider : String → Bool) (e : Entry) (e' : FourGL.Entry) : Prop where
  trigger : e.Names e'.trigger
  version : VersionMeans e.minVersion e'.version
  possibilities : List.Forall₂ (Possibility.Means isProvider) e.possibilities e'.possibilities

/-- Two entries name the same trigger. -/
def Entry.Clashes (e f : Entry) : Prop := ∃ t, e.Names t ∧ f.Names t

/-- All entries mean something, and no two of them name the same trigger. -/
structure Usable (isProvider : String → Bool) (es : List Entry) : Prop where
  means : ∀ e ∈ es, ∃ e', e.Means isProvider e'
  distinct : es.Pairwise fun e f => ¬ e.Clashes f

/-- The entry at an index has no meaning, or repeats the trigger of an earlier one. -/
def SpoiledAt (isProvider : String → Bool) (es : List Entry) (i : Nat) : Prop :=
  ∃ e, es[i]? = some e ∧ ((¬ ∃ e', e.Means isProvider e') ∨
    ∃ f ∈ es.take i, f.Clashes e)

/-! ## Resolutions -/

open Resolution

/-- A resolution succeeds with just the values of which `P` holds, and fails in the entry `n` if
there is no such value. -/
structure Decides (n : Nat) (P : α → Prop) (r : Resolution α) : Prop where
  ok_iff : ∀ a, r = .ok a ↔ P a
  entry_eq : ∀ place fault, r = .error (place, fault) → place.entry = n

namespace Decides

variable {n : Nat} {P Q : α → Prop} {r : Resolution α} {place : RulePlace}

theorem congr (h : Decides n P r) (hiff : ∀ a, P a ↔ Q a) : Decides n Q r :=
  ⟨fun a => (h.ok_iff a).trans (hiff a), h.entry_eq⟩

theorem ok (a : α) : Decides n (· = a) (.ok a) := by
  refine ⟨fun b => ?_, fun place fault h => by cases h⟩
  rw [Except.ok.injEq, eq_comm]

theorem fail (fault : RuleFault) (h : ∀ a, ¬ P a) :
    Decides place.entry P (fail place fault) := by
  refine ⟨fun a => ⟨nofun, fun ha => absurd ha (h a)⟩, ?_⟩
  rintro _ _ ⟨⟩
  rfl

theorem ofOption (fault : RuleFault) (o : Option α) :
    Decides place.entry (o = some ·) (ofOption place fault o) := by
  cases o with
  | none => exact fail fault nofun
  | some a => exact (ok a).congr fun b => by rw [Option.some.injEq, eq_comm]

/-- Both have to succeed. -/
theorem bind {R : α → β → Prop} {f : α → Resolution β} (hr : Decides n P r)
    (hf : ∀ a, Decides n (R a) (f a)) : Decides n (fun b => ∃ a, P a ∧ R a b) (r >>= f) := by
  cases hcase : r with
  | ok a =>
    refine ⟨fun b => ((hf a).ok_iff b).trans ?_, (hf a).entry_eq⟩
    constructor
    · intro h
      exact ⟨a, (hr.ok_iff a).mp hcase, h⟩
    · rintro ⟨a', ha', h⟩
      obtain rfl := Except.ok.inj (hcase.symm.trans ((hr.ok_iff a').mpr ha'))
      exact h
  | error e =>
    refine ⟨fun b => ⟨nofun, ?_⟩, fun place fault h => hr.entry_eq place fault
      (hcase.trans ?_)⟩
    · rintro ⟨a, ha, -⟩
      cases hcase.symm.trans ((hr.ok_iff a).mpr ha)
    · cases h
      rfl

theorem mapM {R : α → β → Prop} {f : α → Resolution β} (h : ∀ a, Decides n (R a) (f a))
    (as : List α) :
    Decides n (List.Forall₂ R as) (as.mapM f) := by
  induction as with
  | nil => exact (ok []).congr fun bs => List.forall₂_nil_left_iff.symm
  | cons a as ih =>
    rw [List.mapM_cons]
    refine ((h a).bind fun b => ih.bind fun bs => ok (b :: bs)).congr fun bs => ?_
    simp only [List.forall₂_cons_left_iff, ← exists_and_left]

theorem each {R : α → β → Prop} {f : Nat → α → Resolution β}
    (h : ∀ i a, Decides n (R a) (f i a))
    (as : List α) : Decides n (List.Forall₂ R as) (each f as) := by
  refine (mapM (fun p => h p.2 p.1) as.zipIdx).congr fun bs => ?_
  rw [← List.forall₂_map_left_iff (f := Prod.fst) (R := R), List.zipIdx_map_fst]

end Decides

section

variable (place : RulePlace)

theorem decides_versionOf (text : Option String) :
    Decides place.entry (VersionMeans text) (versionOf place text) := by
  cases text with
  | none => exact .ok _
  | some text => exact .ofOption (.invalidVersion text) (Version.ofText? text)

theorem ofNames_iff (names : List String) (kinds : MemberKinds) :
    MemberKinds.ofNames names = .ok kinds ↔ KindsMean (some names) kinds := by
  induction names generalizing kinds with
  | nil =>
    constructor
    · rintro ⟨⟩
      exact ⟨[], .nil, rfl⟩
    · rintro ⟨_, ⟨⟩, rfl⟩
      rfl
  | cons name names ih =>
    rw [MemberKinds.ofNames]
    constructor
    · intro h
      split at h
      · cases h
      next k hname =>
        cases hrest : MemberKinds.ofNames names with
        | error => simp [hrest, Except.map] at h
        | ok rest =>
          rw [hrest] at h
          obtain ⟨ks, hks, rfl⟩ := (ih rest).mp hrest
          cases h
          exact ⟨k :: ks, .cons hname hks, rfl⟩
    · rintro ⟨_, hks, rfl⟩
      cases hks with
      | cons hname hks =>
        rw [hname, (ih _).mpr ⟨_, hks, rfl⟩]
        rfl

theorem decides_kindsOf (names : Option (List String)) :
    Decides place.entry (KindsMean names) (kindsOf place names) := by
  cases names with
  | none => exact .ok _
  | some names =>
    rw [kindsOf]
    cases h : MemberKinds.ofNames names with
    | ok kinds =>
      refine (Decides.ok kinds).congr fun kinds' => ?_
      rw [← ofNames_iff, h, Except.ok.injEq, eq_comm]
    | error name =>
      refine .fail _ fun kinds hkinds => ?_
      cases h.symm.trans ((ofNames_iff names kinds).mpr hkinds)

theorem decides_token (t : Token) : Decides place.entry t.Means (t.resolve place) := by
  refine ((Decides.ofOption _ _).bind fun kind => (decides_versionOf place _).bind fun version =>
    .ok _).congr fun o => ⟨?_, fun h => ⟨o.kind, h.kind, o.version, h.version, rfl⟩⟩
  rintro ⟨kind, hkind, version, hversion, rfl⟩
  exact ⟨hkind, hversion⟩

theorem decides_provider (isProvider : String → Bool) (p : Provider) :
    Decides place.entry (p.Means isProvider) (p.resolve isProvider place) := by
  unfold Provider.resolve
  cases hknown : isProvider p.provider with
  | false => exact .fail _ fun o h => absurd h.known (by simp [hknown])
  | true =>
    refine ((decides_kindsOf place _).bind fun kinds =>
        (decides_versionOf place _).bind fun version =>
      .ok _).congr fun o => ⟨?_, fun h => ⟨o.kinds, h.kinds, o.version, h.version, ?_⟩⟩
    · rintro ⟨kinds, hkinds, version, hversion, rfl⟩
      exact ⟨hknown, rfl, hkinds, hversion⟩
    · rw [← h.provider]

theorem decides_target (t : Target) : Decides place.entry t.Means
    (do return ⟨← kindOf place t.token, t.failIfMatch⟩ : Resolution FourGL.Target) := by
  refine ((Decides.ofOption _ _).bind fun kind => .ok _).congr fun u =>
    ⟨?_, fun h => ⟨u.kind, h.kind, ?_⟩⟩
  · rintro ⟨kind, hkind, rfl⟩
    exact ⟨hkind, rfl⟩
  · rw [← h.isGuard]

theorem decides_pattern (s : SearchItem) : Decides place.entry s.Seeks (s.pattern place) := by
  obtain ⟨token, ordered, mustMatch, minVersion⟩ := s
  rcases token with _ | name <;> rcases ordered with _ | ts
  · refine .fail _ fun pattern h => ?_
    cases pattern with
    | nearest => cases h.2.choose_spec.1
    | ordered => cases h.2.choose_spec.1
  · cases ts with
    | nil =>
      refine .fail _ fun pattern h => ?_
      cases pattern with
      | nearest => cases h.1
      | ordered =>
        obtain ⟨-, _, ⟨⟩, hne, -⟩ := h
        exact hne rfl
    | cons t ts =>
      refine ((Decides.mapM (decides_target place) (t :: ts)).bind fun us => .ok _).congr
        fun pattern => ?_
      constructor
      · rintro ⟨us, hus, rfl⟩
        exact ⟨rfl, _, rfl, List.cons_ne_nil t ts, hus⟩
      · intro h
        cases pattern with
        | nearest => cases h.1
        | ordered us =>
          obtain ⟨-, _, ⟨⟩, -, hus⟩ := h
          exact ⟨us, hus, rfl⟩
  · refine ((Decides.ofOption _ _).bind fun kind => .ok _).congr fun pattern => ?_
    constructor
    · rintro ⟨kind, hkind, rfl⟩
      exact ⟨rfl, name, rfl, hkind⟩
    · intro h
      cases pattern with
      | nearest kind =>
        obtain ⟨-, _, ⟨⟩, hkind⟩ := h
        exact ⟨kind, hkind, rfl⟩
      | ordered => cases h.1
  · refine .fail _ fun pattern h => ?_
    cases pattern with
    | nearest => cases h.1
    | ordered => cases h.1

theorem decides_searchItem (s : SearchItem) : Decides place.entry s.Means (s.resolve place) := by
  refine ((decides_pattern place s).bind fun pattern =>
      (decides_versionOf place _).bind fun version =>
    .ok _).congr fun c => ⟨?_, fun h => ⟨c.pattern, h.pattern, c.version, h.version, ?_⟩⟩
  · rintro ⟨pattern, hpattern, version, hversion, rfl⟩
    exact ⟨hpattern, rfl, hversion⟩
  · rw [← h.expected]

theorem decides_possibility (isProvider : String → Bool) (p : Possibility) :
    Decides place.entry (p.Means isProvider) (p.resolve isProvider place) := by
  refine ((decides_versionOf place _).bind fun version =>
    (Decides.each (fun i => decides_token { place with item := some (.singleTokens, i) }) _).bind
      fun tokens =>
    (Decides.each (fun i => decides_provider
      { place with item := some (.setProviders, i) } isProvider)
      _).bind fun providers =>
    (Decides.each (fun i => decides_searchItem
      { place with item := some (.backwardSearch, i) }) _).bind
      fun conditions => .ok _).congr fun q => ⟨?_, fun h => ?_⟩
  · rintro ⟨version, hversion, tokens, htokens, providers, hproviders, conditions,
      hconditions, rfl⟩
    exact ⟨hversion, htokens, hproviders, hconditions⟩
  · exact ⟨_, h.version, _, h.tokens, _, h.providers, _, h.conditions, rfl⟩

theorem decides_trigger (e : Entry) : Decides place.entry e.Names (e.trigger place) := by
  obtain ⟨token, category, minVersion, possibilities⟩ := e
  rcases token with _ | name <;> rcases category with _ | category
  · refine .fail _ fun t h => ?_
    cases t with
    | token => cases h.2.choose_spec.1
    | category => cases h.2.choose_spec.1
  · refine ((Decides.ofOption _ _).bind fun c => .ok _).congr fun t => ?_
    constructor
    · rintro ⟨c, hc, rfl⟩
      exact ⟨rfl, category, rfl, hc⟩
    · intro h
      cases t with
      | token => cases h.1
      | category c =>
        obtain ⟨-, _, ⟨⟩, hc⟩ := h
        exact ⟨c, hc, rfl⟩
  · refine ((Decides.ofOption _ _).bind fun kind => .ok _).congr fun t => ?_
    constructor
    · rintro ⟨kind, hkind, rfl⟩
      exact ⟨rfl, name, rfl, hkind⟩
    · intro h
      cases t with
      | token kind =>
        obtain ⟨-, _, ⟨⟩, hkind⟩ := h
        exact ⟨kind, hkind, rfl⟩
      | category => cases h.1
  · refine .fail _ fun t h => ?_
    cases t with
    | token => cases h.1
    | category => cases h.1

/-- An entry is resolved to what it means, and the faults of its parts are its faults. -/
theorem decides_entry (isProvider : String → Bool) (e : Entry) :
    Decides place.entry (e.Means isProvider) (e.resolve isProvider place) := by
  refine ((decides_trigger place e).bind fun trigger =>
    (Decides.each (fun i => decides_possibility
      { place with possibility := some i } isProvider) _).bind
      fun possibilities =>
    (decides_versionOf place _).bind fun version => .ok _).congr fun e' => ⟨?_, fun h => ?_⟩
  · rintro ⟨trigger, htrigger, possibilities, hpossibilities, version, hversion, rfl⟩
    exact ⟨htrigger, hversion, hpossibilities⟩
  · exact ⟨_, h.trigger, _, h.possibilities, _, h.version, rfl⟩

end

/-! ## Triggers -/

theorem exists_of_forall₂ {R : α → β → Prop} (h : List.Forall₂ R as bs) :
    (∀ a ∈ as, ∃ b ∈ bs, R a b) ∧ ∀ b ∈ bs, ∃ a ∈ as, R a b := by
  induction h with
  | nil => exact ⟨nofun, nofun⟩
  | cons hab _ ih =>
    simp only [List.forall_mem_cons, List.exists_mem_cons_iff]
    exact ⟨⟨.inl hab, fun a ha => .inr (ih.1 a ha)⟩, .inl hab, fun b hb => .inr (ih.2 b hb)⟩

theorem Entry.Names.unique {e : Entry} (ht : e.Names t) (hu : e.Names u) : t = u := by
  rcases t with kind | c <;> rcases u with kind' | c'
  · obtain ⟨-, _, hname, hkind⟩ := ht
    obtain ⟨-, _, hname', hkind'⟩ := hu
    cases hname.symm.trans hname'
    exact congrArg _ (Option.some.inj (hkind.symm.trans hkind'))
  · obtain ⟨-, _, hname, -⟩ := ht
    cases hname.symm.trans hu.1
  · obtain ⟨-, _, hname, -⟩ := ht
    cases hname.symm.trans hu.1
  · obtain ⟨-, _, hname, hc⟩ := ht
    obtain ⟨-, _, hname', hc'⟩ := hu
    cases hname.symm.trans hname'
    exact congrArg _ (Option.some.inj (hc.symm.trans hc'))

variable {isProvider : String → Bool} {table table' : RuleTable}

theorem Entry.Means.clashes_iff {e f : Entry} (he : e.Means isProvider e')
    (hf : f.Means isProvider f') : e.Clashes f ↔ e'.trigger = f'.trigger := by
  constructor
  · rintro ⟨t, ht, hu⟩
    rw [he.trigger.unique ht, hf.trigger.unique hu]
  · intro h
    exact ⟨e'.trigger, he.trigger, h ▸ hf.trigger⟩

/-- The entries of a table are meant by entries that do not clash. -/
theorem usable_of_means (h : List.Forall₂ (Entry.Means isProvider) es table.entries) :
    Usable isProvider es := by
  refine ⟨fun e he => ?_, ?_⟩
  · obtain ⟨e', -, hmeans⟩ := (exists_of_forall₂ h).1 e he
    exact ⟨e', hmeans⟩
  · have hdistinct := table.distinct
    generalize table.entries = entries at h hdistinct
    induction h with
    | nil => exact .nil
    | cons hmeans htail ih =>
      rw [List.map_cons, List.nodup_cons] at hdistinct
      refine .cons (fun f hf hclash => ?_) (ih hdistinct.2)
      obtain ⟨f', hf', hmeans'⟩ := (exists_of_forall₂ htail).1 f hf
      exact hdistinct.1 (List.mem_map.mpr
        ⟨f', hf', ((hmeans.clashes_iff hmeans').mp hclash).symm⟩)

theorem Usable.not_spoiledAt (h : Usable isProvider es) (i : Nat) :
    ¬ SpoiledAt isProvider es i := by
  rintro ⟨e, he, hmeaningless | ⟨f, hf, hclash⟩⟩
  · exact hmeaningless (h.means e (List.mem_of_getElem? he))
  · obtain ⟨hi, rfl⟩ := List.getElem?_eq_some_iff.mp he
    have hdistinct := h.distinct
    rw [← List.take_append_drop i es, List.pairwise_append] at hdistinct
    refine hdistinct.2.2 f hf _ ?_ hclash
    rw [List.drop_eq_getElem_cons hi]
    exact List.mem_cons_self

theorem spoiledAt_append (h : i < before.length) :
    SpoiledAt isProvider (before ++ after) i ↔ SpoiledAt isProvider before i := by
  unfold SpoiledAt
  rw [List.getElem?_append_left h, List.take_append_of_le_length (Nat.le_of_lt h)]

/-! ## Tables -/

theorem insert?_eq_none {e : FourGL.Entry} (h : table.insert? e = none) :
    e.trigger ∈ table.entries.map FourGL.Entry.trigger := by
  unfold RuleTable.insert? at h
  split at h
  · assumption
  · cases h

theorem insert?_eq_some {e : FourGL.Entry} (h : table.insert? e = some table') :
    table'.version = table.version ∧ table'.entries = table.entries ++ [e] := by
  unfold RuleTable.insert? at h
  split at h
  · cases h
  · cases h
    exact ⟨rfl, rfl⟩

theorem decides_addEntry (isProvider : String → Bool) (table : RuleTable) (e : Entry) (i : Nat) :
    Decides i (fun table' => ∃ e', e.Means isProvider e' ∧ table.insert? e' = some table')
    (addEntry isProvider table (e, i)) :=
  (decides_entry { entry := i } isProvider e).bind fun _ => .ofOption _ _

/-- Adding entries to the table of those before them leads to a table of them all, or stops at the
first one that spoils it. -/
theorem addEntries_cases (table : RuleTable) (rest : List Entry)
    (hdone : List.Forall₂ (Entry.Means isProvider) done table.entries) :
    (∃ table', (rest.zipIdx done.length).foldlM (addEntry isProvider) table = .ok table' ∧
      table'.version = table.version ∧
      List.Forall₂ (Entry.Means isProvider) (done ++ rest) table'.entries) ∨
    ∃ place fault, (rest.zipIdx done.length).foldlM (addEntry isProvider) table =
      .error (place, fault) ∧
      IsLeast {i | SpoiledAt isProvider (done ++ rest) i} place.entry := by
  induction rest generalizing done table with
  | nil =>
    refine .inl ⟨table, rfl, rfl, ?_⟩
    rwa [List.append_nil]
  | cons e rest ih =>
    rw [List.zipIdx_cons, List.foldlM_cons]
    have hstep := decides_addEntry isProvider table e done.length
    cases hadd : addEntry isProvider table (e, done.length) with
    | ok next =>
      obtain ⟨e', hmeans, hinsert⟩ := (hstep.ok_iff next).mp hadd
      obtain ⟨hversion, hentries⟩ := insert?_eq_some hinsert
      have hnext : List.Forall₂ (Entry.Means isProvider) (done ++ [e]) next.entries := by
        rw [hentries]
        exact List.rel_append hdone (.cons hmeans .nil)
      have h := ih next hnext
      rw [List.append_assoc, List.length_append, hversion] at h
      exact h
    | error failure =>
      obtain ⟨place, fault⟩ := failure
      refine .inr ⟨place, fault, rfl, ?_⟩
      rw [hstep.entry_eq place fault hadd]
      refine ⟨⟨e, by simp, ?_⟩, fun i hi => Nat.le_of_not_lt fun hlt => ?_⟩
      · rw [or_iff_not_imp_left, not_not]
        rintro ⟨e', hmeans⟩
        have hinsert : table.insert? e' = none := by
          refine Option.eq_none_iff_forall_not_mem.mpr fun next hnext => ?_
          cases hadd.symm.trans ((hstep.ok_iff next).mpr ⟨e', hmeans, hnext⟩)
        obtain ⟨f', hf', htrigger⟩ := List.mem_map.mp (insert?_eq_none hinsert)
        obtain ⟨f, hf, hmeans'⟩ := (exists_of_forall₂ hdone).2 f' hf'
        exact ⟨f, by simpa using hf, (hmeans'.clashes_iff hmeans).mpr htrigger⟩
      · exact (usable_of_means hdone).not_spoiledAt i ((spoiledAt_append hlt).mp hi)

/-- The entry of a table for a trigger is the one that has it. -/
theorem get?_eq_some {e : FourGL.Entry} (he : e ∈ table.entries) :
    table.get? e.trigger = some e := by
  have hdistinct := table.distinct
  rw [RuleTable.get?]
  generalize table.entries = entries at he hdistinct
  induction entries with
  | nil => cases he
  | cons f entries ih =>
    rw [List.map_cons, List.nodup_cons] at hdistinct
    rcases List.mem_cons.mp he with rfl | he
    · exact List.find?_cons_of_pos (by simp)
    · rw [List.find?_cons_of_neg, ih he hdistinct.2]
      intro heq
      exact hdistinct.1 (List.mem_map.mpr ⟨e, he, (of_decide_eq_true heq).symm⟩)

/-- A document has a table if and only if all its entries mean something and no two of them name the
same trigger. The table then has what each entry means under its trigger. Otherwise the place of the
fault is in the first entry that means nothing or names the trigger of an earlier one. -/
theorem resolve_outcome (isProvider : String → Bool) (d : RuleDocument) :
    ((∃ table, d.resolve isProvider = .ok table) ↔ Usable isProvider d.entries) ∧
    match d.resolve isProvider with
    | .ok table => table.version = d.version ∧
      List.Forall₂ (Entry.Means isProvider) d.entries table.entries ∧
      ∀ e ∈ d.entries, ∀ t, e.Names t → ∃ e', table.get? t = some e' ∧
        e.Means isProvider e'
    | .error (place, _) => IsLeast {i | SpoiledAt isProvider d.entries i} place.entry ∧
      ∃ inside, place.render = s!"entries[{place.entry}]" ++ inside := by
  have hempty : List.Forall₂ (Entry.Means isProvider) []
      (RuleTable.empty d.version).entries := .nil
  unfold resolve
  rcases addEntries_cases (.empty d.version) d.entries hempty with
    ⟨table, hresolve, hversion, hmeans⟩ | ⟨place, fault, hresolve, hleast⟩
  · rw [show d.entries.zipIdx.foldlM _ _ = _ from hresolve]
    refine ⟨⟨fun _ => usable_of_means hmeans, fun _ => ⟨table, rfl⟩⟩,
      hversion, hmeans, ?_⟩
    intro e he t ht
    obtain ⟨e', he', hmeans'⟩ := (exists_of_forall₂ hmeans).1 e he
    refine ⟨e', ?_, hmeans'⟩
    rw [ht.unique hmeans'.trigger, get?_eq_some he']
  · rw [show d.entries.zipIdx.foldlM _ _ = _ from hresolve]
    refine ⟨⟨nofun, fun husable => ?_⟩, hleast, ?_⟩
    · exact absurd hleast.1 (husable.not_spoiledAt _)
    · simp only [RulePlace.render, String.append_assoc]
      exact ⟨_, rfl⟩

/-- An empty list of targets beside a token is one list too many, though it names no target. -/
theorem resolve_token_beside_no_targets :
    let s : SearchItem := { token := some "end", ordered := some [] }
    let e : Entry := { token := some "for", possibilities := [{ backwardSearch := [s] }] }
    (s.token.isSome ^^ s.ordered.any (!·.isEmpty)) = true ∧ (Kind.ofRuleName? "end").isSome ∧
      (e.token.isSome ^^ e.category.isSome) = true ∧ (Kind.ofRuleName? "for").isSome ∧
      (resolve (fun _ => true) { version := "1.0", entries := [e] }).isOk = false := by
  decide +kernel

end RuleDocument

end FourGL
