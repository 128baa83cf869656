import FourGL.Proofs.Grammar.Reports
import FourGL.Proofs.Tree.Shape

/-!
# Tokens between the members of a module

What stands between the members of a module is skipped. A token that starts no member is reported,
unless the token before was skipped too; one that starts a member which the version lacks and an END
with its keyword are always reported. So no token is skipped silently: where a run of tokens outside
of all members begins, an error begins (`parseModule_coverage`).
-/

namespace FourGL

open FourGL.Parser FourGL.ParseState

/-! ## Runs of tokens -/

/-- The token stands inside one of the nodes. -/
def Covered (ns : List Node) (t : Token) : Prop := ∃ n ∈ ns, n.start ≤ t.start ∧
    t.stop ≤ n.stop

instance (ns : List Node) (t : Token) : Decidable (Covered ns t) :=
  inferInstanceAs (Decidable (∃ n ∈ ns, _))

namespace Diagnostic

/-- The diagnostic starts where the token does. -/
def startsAt (d : Diagnostic) (t : Token) : Bool := d.span.map (·.start) == some t.start

/-- The diagnostic says that a token starts no member. -/
def isStray (d : Diagnostic) : Bool := d.code == Message.unexpectedMember.code

end Diagnostic

/-- How many tokens of a run are said to start no member. -/
def strays (ds : List Diagnostic) (run : List Token) : Nat :=
  ds.countP fun d => d.isStray && run.any d.startsAt

@[simp] theorem strays_nil (ds : List Diagnostic) : strays ds [] = 0 := by simp [strays]

theorem strays_append (ds ds' : List Diagnostic) (run : List Token) :
    strays (ds ++ ds') run = strays ds run + strays ds' run := List.countP_append

theorem strays_reverse (ds : List Diagnostic) (run : List Token) :
    strays ds run.reverse = strays ds run := by simp [strays]

theorem strays_le (ds : List Diagnostic) (run : List Token) :
    strays ds run ≤ ds.countP (·.isStray) :=
  List.countP_mono_left fun _ _ h => (Bool.and_eq_true_iff.mp h).1

theorem strays_eq_zero {ds : List Diagnostic} {run : List Token}
    (h : ∀ d ∈ ds, d.isStray = true → ∀ t ∈ run, d.startsAt t = false) :
    strays ds run = 0 := by
  refine List.countP_eq_zero.mpr fun d hd hstray => ?_
  obtain ⟨hstray, hrun⟩ := Bool.and_eq_true_iff.mp hstray
  obtain ⟨t, ht, hstarts⟩ := List.any_eq_true.mp hrun
  exact Bool.false_ne_true ((h d hd hstray t ht).symm.trans hstarts)

/-- A token where nothing starts does not matter. -/
theorem strays_cons {ds : List Diagnostic}
    (h : ∀ d ∈ ds, d.isStray = true → d.startsAt t = false) (run : List Token) :
    strays ds (t :: run) = strays ds run := by
  refine List.countP_congr fun d hd => ?_
  cases hstray : d.isStray with
  | false => simp
  | true => simp [h d hd hstray]

theorem strays_congr {ds ds' : List Diagnostic}
    (h : ds'.filter (·.isStray) = ds.filter (·.isStray)) (run : List Token) :
    strays ds' run = strays ds run := by
  have hfilter (ds : List Diagnostic) :
      strays ds run = (ds.filter (·.isStray)).countP fun d => run.any d.startsAt := by
    rw [List.countP_filter]
    exact List.countP_congr fun d _ => by rw [Bool.and_comm]
  rw [hfilter, hfilter, h]

/-- What has been said about tokens that have been read, the latest first: where a run of tokens
that are not `inside` begins, an error does, and of each run at most one token is said to start no
member. Once a token is skipped this is not said of the next ones. -/
structure RunsTold (inside : Token → Prop) (ds : List Diagnostic) (skipping : Bool)
    (seen : List Token) : Prop where
  first_told : ∀ behind t before, seen = behind ++ t :: before → ¬ inside t →
    (∀ u ∈ before.head?, inside u) → ∃ d ∈ ds, d.isError = true ∧ d.startsAt t = true
  once : ∀ behind run before, seen = behind ++ (run ++ before) →
    (∀ t ∈ run, ¬ inside t) → strays ds run ≤ 1
  fresh : skipping = false → ∀ run before, seen = run ++ before →
    (∀ t ∈ run, ¬ inside t) → strays ds run = 0
  amid : skipping = true → ∃ t ∈ seen.head?, ¬ inside t

namespace RunsTold

variable {inside : Token → Prop} {ds : List Diagnostic}

theorem nil : RunsTold inside ds false [] where
  first_told behind t before h := by simp at h
  once behind run before h _ := by
    obtain ⟨-, h⟩ := List.append_eq_nil_iff.mp h.symm
    simp [(List.append_eq_nil_iff.mp h).1]
  fresh _ run before h _ := by simp [(List.append_eq_nil_iff.mp h.symm).1]
  amid h := absurd h Bool.false_ne_true

/-- What is said about other tokens does not matter. -/
theorem congr {inside' : Token → Prop} (h : RunsTold inside ds skipping seen)
    (hinside : ∀ t ∈ seen, inside' t ↔ inside t) (hsub : ds ⊆ ds')
    (hstrays : ds'.filter (·.isStray) = ds.filter (·.isStray)) :
    RunsTold inside' ds' skipping seen where
  first_told behind t before hseen ht hbefore := by
    have hmem : ∀ u ∈ t :: before, u ∈ seen :=
      fun u hu => hseen ▸ List.mem_append_right _ hu
    obtain ⟨d, hd, herror⟩ := h.first_told behind t before hseen
      (mt (hinside t (hmem t (List.mem_cons_self ..))).mpr ht) fun u hu =>
        (hinside u (hmem u (List.mem_cons_of_mem _ (List.mem_of_mem_head? hu)))).mp (hbefore u hu)
    exact ⟨d, hsub hd, herror⟩
  once behind run before hseen hrun := by
    rw [strays_congr hstrays]
    refine h.once behind run before hseen fun t ht => mt (hinside t ?_).mpr (hrun t ht)
    exact hseen ▸ List.mem_append_right _ (List.mem_append_left _ ht)
  fresh hskipping run before hseen hrun := by
    rw [strays_congr hstrays]
    refine h.fresh hskipping run before hseen fun t ht => mt (hinside t ?_).mpr (hrun t ht)
    exact hseen ▸ List.mem_append_left _ ht
  amid hskipping := by
    obtain ⟨t, ht, hnot⟩ := h.amid hskipping
    exact ⟨t, ht, mt (hinside t (List.mem_of_mem_head? ht)).mp hnot⟩

/-- A token inside ends each run. -/
theorem cover (h : RunsTold inside ds skipping seen) (ht : inside t) :
    RunsTold inside ds false (t :: seen) where
  first_told behind u before hseen hu hbefore := by
    obtain ⟨rfl, hcons⟩ | ⟨behind', rfl, htail⟩ := List.cons_eq_append_iff.mp hseen
    · obtain ⟨rfl, -⟩ := List.cons.inj hcons
      exact absurd ht hu
    · exact h.first_told behind' u before htail hu hbefore
  once behind run before hseen hrun := by
    obtain ⟨rfl, hcons⟩ | ⟨behind', rfl, htail⟩ := List.cons_eq_append_iff.mp hseen
    · obtain ⟨rfl, -⟩ | ⟨run', rfl, -⟩ := List.append_eq_cons_iff.mp hcons
      · simp
      · exact absurd ht (hrun t (List.mem_cons_self ..))
    · exact h.once behind' run before htail hrun
  fresh _ run before hseen hrun := by
    obtain ⟨rfl, -⟩ | ⟨run', rfl, -⟩ := List.cons_eq_append_iff.mp hseen
    · simp
    · exact absurd ht (hrun t (List.mem_cons_self ..))
  amid h := absurd h Bool.false_ne_true

/-- A token outside goes on with the run before it, or begins one with an error. -/
theorem skip {new : List Diagnostic} (h : RunsTold inside ds skipping seen) (ht : ¬ inside t)
    (hds : ∀ d ∈ ds, d.isStray = true → d.startsAt t = false)
    (hnew : ∀ d ∈ new, ∀ u ∈ seen, d.startsAt u = false)
    (herror : skipping = false → ∃ d ∈ new, d.isError = true ∧ d.startsAt t = true)
    (hstrays : new.countP (·.isStray) ≤ if skipping then 0 else 1)
    (hskipping : skipping' = false → skipping = false ∧ new.countP (·.isStray) = 0) :
    RunsTold inside (new ++ ds) skipping' (t :: seen) where
  first_told behind u before hseen hu hbefore := by
    obtain ⟨rfl, hcons⟩ | ⟨behind', rfl, htail⟩ := List.cons_eq_append_iff.mp hseen
    · obtain ⟨rfl, rfl⟩ := List.cons.inj hcons
      cases skipping with
      | false =>
        obtain ⟨d, hd, hstarts⟩ := herror rfl
        exact ⟨d, List.mem_append_left _ hd, hstarts⟩
      | true =>
        obtain ⟨v, hv, hnot⟩ := h.amid rfl
        exact absurd (hbefore v hv) hnot
    · obtain ⟨d, hd, hstarts⟩ := h.first_told behind' u before htail hu hbefore
      exact ⟨d, List.mem_append_right _ hd, hstarts⟩
  once behind run before hseen hrun := by
    rw [strays_append]
    obtain ⟨rfl, hcons⟩ | ⟨behind', rfl, htail⟩ := List.cons_eq_append_iff.mp hseen
    · obtain ⟨rfl, -⟩ | ⟨run', rfl, htail⟩ := List.append_eq_cons_iff.mp hcons
      · simp
      · have hle := strays_le new (t :: run')
        have hrun := fun u hu => hrun u (List.mem_cons_of_mem _ hu)
        rw [strays_cons hds]
        cases skipping with
        | false =>
          have hfresh := h.fresh rfl run' before htail hrun
          simp only [Bool.false_eq_true, if_false] at hstrays
          omega
        | true =>
          have honce := h.once [] run' before htail hrun
          simp only [if_true] at hstrays
          omega
    · have honce := h.once behind' run before htail hrun
      have hzero : strays new run = 0 := strays_eq_zero fun d hd _ u hu =>
        hnew d hd u (htail ▸ List.mem_append_right _ (List.mem_append_left _ hu))
      omega
  fresh hskip run before hseen hrun := by
    obtain ⟨hskip, hzero⟩ := hskipping hskip
    obtain ⟨rfl, -⟩ | ⟨run', rfl, htail⟩ := List.cons_eq_append_iff.mp hseen
    · simp
    · have hle := strays_le new (t :: run')
      have hfresh := h.fresh hskip run' before htail fun u hu => hrun u (List.mem_cons_of_mem _ hu)
      rw [strays_append, strays_cons hds]
      omega
  amid _ := ⟨t, rfl, ht⟩

theorem coverAll {new : List Token} (h : RunsTold inside ds false seen)
    (hnew : ∀ t ∈ new, inside t) :
    RunsTold inside ds false (new ++ seen) := by
  induction new with
  | nil => exact h
  | cons t new ih =>
    rw [List.forall_mem_cons] at hnew
    exact (ih hnew.2).cover hnew.1

end RunsTold

/-! ## What has been read -/

namespace ParseState

/-- The tokens, the latest first, are those of the text that have been read. -/
structure Seen (text : String) (seen : List Token) (s : ParseState) : Prop where
  at_text : At text s
  split : significant (tokens .default text) =
    seen.reverse ++ significant (s.input.rest.map (·.token))
  stop_le : ∀ t ∈ seen, t.start < t.stop ∧ t.stop ≤ s.place

namespace Seen

theorem ofText (mode : ScanMode) (text : String) : Seen text [] (.ofText mode text) where
  at_text := at_ofText mode text
  split := (congrArg significant (Lexeme.map_token_ofText mode text)).symm
  stop_le := List.forall_mem_nil _

/-- As long as no token is read, nothing changes. -/
theorem of_rest (h : Seen text seen s) (ht : Onward text s t)
    (hrest : t.input.rest = s.input.rest) : Seen text seen t where
  at_text := ht.1
  split := hrest ▸ h.split
  stop_le u hu := ⟨(h.stop_le u hu).1, Nat.le_trans (h.stop_le u hu).2 ht.2⟩

theorem read (h : Seen text seen s) (hne : s.kindAt 1 ≠ .endOfFile) :
    Seen text (s.input.tokenAt 1 :: seen) s.read where
  at_text := h.at_text.read.1
  split := by
    rw [h.split, ← significant_read, significant_singleton hne, List.reverse_cons,
      List.append_assoc]
  stop_le := by
    refine List.forall_mem_cons.mpr ⟨?_, fun u hu => ?_⟩
    · have hlt := (h.at_text.read_token hne).2
      rw [place, last_read] at hlt
      exact ⟨hlt, Nat.le_of_eq (congrArg Token.stop (last_read s)).symm⟩
    · exact ⟨(h.stop_le u hu).1, Nat.le_trans (h.stop_le u hu).2 h.at_text.read.2⟩

/-- What a run reads stands behind what has been read before. -/
theorem tokensRead (h : Seen text seen s) (htokensRead : TokensRead s ts t) :
    ∃ new, Seen text (new ++ seen) t ∧ ∀ u ∈ new, s.place ≤ u.start := by
  induction htokensRead with
  | refl => exact ⟨[], h, List.forall_mem_nil _⟩
  | look htokensRead hlook ih =>
    obtain ⟨new, hseen, hle⟩ := ih
    exact ⟨new, hseen.of_rest (hseen.at_text.looks hlook) hlook.rest, hle⟩
  | @read ts t htokensRead ih =>
    obtain ⟨new, hseen, hle⟩ := ih
    by_cases hend : t.kindAt 1 = .endOfFile
    · refine ⟨new, ⟨hseen.at_text.read.1, ?_, fun u hu => ?_⟩, hle⟩
      · rw [hseen.split, ← significant_read, significant_endOfFile hend, List.nil_append]
      · exact ⟨(hseen.stop_le u hu).1,
          Nat.le_trans (hseen.stop_le u hu).2 hseen.at_text.read.2⟩
    · refine ⟨t.input.tokenAt 1 :: new, hseen.read hend,
        List.forall_mem_cons.mpr ⟨?_, hle⟩⟩
      have hstart := (hseen.at_text.read_token hend).1
      rw [last_read] at hstart
      exact Nat.le_trans (htokensRead.onward h.at_text).2 hstart
  | report htokensRead m args span ih =>
    obtain ⟨new, hseen, hle⟩ := ih
    exact ⟨new, hseen.of_rest ((TokensRead.report .refl m args span).onward hseen.at_text) rfl,
      hle⟩
  | limit htokensRead hlimit ih =>
    obtain ⟨new, hseen, hle⟩ := ih
    exact ⟨new, hseen.of_rest ((TokensRead.limit .refl hlimit).onward hseen.at_text) rfl, hle⟩
  | rename htokensRead names ih =>
    obtain ⟨new, hseen, hle⟩ := ih
    exact ⟨new, hseen.of_rest ((TokensRead.rename .refl names).onward hseen.at_text) rfl, hle⟩

end Seen

end ParseState

/-! ## Members -/

/-- Only between members it is said that a token starts none. -/
def memberwise : RunProperty := fun _ s t =>
  t.reports.filter (·.isStray) = s.reports.filter (·.isStray)

instance : memberwise.Allows l l' := ⟨id⟩

theorem ignores_memberwise {m : Message} (h : m.code ≠ Message.unexpectedMember.code) :
    memberwise.Ignores m where
  report _ s args span := by
    have hm : (Diagnostic.of m args (some span)).isStray = false := beq_false_of_ne h
    simp [memberwise, hm]

theorem reports_reportLimit_strays (s : ParseState) :
    (reportLimit.run s).2.reports.filter (·.isStray) = s.reports.filter (·.isStray) := by
  obtain ⟨-, hrun⟩ | ⟨t, ⟨seen, -, rfl⟩, hrun⟩ := reportLimit_cases s
  · rw [hrun]
  · rw [hrun]
    rfl

instance : memberwise.IgnoresNames where
  refl _ _ := rfl
  trans h₁ h₂ := h₂.trans h₁
  look _ _ _ := rfl
  read _ _ := rfl
  plain hm := ignores_memberwise (by simp_all [Message.isPlain])
  giveUp _ s := reports_reportLimit_strays s
  nest h := h
  rename _ _ _ _ := rfl
  aboutNames hm := ignores_memberwise fun h => by
    simp [Message.aboutNames, h] at hm; revert hm; decide
  forget _ _ _ := rfl
  aboutShape hm := ignores_memberwise fun h => by
    simp [Message.aboutShape, h] at hm; revert hm; decide

/-! ## Rounds -/

/-- Between the members of a module: the tokens read so far are told as they have to be, the nodes
end before the place, and if a token is said to start no member, it has been read. -/
structure CoverageInvariant (text : String) (seen : List Token) (p : Progress)
    (s : ParseState) : Prop where
  read : Seen text seen s
  nodes : ∀ n ∈ p.nodes, n.start < s.place ∧ n.stop ≤ s.place
  strays : ∀ d ∈ s.reports, d.isStray = true → ∃ t ∈ seen, d.startsAt t = true
  told : RunsTold (Covered p.nodes) s.reports p.skipping seen

namespace CoverageInvariant

variable {text : String} {seen : List Token} {p : Progress} {s : ParseState}

theorem ofText (mode : ScanMode) (text : String) :
    CoverageInvariant text [] {} (.ofText mode text) where
  read := .ofText mode text
  nodes := nofun
  strays := nofun
  told := .nil

/-- As long as no token is read, nothing changes. -/
theorem looks (h : CoverageInvariant text seen p s) (hlook : Looks s t) :
    CoverageInvariant text seen p t where
  read := h.read.of_rest (h.read.at_text.looks hlook) hlook.rest
  nodes := hlook.place ▸ h.nodes
  strays := hlook.reports ▸ h.strays
  told := hlook.reports ▸ h.told

/-- It has not been said of a token that is still to be read. -/
theorem startsAt_eq (h : CoverageInvariant text seen p s) (hd : d ∈ s.reports)
    (hstray : d.isStray = true) (ht : s.place ≤ t.start) : d.startsAt t = false := by
  obtain ⟨u, hu, hstarts⟩ := h.strays d hd hstray
  have := h.read.stop_le u hu
  rw [Diagnostic.startsAt, eq_of_beq hstarts, Option.some_beq_some]
  exact beq_false_of_ne (by omega)

/-- The next token is skipped. -/
theorem skip (h : CoverageInvariant text seen p s) (hne : s.kindAt 1 ≠ .endOfFile)
    (new : List Diagnostic)
    (skipping : Bool) (hnew : ∀ d ∈ new, d.span.map (·.start) = some (s.input.tokenAt 1).start)
    (herror : p.skipping = false → ∃ d ∈ new, d.isError = true)
    (hstrays : new.countP (·.isStray) ≤ if p.skipping then 0 else 1)
    (hskipping : skipping = false → p.skipping = false ∧ new.countP (·.isStray) = 0) :
    CoverageInvariant text (s.input.tokenAt 1 :: seen) { p with skipping }
      { s.read with reports := new ++ s.reports } := by
  have hread := h.read.read hne
  obtain ⟨hstart, hlt⟩ := h.read.at_text.read_token hne
  rw [last_read] at hstart hlt
  have hstarts {d : Diagnostic} (hd : d ∈ new) (t : Token) :
      d.startsAt t = ((s.input.tokenAt 1).start == t.start) := by
    rw [Diagnostic.startsAt, hnew d hd, Option.some_beq_some]
  have hplace : s.place ≤ s.read.place := h.read.at_text.read.2
  refine ⟨⟨hread.at_text.of_input rfl, hread.split, hread.stop_le⟩, fun n hn => ?_,
    fun d hd hstray => ?_, h.told.skip ?_ ?_ ?_ ?_ hstrays hskipping⟩
  · obtain ⟨hstart, hstop⟩ := h.nodes n hn
    exact ⟨Nat.lt_of_lt_of_le hstart hplace, Nat.le_trans hstop hplace⟩
  · obtain hd | hd := List.mem_append.mp hd
    · exact ⟨_, List.mem_cons_self .., (hstarts hd _).trans (beq_self_eq_true _)⟩
    · obtain ⟨t, ht, hstarts⟩ := h.strays d hd hstray
      exact ⟨t, List.mem_cons_of_mem _ ht, hstarts⟩
  · rintro ⟨n, hn, -, hstop⟩
    have := (h.nodes n hn).2
    have := (hread.stop_le _ (List.mem_cons_self ..)).1
    omega
  · exact fun d hd hstray => h.startsAt_eq hd hstray hstart
  · intro d hd u hu
    have := h.read.stop_le u hu
    rw [hstarts hd]
    exact beq_false_of_ne (by omega)
  · intro hskip
    obtain ⟨d, hd, herror⟩ := herror hskip
    exact ⟨d, hd, herror, (hstarts hd _).trans (beq_self_eq_true _)⟩

/-- A member is read. -/
theorem member (h : CoverageInvariant text seen p s) (hne : s.kindAt 1 ≠ .endOfFile)
    (hlook : Looks s t)
    (hspans : Spans text ⟨t.read.input.last, errors⟩ t.read u n) (hlater : Later t.read u)
    (hw : Onward text u w) (hrest : w.input.rest = u.input.rest) (hsub : s.reports ⊆ w.reports)
    (hstrays : w.reports.filter (·.isStray) = s.reports.filter (·.isStray)) :
    ∃ seen', CoverageInvariant text seen' ⟨n.insert p.nodes, false⟩ w := by
  obtain ⟨honward, hopens, hstart⟩ := h.read.at_text.opens hne hlook errors
  have hfirst := (h.read.of_rest (h.read.at_text.looks hlook) hlook.rest).read
    (hlook.kindAt 1 ▸ hne)
  obtain ⟨ts, htokensRead⟩ := hlater
  obtain ⟨new, hseen, hle⟩ := hfirst.tokensRead htokensRead
  rw [← last_read] at hseen hfirst
  have hnstart : n.start = t.read.input.last.start := hspans.start_eq
  have hnstop := hspans.stop_eq
  have hlt : n.start < t.read.place := hnstart ▸ hopens.start_lt
  have hplace := hspans.onward.2
  have happend : n.insert p.nodes = p.nodes ++ [n] := Node.appends_of_lt fun m hm =>
    Nat.lt_of_lt_of_le (h.nodes m hm).1 (hnstart ▸ hstart)
  have hcovers {x : Token} (hstart : n.start ≤ x.start) (hstop : x.stop ≤ n.stop) :
      Covered (p.nodes ++ [n]) x := ⟨n, by simp, hstart, hstop⟩
  -- The new node covers what is read of it, and nothing before.
  have hsame (x : Token) (hx : x ∈ seen) : Covered (p.nodes ++ [n]) x ↔ Covered p.nodes x := by
    have := h.read.stop_le x hx
    refine ⟨?_, fun ⟨m, hm, hinside⟩ => ⟨m, List.mem_append_left _ hm, hinside⟩⟩
    rintro ⟨m, hm, hinside⟩
    obtain hm | hm := List.mem_append.mp hm
    · exact ⟨m, hm, hinside⟩
    · obtain rfl := List.mem_singleton.mp hm
      omega
  rw [happend]
  refine ⟨_, hseen.of_rest hw hrest, fun m hm => ?_, fun d hd hstray => ?_,
    ((h.told.congr hsame hsub hstrays).cover (hcovers ?_ ?_)).coverAll fun x hx => hcovers ?_ ?_⟩
  · have := honward.2
    have := hw.2
    obtain hm | hm := List.mem_append.mp hm
    · have := h.nodes m hm
      omega
    · obtain rfl := List.mem_singleton.mp hm
      omega
  · have hd : d ∈ s.reports.filter (·.isStray) :=
      hstrays ▸ List.mem_filter.mpr ⟨hd, hstray⟩
    obtain ⟨x, hx, hstarts⟩ := h.strays d (List.mem_of_mem_filter hd) hstray
    exact ⟨x, List.mem_append_right _ (List.mem_cons_of_mem _ hx), hstarts⟩
  · exact Nat.le_of_eq hnstart
  · exact hnstop ▸ (hseen.stop_le _ (List.mem_append_right _ (List.mem_cons_self ..))).2
  · have := hle x hx
    omega
  · exact hnstop ▸ (hseen.stop_le x (List.mem_append_left _ hx)).2

end CoverageInvariant

/-- A round of a module that adds no member skips one token, or an END with its keyword. -/
theorem Parser.Skip.coverageInvariant {version : Version} {a b : Progress × ParseState}
    (hskip : Skip false (.root version) .members a b) (h : CoverageInvariant text seen a.1 a.2) :
    ∃ seen', CoverageInvariant text seen' b.1 b.2 := by
  cases hskip with
  | @unavailable u p f s t hchoice hreport =>
    obtain rfl := (Prod.mk.inj hreport).2
    have hne := hchoice.looks.kindAt 1 ▸ hchoice.passes.ne_endOfFile
    let d : Diagnostic := .of .requiresVersion [f.name, f.version.render]
      (some t.read.input.last.span)
    have hd : d.isStray = false := rfl
    refine ⟨_, (h.looks hchoice.looks).skip hne [d] p.skipping ?_
      (fun _ => ⟨d, by simp, rfl⟩) ?_ ?_⟩
    · exact List.forall_mem_singleton.mpr (congrArg (fun x : Token => some x.start) (last_read t))
    · simp [hd]
    · simp [hd]
  | tooDeep hchoice hlimit =>
    obtain ⟨s₁, t₁, -, hchosen, -⟩ := hchoice.chosen
    exact absurd (congrArg Prod.fst hchosen) (chooseNext_ne_tooDeep _ _ _)
  | @unexpected u p s t hchoice hskip =>
    have hne := hchoice.looks.kindAt 1 ▸ hchoice.passes.ne_endOfFile
    obtain ⟨v, ⟨x, hx, rfl⟩, rfl⟩ |
        ⟨-, v, word, span, ⟨x, hx, rfl⟩, hword, hspan, rfl⟩ :=
      skipUnexpected_cases hskip
    · refine ⟨_, ((h.looks hchoice.looks).skip hne _ true ?_ ?_ ?_ nofun).looks
        ⟨x, hx, rfl⟩⟩
      · intro d hd
        split at hd
        · obtain rfl := List.mem_singleton.mp hd
          exact congrArg (fun x : Token => some x.start) (last_read t)
        · cases hd
      · intro hskipping
        rw [hskipping]
        exact ⟨_, List.mem_cons_self .., rfl⟩
      · cases p.skipping with
        | false => exact List.countP_le_length
        | true => exact Nat.le_refl _
    · -- The END is skipped with the report, and the keyword behind it without another.
      have hstart : some span.start = some (t.input.tokenAt 1).start := by
        rw [hspan, ← last_read]; rfl
      have hend := ((h.looks hchoice.looks).skip hne
        [.of .unexpectedEnd [word.text] (some span)] true
        (List.forall_mem_singleton.mpr hstart) (fun _ => ⟨_, List.mem_cons_self .., rfl⟩)
        (Nat.zero_le _) nofun).looks ⟨x, hx, rfl⟩
      exact ⟨_, hend.skip (fun hend => Kind.noConfusion (hword.symm.trans hend))
        [] true nofun nofun (Nat.zero_le _) nofun⟩

/-- Each round of a module goes on as it has to. -/
theorem Parser.Round.coverageInvariant {version : Version} {a b : Progress × ParseState}
    (hround : Round (some (formWith levels (bodyAt levels))) (.root version) .members a b)
    (hlimit : a.2.nesting.isFull = false) (h : CoverageInvariant text seen a.1 a.2) :
    ∃ seen', CoverageInvariant text seen' b.1 b.2 := by
  cases hround with
  | @statement n u v w p parse f word s t hparse hchoice hrun hjump hleave =>
    cases hparse
    have hne := hchoice.passes.ne_endOfFile
    obtain ⟨honward, hopens, -⟩ := h.read.at_text.opens hne hchoice.looks s.errorCount
    obtain ⟨haccount, -⟩ := (accounts_formWith (accountsBodies levels) (.root version)
      ⟨t.read.input.last, s.errorCount⟩ hchoice.fits).of_run hrun
    have hspans := (laidOut_of_derivable haccount.derives honward.1 hopens).1
    have hjumped := hspans.onward.1.run (reportsOnly_checkJump _ _) hjump
    obtain ⟨ts, htokensRead⟩ : Later s w := hchoice.looks.later.trans ((Later.read t).trans
      (haccount.later.trans (((careful_checkJump _ _ _).later hjump).trans hleave.later)))
    refine h.member hne hchoice.looks hspans haccount.later (hjumped.trans (hjumped.1.looks hleave))
      (hleave.rest.trans (congrArg (·.rest) (input_checkJump hjump))) htokensRead.reports_subset ?_
    have hparse : memberwise 0 t.read u := Has.of_run inferInstance hrun
    have hcheck : memberwise 0 u v := Has.of_run inferInstance hjump
    rw [hleave.reports, hcheck, hparse, ← hchoice.looks.reports]
    rfl
  | skip hskip =>
    rw [hlimit] at hskip
    exact hskip.coverageInvariant h

/-! ## Whole texts -/

/-- A module is read up to its last token. -/
theorem coverageInvariant_parseModule (text : String) (options : ParseOptions) :
    ∃ seen p s, CoverageInvariant text seen p s ∧
      p.nodes = (parseModule text options).module.children ∧
      significant (tokens .default text) = seen.reverse ∧
      (parseModule text options).diagnostics = options.placed s.read.diagnostics := by
  have hbody : bodyAt maxNesting = bodyWith (some (formWith 199 (bodyAt 199))) := rfl
  generalize hmodule :
    (bodyAt maxNesting (.root options.version) .members).run (.ofText options.mode text) = r
  obtain ⟨⟨ns, stop⟩, v⟩ := r
  -- Between the members nothing nests, so that no member is refused.
  obtain ⟨p, u, ⟨-, seen, hseen⟩, rfl, hstop, hlook⟩ := bodyWith_keeps_of
    (I := fun p t => t.nesting.depth = 0 ∧ ∃ seen, CoverageInvariant text seen p t)
    (R := fun a b => Round _ _ _ a b ∧ balanced maxNesting a.2 b.2)
    (fun p _ _ _ h => ⟨(round_of_nestingGuard h).2 p,
      has_bodyRound _ (fun _ hparse => ⟨199, rfl, by cases hparse; infer_instance⟩) p h⟩)
    ⟨rfl, [], .ofText options.mode text⟩
    (fun _ _ ⟨hround, hbalanced⟩ ⟨hdepth, _, hseen⟩ => ⟨hbalanced.1.trans hdepth,
      hround.coverageInvariant (by rw [Nesting.isFull, hdepth]; rfl) hseen⟩) (hbody ▸ hmodule)
  have hseen := hseen.looks hlook
  have hend : v.kindAt 1 = .endOfFile := (hlook.kindAt 1).trans (hstop.at_end rfl rfl).2
  have hsplit := hseen.read.split
  rw [← significant_read, significant_endOfFile hend, hseen.read.at_text.rest_read hend] at hsplit
  refine ⟨seen, p, v, hseen, ?_, hsplit.trans (List.append_nil _), ?_⟩
  · exact (congrArg (·.1.1) hmodule).symm
  · exact congrArg (fun r => options.placed r.2.read.diagnostics) hmodule

theorem Diagnostic.IsFrom.not_isStray {d : Diagnostic} (h : d.IsFrom scanMessages) :
    d.isStray = false := by
  obtain ⟨m, hm, args, span, rfl⟩ := h
  obtain rfl | rfl | rfl | rfl := hm <;> rfl

/-- Only what is reported says that a token starts no member. -/
theorem ParseState.At.strays_eq (h : At text s) (run : List Token) :
    strays s.diagnostics run = strays s.reports run := by
  have hissues : strays s.input.issues run = 0 := strays_eq_zero fun d hd hstray =>
    absurd ((h.isFrom_issues d hd).not_isStray.symm.trans hstray) Bool.false_ne_true
  calc strays s.diagnostics run
      = strays (s.input.issues ++ s.reports) run := s.perm_diagnostics.countP_eq _
    _ = strays s.reports run := by rw [strays_append, hissues, Nat.zero_add]

/-- The tokens stand in a row among others: none of them is inside a node, but the ones next to them
are. -/
def IsRun (ns : List Node) (ts run : List Token) : Prop :=
  ∃ before behind, ts = before ++ run ++ behind ∧ (∀ t ∈ run, ¬ Covered ns t) ∧
    (∀ t ∈ before.getLast?, Covered ns t) ∧ ∀ t ∈ behind.head?, Covered ns t

/-- No token of a module is skipped silently. Where a run of tokens outside of all members begins,
an error does, and of each run at most one token is said to start no member; without errors every
token is inside a member. -/
theorem parseModule_coverage (text : String) (options : ParseOptions) :
    let result := parseModule text options
    let ts := significant (tokens .default text)
    (∀ first rest, IsRun result.module.children ts (first :: rest) →
      (∃ d ∈ result.diagnostics, d.isError = true ∧ d.startsAt first = true) ∧
      strays result.diagnostics (first :: rest) ≤ 1) ∧
    (∀ d ∈ result.diagnostics, d.isStray = true → ∃ t ∈ ts, d.startsAt t = true) ∧
    ((∀ d ∈ result.diagnostics, d.isError = false) →
      ∀ t ∈ ts, Covered result.module.children t) := by
  intro result ts
  obtain ⟨seen, p, s, hinvariant, hnodes, hseen, hdiagnostics⟩ :=
    coverageInvariant_parseModule text options
  have hts : ts.reverse = seen := by rw [show ts = seen.reverse from hseen, List.reverse_reverse]
  have hread : At text s.read := hinvariant.read.at_text.read.1
  have htold := hnodes ▸ hinvariant.told
  have hfirst (before : List Token) (first : Token) (behind : List Token)
      (hsplit : ts = before ++ first :: behind) (houtside : ¬ Covered result.module.children first)
      (hbefore : ∀ t ∈ before.getLast?, Covered result.module.children t) :
      ∃ d ∈ result.diagnostics, d.isError = true ∧ d.startsAt first = true := by
    obtain ⟨d, hd, herror, hstarts⟩ := htold.first_told behind.reverse first before.reverse
      (by rw [← hts, hsplit]; simp) houtside (by rwa [List.head?_reverse])
    have hany : s.read.diagnostics.any (fun d => d.isError && d.startsAt first) = true :=
      List.any_eq_true.mpr ⟨d, s.read.perm_diagnostics.mem_iff.mpr
        (List.mem_append_right _ hd), by
        rw [herror, hstarts]; rfl⟩
    rw [← options.any_placed _ fun _ _ => rfl, ← hdiagnostics] at hany
    simpa using hany
  refine ⟨fun first rest hrun => ?_, fun d hd hstray => ?_, fun herrors t ht => ?_⟩
  · obtain ⟨before, behind, hsplit, houtside, hbefore, -⟩ := hrun
    refine ⟨hfirst before first (rest ++ behind) (by simp [hsplit])
      (houtside first (List.mem_cons_self ..)) hbefore, ?_⟩
    have honce := htold.once behind.reverse (first :: rest).reverse before.reverse
      (by rw [← hts, hsplit]; simp) fun t ht => houtside t (List.mem_reverse.mp ht)
    rw [hdiagnostics, strays, options.countP_placed _ fun _ _ => rfl]
    exact (hread.strays_eq _).trans_le (strays_reverse s.reports (first :: rest) ▸ honce)
  · by_contra hnone
    have hany : result.diagnostics.any (fun d => d.isStray && !ts.any d.startsAt) = true := by
      refine List.any_eq_true.mpr ⟨d, hd, ?_⟩
      simpa [hstray] using hnone
    rw [hdiagnostics, options.any_placed _ fun _ _ => rfl, List.any_eq_true] at hany
    obtain ⟨d, hd, hd'⟩ := hany
    obtain ⟨hstray, hstarts⟩ := Bool.and_eq_true_iff.mp hd'
    obtain hd | hd := List.mem_append.mp (s.read.perm_diagnostics.mem_iff.mp hd)
    · exact Bool.false_ne_true ((hread.isFrom_issues d hd).not_isStray.symm.trans hstray)
    · obtain ⟨t, ht, htold⟩ := hinvariant.strays d hd hstray
      have hmem : t ∈ ts := List.mem_reverse.mp (hts ▸ ht)
      rw [List.any_eq_true.mpr ⟨t, hmem, htold⟩] at hstarts
      cases hstarts
  · cases hfind : ts.find? (¬ Covered result.module.children ·) with
    | none => simpa using List.find?_eq_none.mp hfind t ht
    | some first =>
      obtain ⟨hnot, before, behind, hsplit, hbefore⟩ := List.find?_eq_some_iff_append.mp hfind
      obtain ⟨d, hd, herror, -⟩ := hfirst before first behind hsplit (by simpa using hnot)
        fun u hu => by simpa using hbefore u (List.mem_of_mem_getLast? hu)
      exact absurd ((herrors d hd).symm.trans herror) Bool.false_ne_true

end FourGL
