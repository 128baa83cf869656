import FourGL.Proofs.Grammar.Clean
import FourGL.Proofs.Grammar.Parallel
import FourGL.Proofs.Tree.Completeness

/-!
# Newer versions

A newer version makes more forms available. A statement that an older version lacks is reported as
an error there, so a run without an error never came upon one, and the newer version chooses the
same forms all along: what is read without an error `ReadsAsWell`. The one word that several forms
share is an access modifier; a form that is tried in vain behind it looks no further than the forms
before.
-/

namespace FourGL

open FourGL.Parser FourGL.ParseState

/-! ## Choosing a form -/

theorem Form.baseline_le (f : Form) : Version.baseline ≤ f.version := by cases f <;> decide

/-- Behind an access modifier a word makes one form only. -/
theorem Form.eq_of_modifiable? {f f' : Form} (h : f.modifiable? = some k)
    (h' : f'.modifiable? = some k) : f = f' := by
  cases f <;> cases h <;> cases f' <;> first | rfl | cases h'

theorem Version.availableIn_mono {f v w : Version} (hle : v ≤ w) (h : f.availableIn v = true) :
    f.availableIn w = true := decide_eq_true (le_trans (of_decide_eq_true h) hle)

/-- A production that is not there from the beginning starts with a word only if it is its own. -/
def Production.OwnsWord (p : Production) (first : Keyword) : Prop :=
  p.form.version = .baseline ∨ (p.startsWith first = true → p.isOwnWord first = true)

theorem Production.ownsWord {p : Production}
    (h : p.form.version = .baseline ∨ first ∉ p.leading.tail) : p.OwnsWord first := by
  refine h.imp id fun hfirst hstarts => ?_
  obtain ⟨form, _ | ⟨k, ks⟩⟩ := p
  · cases hstarts
  · obtain rfl | hmem := List.mem_cons.mp (List.contains_iff_mem.mp hstarts)
    · exact beq_self_eq_true _
    · exact absurd hmem hfirst

namespace Parser

theorem availableIn_of_choose (h : (choose v atLimit first ps).run s = (.form f word, t)) :
    f.version.availableIn v = true := by
  induction ps generalizing s with
  | nil => cases h
  | cons p ps ih =>
    unfold choose at h
    split at h
    · exact ih h
    · split at h
      · split at h
        · cases h
        · exact ih h
      · split at h
        · cases h
        next havailable _ =>
          obtain ⟨found, u, -, h⟩ := run_of_bind h
          cases found with
          | true =>
            cases h
            simpa using havailable
          | false => exact ih h

/-- The newer version chooses the same form, if the others that it may have start with their own
words. -/
theorem choose_newer (hle : v ≤ w) (hps : ∀ p ∈ ps, p.OwnsWord first)
    (h : (choose v atLimit first ps).run s = (.form f word, t)) :
    (choose w atLimit first ps).run s = (.form f word, t) := by
  have hbaseline : Version.baseline.availableIn v = true :=
    decide_eq_true (Version.le_trans f.baseline_le (of_decide_eq_true (availableIn_of_choose h)))
  induction ps generalizing s with
  | nil => cases h
  | cons p ps ih =>
    obtain ⟨hp, hps⟩ := List.forall_mem_cons.mp hps
    unfold choose at h ⊢
    split at h
    next hstarts =>
      rw [if_pos hstarts]
      exact ih hps h
    next hstarts =>
      rw [if_neg hstarts]
      split at h
      next hlacks =>
        -- What the older version lacks is refused at its own word.
        split at h
        · cases h
        next hown =>
          obtain hversion | howns := hp
          · simp [hversion, hbaseline] at hlacks
          · exact absurd (howns (by simpa using hstarts)) hown
      next havailable =>
        have hw := Version.availableIn_mono hle (by simpa using havailable)
        rw [if_neg (by simp [hw])]
        split at h
        · cases h
        next hlimit =>
          rw [if_neg hlimit]
          obtain ⟨found, u, happlies, h⟩ := run_of_bind h
          rw [run_bind, happlies]
          cases found with
          | true => exact h
          | false => exact ih hps h

/-- The production may begin with an access modifier, and its own word is `k`. -/
structure Modified (p : Production) (k : Keyword) : Prop where
  modifiable : p.form.modifiable? = some k
  leading_eq : p.leading = [k, .PUBLIC, .PRIVATE]

section

variable {p : Production} {word k : Keyword} (hword : word = .PUBLIC ∨ word = .PRIVATE)
include hword

/-- Behind an access modifier the second token decides. -/
theorem applies_modified (hp : Modified p k) :
    p.startsWith word = true ∧ p.isOwnWord word = false ∧
      applies p.form word = secondIs (.keyword k) := by
  obtain ⟨form, leading⟩ := p
  obtain ⟨hform : form.modifiable? = some k, rfl : leading = _⟩ := hp
  have hne : word ≠ k := by
    rintro rfl
    obtain rfl | rfl := hword <;> cases form <;> cases hform
  refine ⟨?_, by simpa [Production.isOwnWord] using hne.symm, ?_⟩
  · obtain rfl | rfl := hword <;> simp [Production.startsWith]
  · cases form <;> cases hform <;> exact if_neg hne

/-- A form that is available looks at the second token, wherever it stands. -/
theorem run_choose_inspected (hp : Modified p k) (ps : List Production)
    (hv : p.form.version.availableIn v = true) (s : ParseState) :
    (choose v false word (p :: ps)).run s =
      (choose v false word (p :: ps)).run { s with input := s.input.inspect 2 } := by
  obtain ⟨hstarts, -, happlies⟩ := applies_modified hword hp
  have hinspect : s.input.inspect 2 = (s.input.inspect 2).inspect 2 := by simp [Lookahead.inspect]
  have hsecond : (secondIs (.keyword k)).run s =
      (secondIs (.keyword k)).run { s with input := s.input.inspect 2 } :=
    Prod.ext rfl (congrArg (fun input => { s with input }) hinspect)
  rw [choose, if_neg (by simp [hstarts]), if_neg (by simp [hv]), if_neg (by simp), happlies,
    run_bind, run_bind, hsecond]

/-- Looking at the second token once more changes nothing. -/
theorem run_choose_modified (hp : Modified p k) (ps : List Production)
    (hs : s.input.inspect 2 = s.input) :
    (choose v false word (p :: ps)).run s =
      if p.form.version.availableIn v = true ∧ s.kindAt 2 = .keyword k then (.form p.form word, s)
      else (choose v false word ps).run s := by
  obtain ⟨hstarts, hown, happlies⟩ := applies_modified hword hp
  rw [choose, if_neg (by simp [hstarts])]
  cases hv : p.form.version.availableIn v with
  | false => rw [if_pos (by simp), if_neg (by simp [hown]), if_neg (by simp)]
  | true =>
    have hsecond : (secondIs (.keyword k)).run s = (s.kindAt 2 == .keyword k, s) := by
      change (_, { s with input := s.input.inspect 2 }) = _
      rw [hs]
      rfl
    rw [if_neg (by simp), if_neg (by simp), happlies, run_bind, hsecond]
    simp only [true_and, beq_iff_eq]
    split <;> rfl

/-- Of forms that the same word makes behind an access modifier there is only one, so a newer
version does not choose another one. -/
theorem choose_modified_newer (hle : v ≤ w) (hs : s.input.inspect 2 = s.input)
    (hps : ∀ p ∈ ps, ∃ k, Modified p k)
    (h : (choose v false word ps).run s = (.form f word', t)) :
    (choose w false word ps).run s = (.form f word', t) ∧
      ∃ k, f.modifiable? = some k ∧ s.kindAt 2 = .keyword k := by
  have havailable := availableIn_of_choose h
  induction ps with
  | nil => cases h
  | cons p ps ih =>
    obtain ⟨⟨k, hp⟩, hps⟩ := List.forall_mem_cons.mp hps
    rw [run_choose_modified hword hp ps hs] at h
    rw [run_choose_modified hword hp ps hs]
    split at h
    next hchosen =>
      cases h
      rw [if_pos ⟨Version.availableIn_mono hle hchosen.1, hchosen.2⟩]
      exact ⟨rfl, k, hp.modifiable, hchosen.2⟩
    next hpassed =>
      obtain ⟨hsame, k', hf, hkind⟩ := ih hps h
      refine ⟨?_, k', hf, hkind⟩
      rw [if_neg, hsame]
      rintro ⟨-, hk⟩
      have hmodifiable := hp.modifiable
      rw [Kind.keyword.inj (hk.symm.trans hkind)] at hmodifiable
      exact hpassed ⟨Form.eq_of_modifiable? hmodifiable hf ▸ havailable, hk⟩

theorem choose_members_newer (hle : v ≤ w)
    (h : (choose v false word Production.members).run s = (.form f word', t)) :
    (choose w false word Production.members).run s = (.form f word', t) := by
  have hbaseline : Version.baseline.availableIn v = true :=
    decide_eq_true (Version.le_trans f.baseline_le (of_decide_eq_true (availableIn_of_choose h)))
  have hmodified : ∀ p ∈ Production.members.drop 3, ∃ k, Modified p k := by
    simp only [Production.members, List.drop_succ_cons, List.drop_zero, List.forall_mem_cons]
    exact ⟨⟨_, rfl, rfl⟩, ⟨_, rfl, rfl⟩, ⟨_, rfl, rfl⟩, ⟨_, rfl, rfl⟩,
      ⟨_, rfl, rfl⟩, by simp⟩
  -- The first member that may have a modifier looks at the second token.
  have hlook (v : Version) (hv : Version.baseline.availableIn v = true) :
      (choose v false word Production.members).run s =
        (choose v false word (Production.members.drop 3)).run
          { s with input := s.input.inspect 2 } := by
    have hdrop : choose v false word Production.members =
        choose v false word (Production.members.drop 3) := by
      obtain rfl | rfl := hword <;> rfl
    rw [hdrop]
    exact run_choose_inspected (p := ⟨.vars, [.DEFINE, .PUBLIC, .PRIVATE]⟩) hword
      ⟨rfl, rfl⟩ _ hv s
  have hinspect : (s.input.inspect 2).inspect 2 = s.input.inspect 2 := by simp [Lookahead.inspect]
  rw [hlook v hbaseline] at h
  rw [hlook w (Version.availableIn_mono hle hbaseline)]
  exact (choose_modified_newer hword hle hinspect hmodified h).1

end

/-- No production waits for a word of another one; or it is members of modules that are read. -/
def Settled (ps : List Production) : Prop :=
  (∀ p ∈ ps, ∀ word, p.OwnsWord word) ∨ ps = Production.members

theorem ownsWord_members (hfirst : ¬ (first = .PUBLIC ∨ first = .PRIVATE)) :
    ∀ p ∈ Production.members, p.OwnsWord first := by
  have hmembers : ∀ p ∈ Production.members, p.form.version = .baseline ∨
      ∀ word ∈ p.leading.tail, word = .PUBLIC ∨ word = .PRIVATE := by decide
  exact fun p hp => Production.ownsWord ((hmembers p hp).imp id fun h hmem => hfirst (h first hmem))

theorem chooseNext_newer (hle : v ≤ w) (hps : Settled ps)
    (h : (chooseNext v atLimit ps).run s = (.form f word, t)) :
    (chooseNext w atLimit ps).run s = (.form f word, t) := by
  obtain ⟨kind, u, hkind, h⟩ := run_of_bind h
  unfold chooseNext
  rw [run_bind, hkind]
  split at h
  next first =>
    obtain hps | rfl := hps
    · exact choose_newer hle (fun p hp => hps p hp first) h
    by_cases hfirst : first = .PUBLIC ∨ first = .PRIVATE
    · cases atLimit with
      | true => exact absurd (congrArg Prod.fst h) (choose_ne_form _ _ _ _ _ _)
      | false => exact choose_members_newer hfirst hle h
    · exact choose_newer hle (ownsWord_members hfirst) h
  next => cases h

end Parser

/-! ## Contexts -/

/-- The contexts differ at most in the version, and the second one is the newer. -/
class Context.Newer (c d : Context) : Prop where
  eq : d = { c with version := d.version }
  le : c.version ≤ d.version
  extra : ∀ p ∈ c.extra, ∀ word, p.OwnsWord word

namespace Context.Newer

theorem map (h : Newer c d) (f : Context → Context)
    (hf : ∀ c v, f { c with version := v } = { f c with version := v })
    (hextra : ∀ p ∈ (f c).extra, ∀ word, p.OwnsWord word) : Newer (f c) (f d) := by
  have hversion (c : Context) : (f c).version = c.version := by
    have h := congrArg (fun c : Context => c.version) (hf c c.version)
    exact h
  refine ⟨?_, by rw [hversion, hversion]; exact h.le, hextra⟩
  rw [hversion, ← hf, ← h.eq]

variable [h : Newer c d]

instance : Newer (c.withEnd k) (d.withEnd k) := h.map (·.withEnd k) (fun _ _ => rfl) h.extra
instance : Newer (c.withStops ks) (d.withStops ks) :=
  h.map (·.withStops ks) (fun _ _ => rfl) h.extra
instance : Newer (c.insideLoop k) (d.insideLoop k) :=
  h.map (·.insideLoop k) (fun _ _ => rfl) h.extra
instance {owner : Option Owner} : Newer (c.routine k owner) (d.routine k owner) :=
  h.map (·.routine k owner) (fun _ _ => rfl) (by simp [routine])
instance : Newer c.insideGlobals d.insideGlobals :=
  h.map (·.insideGlobals) (fun _ _ => rfl) h.extra

instance : Newer c.insideMenu d.insideMenu := by
  refine h.map (·.insideMenu) (fun _ _ => rfl) fun p hp word => ?_
  obtain hp | hp := List.mem_append.mp hp
  · exact h.extra p hp word
  · rw [List.mem_singleton.mp hp]
    exact .inl rfl

end Context.Newer

open Context (Newer)

namespace Parser

/-- Bodies whose productions do not wait for words of each other, and where it is an error if
nothing starts. -/
class Region.Settled (region : Region) : Prop where
  ownsWord : ∀ p ∈ region.productions, ∀ word, p.OwnsWord word
  severity_eq : region.unexpected.severity = .error

instance : Region.Settled ⟨Production.statements, terminator, .unexpectedToken⟩ where
  ownsWord p hp word := by
    have hown : ∀ p ∈ Production.statements, p.form.version = .baseline ∨
        p.leading.tail = [] := by
      decide
    exact Production.ownsWord ((hown p hp).imp id fun h hmem => by rw [h] at hmem; cases hmem)
  severity_eq := rfl

instance : Region.Settled ⟨Production.globalsMembers, terminator, .unexpectedToken⟩ where
  ownsWord p hp word := by
    have hown : ∀ p ∈ Production.globalsMembers,
        p.form.version = .baseline ∨ p.leading.tail = [] := by decide
    exact Production.ownsWord ((hown p hp).imp id fun h hmem => by rw [h] at hmem; cases hmem)
  severity_eq := rfl

/-! ## What the newer version reads as well -/

/-- What the first parser reads without an error, the second one reads as well. -/
class ReadsAsWell (p q : Parser α) : Prop extends p.Flows where
  run_eq : ∀ {s a t}, s.limitReported = false → p.Clean s a t → q.run s = (a, t)

instance {p : Parser α} [p.Flows] : ReadsAsWell p p where
  run_eq _ h := h.run_eq

section

variable {p q p' q' : Parser α} {f g : α → Parser β}

instance [hp : ReadsAsWell p q] [hf : ∀ a, ReadsAsWell (f a) (g a)] :
    ReadsAsWell (p >>= f) (q >>= g) where
  has := (Has.bind fun a => (hf a).toHas).has
  run_eq hlimit h := by
    obtain ⟨a, t, hfirst, hrest⟩ := h.bind
    have hlimit' := hfirst.errorFree.limitReported_eq.trans hlimit
    rw [run_bind, hp.run_eq hlimit hfirst]
    exact (hf a).run_eq hlimit' hrest

/-- What both begin with in the same way is read as well. -/
theorem ReadsAsWell.past [p.Flows] (hf : ∀ a, ReadsAsWell (f a) (g a)) :
    ReadsAsWell (p >>= f) (p >>= g) :=
  inferInstance

theorem ReadsAsWell.run_same (h : ReadsAsWell p q) (hlimit : s.limitReported = false)
    (herrors : (p.run s).2.errorCount = s.errorCount) : q.run s = p.run s :=
  h.run_eq hlimit ⟨rfl, herrors⟩

instance {c : Prop} [Decidable c] [hp : ReadsAsWell p q] [hp' : ReadsAsWell p' q'] :
    ReadsAsWell (if c then p else p') (if c then q else q') := by
  split
  · exact hp
  · exact hp'

end

/-- What depends on a context only by its other parts is read as well. -/
theorem readsAsWell_of_newer {p : Context → Parser α}
    (hp : ∀ c v, p { c with version := v } = p c)
    [h : Newer c d] [(p c).Flows] : ReadsAsWell (p c) (p d) := by
  have hd : p d = p c := (congrArg p h.eq).trans (hp c d.version)
  rw [hd]
  infer_instance

/-! ## Loops -/

/-- A loop without an error runs the same with other rounds, if these do. In all rounds without an
error `I` holds of the value. -/
theorem run_rounds {guard guard' : Parser (β ⊕ γ)} {body body' : σ → γ → Parser σ}
    {I : σ → Prop} (hlater : ∀ s, Later s (guard.run s).2) (hflows : ∀ a g, (body a g).Flows)
    (hne : ∀ {s g t}, guard.run s = (.inr g, t) → t.kindAt 1 ≠ .endOfFile)
    (hstop : ∀ {s stop t}, guard.run s = (.inl stop, t) → guard'.run s = (.inl stop, t))
    (hround : ∀ {a s g t b u}, I a → s.limitReported = false → guard.run s = (.inr g, t) →
      (body a g).run t.read = (b, u) → u.errorCount = s.errorCount →
      guard'.run s = (.inr g, t) ∧ (body' a g).run t.read = (b, u) ∧ I b ∧
      u.limitReported = false)
    (atEnd : β) (a : σ) (ha : I a) (hlimit : s.limitReported = false)
    (hclean : (loop atEnd (fun _ => guard) body a).Clean s b t) :
    (loop atEnd (fun _ => guard') body' a).run s = (b, t) := by
  have hloop (a : σ) (s : ParseState) :
      Later s ((loop atEnd (fun _ => guard) body a).run s).2 := by
    change Later s (loopFrom atEnd (fun _ => guard) body a s).2
    fun_induction loopFrom atEnd (fun _ => guard) body a s with
    | case1 a s b t h => simpa [h] using hlater s
    | case2 a s g t h _ => simpa [h] using hlater s
    | case3 a s g t h _ _ _ r ih =>
      have hguard := hlater s
      rw [h] at hguard
      exact hguard.trans ((Later.read t).trans (((hflows a g).flows _).later.trans ih))
  suffices h : s.limitReported = false →
      ((loop atEnd (fun _ => guard) body a).run s).2.errorCount = s.errorCount →
      (loop atEnd (fun _ => guard') body' a).run s = (loop atEnd (fun _ => guard) body a).run s from
    (h hlimit (by rw [hclean.run_eq, hclean.errors_eq])).trans hclean.run_eq
  clear hlimit hclean
  induction a, s using loopFrom.induct (fun _ => guard) body with
  | case1 a s stop t h =>
    intro _ _
    have hrun : (loop atEnd (fun _ => guard) body a).run s = _ := run_loop_stop h
    have hrun' : (loop atEnd (fun _ => guard') body' a).run s = _ := run_loop_stop (hstop h)
    rw [hrun, hrun']
  | case2 a s g t h hnil => exact absurd hnil (rest_ne_nil (hne h))
  | case3 a s g t h l ls hrest r ih =>
    intro hlimit herrors
    have hne' := rest_ne_nil (hne h)
    have hrun : (loop atEnd (fun _ => guard) body a).run s = _ := run_loop_round h hne'
    rw [hrun] at herrors ⊢
    have hguard := hlater s
    rw [h] at hguard
    have hbefore := (hguard.trans ((Later.read t).trans ((hflows a g).flows _).later)).errorCount_le
    have hbehind := (hloop ((body a g).run t.read).1 ((body a g).run t.read).2).errorCount_le
    have hclean : ((body a g).run t.read).2.errorCount = s.errorCount := by omega
    obtain ⟨hguard', hbody', hI, hlimit'⟩ := hround ha hlimit h rfl hclean
    have hrun' : (loop atEnd (fun _ => guard') body' a).run s = _ := run_loop_round hguard' hne'
    rw [hrun', hbody']
    exact ih hI hlimit' (herrors.trans hclean.symm)

/-- A body stops for the newer version where it stopped, and goes on with the form it went on
with. -/
theorem bodyGuard_newer [h : Newer c d] (hps : Settled (c.extra ++ region.productions))
    (hrun : (bodyGuard atLimit c region).run s = (r, t))
    (hr : ∀ choice errors, r = .inr (choice, errors) → ∃ f word, choice = .form f word) :
    (bodyGuard atLimit d region).run s = (r, t) := by
  obtain ⟨version, hversion, rfl⟩ : ∃ version, c.version ≤ version ∧
      d = { c with version } :=
    ⟨d.version, h.le, h.eq⟩
  obtain ⟨stop, s₁, hend, hrun⟩ := run_of_bind hrun
  unfold bodyGuard
  rw [run_bind, show (stopAtEnd? { c with version } region.terminator).run s = _ from hend]
  cases stop with
  | some stop => exact hrun
  | none =>
    obtain ⟨stop, s₂, htoken, hrun⟩ := run_of_bind hrun
    dsimp only
    rw [run_bind, show (stopAtToken? { c with version }).run s₁ = _ from htoken]
    cases stop with
    | some stop => exact hrun
    | none =>
      obtain ⟨errors, s₃, herrors, hrun⟩ := run_of_bind hrun
      obtain ⟨choice, u, hchoice, hrun⟩ := run_of_bind hrun
      dsimp only
      rw [run_bind, herrors, run_bind]
      cases choice with
      | form f word => rw [chooseNext_newer hversion hps hchoice]; exact hrun
      | unavailable f =>
        obtain ⟨f', word, heq⟩ := hr _ _ (Prod.mk.inj hrun).1.symm
        cases heq
      | tooDeep =>
        obtain ⟨f', word, heq⟩ := hr _ _ (Prod.mk.inj hrun).1.symm
        cases heq
      | unexpected =>
        obtain ⟨f', word, heq⟩ := hr _ _ (Prod.mk.inj hrun).1.symm
        cases heq

theorem nestingGuard_newer [Newer c d] (hps : Settled (c.extra ++ region.productions))
    (hrun : (nestingGuard bottom c region).run s = (r, t))
    (hr : ∀ choice errors, r = .inr (choice, errors) → ∃ f word, choice = .form f word) :
    (nestingGuard bottom d region).run s = (r, t) := by
  rw [run_nestingGuard] at hrun ⊢
  exact bodyGuard_newer hps hrun hr

/-- The first token that starts nothing is reported. -/
theorem not_clean_skipUnexpected (hm : m.severity = .error) :
    ¬ (skipUnexpected m true).Clean s a t := by
  intro h
  obtain ⟨token, u, -, h⟩ := h.bind
  dsimp only at h
  split at h
  · obtain ⟨word, u, -, h⟩ := h.bind
    split at h
    · obtain ⟨_, u, -, h⟩ := h.bind
      obtain ⟨stop, u, -, h⟩ := h.bind
      exact Clean.not_report rfl h
    · exact Clean.not_report hm h
  · exact Clean.not_report hm h

theorem errorCount_lt_reportLimit (h : s.limitReported = false) :
    s.errorCount < (reportLimit.run s).2.errorCount := by
  obtain ⟨hlimit, -⟩ | ⟨t, hlook, hrun⟩ := reportLimit_cases s
  · rw [h] at hlimit
    cases hlimit
  · have hone : (Diagnostic.of .nestingTooDeep [] (some (s.input.tokenAt 1).span)).isError =
        true := rfl
    rw [hrun, ← hlook.errorCount]
    simp [ParseState.errorCount, Diagnostic.errorCount, List.countP_cons_of_pos hone]

/-- Where a round of a body adds no error, it reads a statement. -/
theorem form_of_round {statement : Option FormParser} (hlimit : s.limitReported = false)
    (hseverity : region.unexpected.severity = .error) (hskipping : p.skipping = false)
    (hguard : (nestingGuard statement.isNone c region).run s = (.inr (choice, errors), t))
    (hstep : (bodyStep statement c region p (choice, errors)).run t.read = (q, u))
    (herrors : u.errorCount = s.errorCount) :
    Looks s t ∧ ∃ parse f word, statement = some parse ∧ choice = .form f word := by
  rw [run_nestingGuard] at hguard
  obtain ⟨rfl, t', hchoice, ⟨rfl, rfl⟩ | ⟨hdeep, rfl⟩⟩ := chooses_of_bodyGuard hguard
  · -- That the text nests too deep is an error.
    obtain ⟨rfl, rfl⟩ := Prod.mk.inj hstep
    have hlt := errorCount_lt_reportLimit (hchoice.looks.errorFree.limitReported_eq.trans hlimit)
    have hle := (Later.read (reportLimit.run t').2).errorCount_le
    rw [hchoice.looks.errorCount] at hlt
    omega
  · refine ⟨hchoice.looks, ?_⟩
    have hclean {q : Parser Unit} [q.Flows] (hrun : (q.run t.read).2 = u) :
        q.Clean t.read () u := by
      have hle := (Later.read t).errorCount_le
      have hle' := (Flows.flows (p := q) inferInstance t.read).later.errorCount_le
      rw [hchoice.looks.errorCount] at hle
      rw [hrun] at hle'
      exact ⟨Prod.ext rfl hrun, by omega⟩
    cases choice with
    | form f word =>
      obtain ⟨-, hsome⟩ := Bool.or_eq_false_iff.mp hchoice.atLimit_eq_false
      obtain ⟨parse, hparse⟩ :=
        Option.isSome_iff_exists.mp (Option.isNone_eq_false_iff.mp hsome)
      exact ⟨parse, f, word, hparse, rfl⟩
    | unavailable f =>
      have hreport :
        ((report .requiresVersion [f.name, f.version.render] t.read.input.last.span).run
          t.read).2 = u := (Prod.mk.inj hstep).2
      exact absurd (hclean hreport) (Clean.not_report rfl)
    | tooDeep => exact absurd rfl hdeep
    | unexpected =>
      have hskip : ((skipUnexpected region.unexpected (!p.skipping)).run t.read).2 = u :=
        (Prod.mk.inj hstep).2
      rw [hskipping] at hskip
      exact absurd (hclean hskip) (not_clean_skipUnexpected hseverity)

instance {p q : Parser α} [ReadsAsWell p q] : ReadsAsWell (nested p) (nested q) := by
  unfold nested
  infer_instance

/-- A statement is read as well together with the check of its jump. -/
theorem readsAsWell_bodyStep {parse parse' : FormParser} [Newer c d]
    [∀ f word o, ReadsAsWell (parse f word c o) (parse' f word d o)] (region : Region)
    (p : Progress) (f : Form) (word : Keyword) (errors : Nat) :
    ReadsAsWell (bodyStep (some parse) c region p (.form f word, errors))
      (bodyStep (some parse') d region p (.form f word, errors)) := by
  have hjump (n : Node) : ReadsAsWell (checkJump c n) (checkJump d n) :=
    readsAsWell_of_newer (p := (checkJump · n)) fun _ _ => rfl
  unfold bodyStep
  infer_instance

/-- Bodies are read as well if their statements are. -/
theorem readsAsWell_bodyWith {statement statement' : Option FormParser} [h : Newer c d]
    (hflows : ∀ parse ∈ statement, ∀ f word c o, (parse f word c o).Flows)
    (hstatement : Option.Rel (fun parse parse' => ∀ f word o,
      ReadsAsWell (parse f word c o) (parse' f word d o)) statement statement')
    (hps : Settled (c.extra ++ region.productions))
    (hseverity : region.unexpected.severity = .error) :
    ReadsAsWell (bodyWith statement c region) (bodyWith statement' d region) := by
  have hnone : statement.isNone = statement'.isNone := by cases hstatement <;> rfl
  have hstepFlows := flows_bodyStep hflows c region
  have := flows_bodyWith hflows c region
  refine { run_eq := fun hlimit hclean => ?_ }
  obtain ⟨⟨p, stop⟩, u, hrun, hpure⟩ := run_of_bind hclean.run_eq
  obtain ⟨rfl, rfl⟩ := Prod.mk.inj hpure
  unfold bodyWith
  rw [run_bind, run_rounds (I := fun p => p.skipping = false)
    (later_nestingGuard statement.isNone c region) hstepFlows kindAt_of_nestingGuard
    (fun hrun => hnone ▸ nestingGuard_newer hps hrun (by rintro _ _ ⟨⟩)) ?_
      .endOfFile {} rfl hlimit
    ⟨hrun, hclean.errors_eq⟩]
  · rfl
  · intro p s step t q u hskipping hlimit hguard hstep herrors
    obtain ⟨choice, errors⟩ := step
    obtain ⟨hlook, parse, f, word, rfl, rfl⟩ :=
      form_of_round hlimit hseverity hskipping hguard hstep herrors
    cases hstatement with
    | @some _ parse' hparse =>
      have hread : t.read.limitReported = false := hlook.errorFree.limitReported_eq.trans hlimit
      have herrorFree := ErrorFree.split (hlook.flows.trans (.read t))
        ((hstepFlows p (.form f word, errors)).of_run hstep) herrors
      have hreadsAsWell : ReadsAsWell (bodyStep (some parse) c region p (.form f word, errors))
          (bodyStep (some parse') d region p (.form f word, errors)) :=
        readsAsWell_bodyStep region p f word errors
      refine ⟨nestingGuard_newer hps hguard ?_,
        hreadsAsWell.run_eq hread ⟨hstep, herrorFree.2.errors_eq⟩, ?_,
        herrorFree.2.limitReported_eq.trans hread⟩
      · rintro _ _ ⟨⟩
        exact ⟨f, word, rfl⟩
      · exact (Prod.mk.inj hstep).1 ▸ rfl

/-- Lists of clauses are read as well if their clauses are. -/
theorem readsAsWell_clauses {clause clause' : List Node → Opening → Parser Node}
    {starts : Parser Bool} [starts.KeepsNames] (hstarts : starts.Peeks)
    [∀ ns o, ReadsAsWell (clause ns o) (clause' ns o)]
    [h : Newer c d] (k : Kind) :
    ReadsAsWell (clauses c k starts clause) (clauses d k starts clause') := by
  have hguard : clauseGuard d k starts = clauseGuard c k starts := by rw [h.eq]; rfl
  have hstep (p : Progress) (found : Bool × Nat) :
      ReadsAsWell (clauseStep clause p found) (clauseStep clause' p found) := by
    unfold clauseStep
    infer_instance
  refine { run_eq := fun {s _ _} hlimit hclean => ?_ }
  obtain ⟨⟨p, stop⟩, u, hrun, hpure⟩ := run_of_bind hclean.run_eq
  obtain ⟨rfl, rfl⟩ := Prod.mk.inj hpure
  have hloop : (loop .endOfFile (fun _ => clauseGuard c k starts) (clauseStep clause') {}).run s =
      ((p, stop), u) := by
    refine run_rounds (I := fun _ => True)
      (fun s => (Flows.flows (p := clauseGuard c k starts) inferInstance s).later)
        (fun p found => inferInstance)
      (kindAt_of_clauseGuard hstarts) (fun hrun => hrun) ?_ .endOfFile
        ({} : Progress) trivial hlimit
      ⟨hrun, hclean.errors_eq⟩
    intro p s found t q u _ hlimit hguard hrun herrors
    have herrorFree := ErrorFree.split ((Flows.of_run inferInstance hguard).trans (.read t))
      ((hstep p found).of_run hrun) herrors
    have hread := herrorFree.1.limitReported_eq.trans hlimit
    exact ⟨hguard, (hstep p found).run_eq hread ⟨hrun, herrorFree.2.errors_eq⟩, trivial,
      herrorFree.2.limitReported_eq.trans hread⟩
  unfold clauses
  rw [hguard, run_bind, hloop]
  rfl

/-! ## Blocks -/

/-- What is read of bodies is read as well where their productions are settled. -/
class ReadsBodiesAsWell (body body' : BodyParser) : Prop where
  readsAsWell : ∀ (c d : Context) (region : Region) [Newer c d] [region.Settled],
    ReadsAsWell (body c region) (body' d region)

section

variable {body body' : BodyParser} [Newer c d]
  [hbody : ReadsBodiesAsWell body body']

instance {region : Region} [region.Settled] : ReadsAsWell (body c region) (body' d region) :=
  hbody.readsAsWell c d region

instance : ReadsAsWell (statementsUpTo body c k) (statementsUpTo body' d k) := by
  unfold statementsUpTo
  infer_instance

instance : ReadsAsWell (simpleBlock body c o k kind) (simpleBlock body' d o k kind) := by
  unfold simpleBlock
  infer_instance

instance : ReadsAsWell (branch body c k kind o) (branch body' d k kind o) := by
  unfold branch
  infer_instance

instance : ReadsAsWell (secondBranch body c k word kind first)
    (secondBranch body' d k word kind first) := by
  unfold secondBranch
  infer_instance

instance : ReadsAsWell (branchedBlock body c o k word kind branchKind)
    (branchedBlock body' d o k word kind branchKind) := by
  unfold branchedBlock
  infer_instance

instance : ReadsAsWell (ifStatement levels body c o) (ifStatement levels body' d o) := by
  unfold ifStatement
  infer_instance

instance : ReadsAsWell (tryStatement body c o) (tryStatement body' d o) := by
  unfold tryStatement
  infer_instance

instance : ReadsAsWell (whileStatement levels body c o) (whileStatement levels body' d o) := by
  unfold whileStatement
  infer_instance

instance : ReadsAsWell (forStatement levels body c o) (forStatement levels body' d o) := by
  unfold forStatement
  dsimp only
  refine .past fun counter => ?_
  split <;> infer_instance

instance {p q : Parser α} [ReadsAsWell p q] :
    ReadsAsWell (insideCursorLoop cursor p) (insideCursorLoop cursor q) := by
  unfold insideCursorLoop
  infer_instance

instance {kind : List Cursor → NodeKind} :
    ReadsAsWell (cursorLoop body c o cursor kind) (cursorLoop body' d o cursor kind) := by
  unfold cursorLoop
  infer_instance

instance : ReadsAsWell (foreachStatement levels body c o) (foreachStatement levels body' d o) := by
  unfold foreachStatement
  dsimp only
  infer_instance

instance : ReadsAsWell (clauseBody body c o kind) (clauseBody body' d o kind) := by
  unfold clauseBody
  infer_instance

instance : ReadsAsWell (caseClause levels body c before o)
    (caseClause levels body' d before o) := by
  unfold caseClause
  dsimp only
  infer_instance

instance : ReadsAsWell (caseStatement levels body c o) (caseStatement levels body' d o) := by
  have hclauses : ReadsAsWell
      (clauses (c.withEnd (.keyword .CASE)) (.keyword .CASE) startsCaseClause
        (caseClause levels body ((c.insideLoop .CASE).withStops caseWords)))
      (clauses (d.withEnd (.keyword .CASE)) (.keyword .CASE) startsCaseClause
        (caseClause levels body' ((d.insideLoop .CASE).withStops caseWords))) :=
    readsAsWell_clauses peeks_startsCaseClause _
  unfold caseStatement
  infer_instance

instance : ReadsAsWell (menuClause levels body c o) (menuClause levels body' d o) := by
  unfold menuClause
  infer_instance

instance : ReadsAsWell (menuBlock levels body c o title) (menuBlock levels body' d o title) := by
  have hclauses : ReadsAsWell
      (clauses (c.withEnd (.keyword .MENU)) (.keyword .MENU) startsMenuClause
        fun _ o => menuClause levels body c.insideMenu o)
      (clauses (d.withEnd (.keyword .MENU)) (.keyword .MENU) startsMenuClause
        fun _ o => menuClause levels body' d.insideMenu o) :=
    readsAsWell_clauses peeks_startsMenuClause _
  unfold menuBlock
  dsimp only
  infer_instance

instance : ReadsAsWell (menuStatement levels body c o) (menuStatement levels body' d o) := by
  unfold menuStatement
  infer_instance

/-! ## Members -/

instance {p q : Parser α} [ReadsAsWell p q] : ReadsAsWell (insideBlock p) (insideBlock q) := by
  unfold insideBlock
  infer_instance

instance : ReadsAsWell (globalsBlock body c o) (globalsBlock body' d o) := by
  unfold globalsBlock
  infer_instance

instance : ReadsAsWell (globalsMember body c o) (globalsMember body' d o) := by
  unfold globalsMember
  infer_instance

instance {owner : Option Owner} {kind : Holding → NodeKind} :
    ReadsAsWell (routineBlock body c o header k owner kind)
      (routineBlock body' d o header k owner kind) := by
  unfold routineBlock
  infer_instance

instance : ReadsAsWell (mainMember body word c o) (mainMember body' word d o) := by
  unfold mainMember
  dsimp only
  refine .past fun access => ?_
  split
  · infer_instance
  · exact .past fun _ => inferInstance

instance : ReadsAsWell (functionMember body word c o) (functionMember body' word d o) := by
  unfold functionMember
  dsimp only
  refine .past fun access => .past fun named => .past fun stop => ?_
  infer_instance

/-! ## All forms -/

instance : ReadsAsWell (declareName c x) (declareName d x) :=
  readsAsWell_of_newer (p := (declareName · x)) fun _ _ => rfl

instance {name : Option (String × Span)} {kind : CursorKind} :
    ReadsAsWell (bindCursor c name kind) (bindCursor d name kind) :=
  readsAsWell_of_newer (p := (bindCursor · name kind)) fun _ _ => rfl

instance {ds : List Declaration} : ReadsAsWell (declareAll c ds) (declareAll d ds) := by
  refine readsAsWell_of_newer (p := (declareAll · ds)) fun c v => ?_
  induction ds with
  | nil => rfl
  | cons x xs ih => exact congrArg (declareName c x >>= fun _ => ·) ih

instance : ReadsAsWell (constantsStatement levels word c o) (constantsStatement levels word d o) :=
  readsAsWell_of_newer (p := (constantsStatement levels word · o)) fun c v => by
    have hconstant : constant levels { c with version := v } = constant levels c := rfl
    unfold constantsStatement
    rw [hconstant]

instance : ReadsAsWell (typesStatement word c o) (typesStatement word d o) :=
  readsAsWell_of_newer (p := (typesStatement word · o)) fun c v => by
    have htype : typeName { c with version := v } = typeName c := rfl
    unfold typesStatement
    rw [htype]

instance : ReadsAsWell (variablesStatement word c o) (variablesStatement word d o) := by
  unfold variablesStatement
  infer_instance

instance : ReadsAsWell (returnStatement levels c o) (returnStatement levels d o) :=
  readsAsWell_of_newer (p := (returnStatement levels · o)) fun _ _ => rfl

set_option synthInstance.maxSize 512 in
instance : ReadsAsWell (prepareStatement levels c o) (prepareStatement levels d o) := by
  unfold prepareStatement
  infer_instance

set_option synthInstance.maxSize 512 in
instance : ReadsAsWell (declareStatement levels c o) (declareStatement levels d o) := by
  unfold declareStatement
  infer_instance

instance : ReadsAsWell (formWith levels body f word c o) (formWith levels body' f word d o) := by
  cases f <;> (dsimp only [formWith]; infer_instance)

end

/-- What is read of bodies is read as well, however deep they nest. -/
theorem readsAsWell_bodyAt (levels : Nat) [Newer c d]
    (hps : Settled (c.extra ++ region.productions))
    (hseverity : region.unexpected.severity = .error) :
    ReadsAsWell (bodyAt levels c region) (bodyAt levels d region) := by
  induction levels generalizing c d region with
  | zero => exact readsAsWell_bodyWith (fun _ h => by cases h) .none hps hseverity
  | succ levels ih =>
    have : ReadsBodiesAsWell (bodyAt levels) (bodyAt levels) := by
      refine ⟨fun c d region hnewer hregion => ih (.inl fun p hp => ?_) hregion.severity_eq⟩
      obtain hp | hp := List.mem_append.mp hp
      · exact hnewer.extra p hp
      · exact hregion.ownsWord p hp
    refine readsAsWell_bodyWith ?_ (.some fun f word o => inferInstance) hps hseverity
    rintro _ ⟨⟩ f word c o
    infer_instance

theorem newer_root (hle : v ≤ w) : Newer (.root v) (.root w) :=
  ⟨rfl, hle, by simp [Context.root]⟩

theorem readsAsWell_moduleNode (hle : v ≤ w) : ReadsAsWell (moduleNode v) (moduleNode w) := by
  have := newer_root hle
  have hbody : ReadsAsWell (bodyAt maxNesting (.root v) .members)
      (bodyAt maxNesting (.root w) .members) :=
    readsAsWell_bodyAt maxNesting (.inr rfl) rfl
  exact inferInstanceAs (ReadsAsWell (bodyAt maxNesting (.root v) .members >>= _)
    (bodyAt maxNesting (.root w) .members >>= _))

end Parser

/-! ## Modules -/

/-- The errors counted so far are among those of the lexemes that have been seen. -/
theorem ParseState.Counted.errors_le (h : Counted s) :
    s.input.errors ≤ Diagnostic.errorCount s.input.issues := by
  obtain ⟨more, hmore⟩ := List.take_prefix_take_left (l := s.input.stream) h.index_le
  rw [h.errors_eq, Lookahead.issues, Lookahead.seenLexemes, ← hmore, List.flatMap_append]
  exact (List.sublist_append_left _ _).countP_le

/-- A module that one version accepts is read by all newer versions with the same result. -/
theorem parseModule_newer (text : String) (options : ParseOptions) {w : Version}
    (hle : options.version ≤ w)
    (hclean : ∀ d ∈ (parseModule text options).diagnostics, d.isError = false) :
    parseModule text { options with version := w } = parseModule text options := by
  obtain ⟨s, stop, hmodule, hrun, -, -, -, hdiagnostics⟩ := account_parseModule text options
  obtain ⟨ts, htokensRead : TokensRead (.ofText options.mode text) ts s⟩ := hmodule.later
  have herrors : s.read.errorCount = 0 := by
    have hissues := ((Counted.ofText _ _).tokensRead htokensRead.read).errors_le
    have hnone : Diagnostic.errorCount (parseModule text options).diagnostics = 0 := by
      simpa [Diagnostic.errorCount, List.countP_eq_zero] using hclean
    rw [hdiagnostics, Diagnostic.errorCount, options.countP_placed _ fun _ _ => rfl] at hnone
    have hsum := s.read.errorCount_diagnostics.symm.trans hnone
    exact Nat.le_zero.mp (by unfold ParseState.errorCount; omega)
  have hsame : (moduleNode w).run (.ofText options.mode text) =
      (moduleNode options.version).run (.ofText options.mode text) :=
    (readsAsWell_moduleNode hle).run_same rfl (hrun ▸ herrors)
  have hmode : ({ options with version := w } : ParseOptions).mode = options.mode := rfl
  unfold parseModule
  rw [hmode, hsame]
  rfl

/-- An access modifier does not commit to a type, which the oldest version lacks. -/
theorem parseModule_newer_modifier :
    parseModule "private function f()\nend function" { version := .latest } =
      parseModule "private function f()\nend function" { version := .baseline } :=
  parseModule_newer _ { version := .baseline } (by decide) (by decide +kernel)

end FourGL
