import FourGL.Grammar.Body
import FourGL.Proofs.Grammar.Steps

/-!
# Rounds of bodies

A body, and a list of clauses as well, is read in rounds: each looks ahead, passes the places where
the body would stop, reads one token and goes on as that token asks. `Round` and `ClauseRound` list
all that a round can do, `Skip` what it can do without adding a node; `bodyWith_run` and
`clauses_run` say that a body or a list of clauses is a number of such rounds up to a place where it
stops. Facts about bodies are proved for one round each and follow for all rounds.
-/

namespace FourGL

namespace ParseState

/-- The state in which one more token is read. -/
def read (s : ParseState) : ParseState := { s with input := s.input.advance }

/-- The kind of the token at `depth`, where the next one has depth 1. -/
def kindAt (s : ParseState) (depth : Nat) : Kind := (s.input.tokenAt depth).kind

/-- The states differ at most in how far ahead was looked, and it was not less far, and in the
levels of nesting that are counted. -/
def Looks (s t : ParseState) : Prop :=
  ∃ x : Nat × Nesting, s.input.seen ≤ x.1 ∧
    t = { s with input := { s.input with seen := x.1 }, nesting := x.2 }

namespace Looks

theorem refl (s : ParseState) : Looks s s := ⟨(s.input.seen, s.nesting), Nat.le_refl _, rfl⟩

theorem trans (h₁ : Looks s t) (h₂ : Looks t u) : Looks s u := by
  obtain ⟨m, hle₁, rfl⟩ := h₁
  obtain ⟨n, hle₂, rfl⟩ := h₂
  exact ⟨n, Nat.le_trans hle₁ hle₂, rfl⟩

theorem tokenAt (h : Looks s t) (depth : Nat) : t.input.tokenAt depth = s.input.tokenAt depth := by
  obtain ⟨n, -, rfl⟩ := h
  rfl

theorem kindAt (h : Looks s t) (depth : Nat) : t.kindAt depth = s.kindAt depth :=
  congrArg Token.kind (h.tokenAt depth)

theorem errorCount (h : Looks s t) : t.errorCount = s.errorCount := by
  obtain ⟨n, -, rfl⟩ := h
  rfl

theorem rest (h : Looks s t) : t.input.rest = s.input.rest := by
  obtain ⟨n, -, rfl⟩ := h
  rfl

theorem last (h : Looks s t) : t.input.last = s.input.last := by
  obtain ⟨n, -, rfl⟩ := h
  rfl

theorem reports (h : Looks s t) : t.reports = s.reports := by
  obtain ⟨n, -, rfl⟩ := h
  rfl

end Looks

/-- Looking ahead is no more than that. -/
theorem looks_inspect (s : ParseState) (depth : Nat) :
    Looks s { s with input := s.input.inspect depth } := ⟨(_, _), Nat.le_max_left _ _, rfl⟩

theorem looks_nesting (s : ParseState) (nesting : Nesting) : Looks s { s with nesting } :=
  ⟨(_, _), Nat.le_refl _, rfl⟩

theorem rest_ne_nil {s : ParseState} (h : s.kindAt 1 ≠ .endOfFile) : s.input.rest ≠ [] := by
  intro hrest
  simp [kindAt, Lookahead.tokenAt, hrest, Token.endOfFile] at h

/-- The token that is read is the next one. -/
theorem last_read (s : ParseState) : s.read.input.last = s.input.tokenAt 1 := by
  unfold read Lookahead.advance Lookahead.tokenAt
  cases s.input.rest <;> rfl

/-- Reading one token moves the others one nearer. -/
theorem tokenAt_read (s : ParseState) (depth : Nat) :
    s.read.input.tokenAt (depth + 1) = s.input.tokenAt (depth + 2) := by
  unfold ParseState.read Lookahead.tokenAt Lookahead.advance
  cases hrest : s.input.rest with
  | nil => simp
  | cons l ls => rfl

theorem kindAt_read (s : ParseState) (depth : Nat) :
    s.read.kindAt (depth + 1) = s.kindAt (depth + 2) :=
  congrArg Token.kind (tokenAt_read s depth)

end ParseState

namespace Parser

open ParseState (Step Steps Looks looks_nesting)

/-! ## Looking ahead -/

/-- Every run only looks ahead. -/
def Peeks (p : Parser α) : Prop := ∀ s, Looks s (p.run s).2

namespace Peeks

theorem of_run {p : Parser α} (hp : p.Peeks) (hrun : p.run s = (a, t)) : Looks s t := by
  have hlook := hp s
  rwa [hrun] at hlook

theorem pure (a : α) : (pure a : Parser α).Peeks := fun s => .refl s

theorem bind {p : Parser α} {f : α → Parser β} (hp : p.Peeks) (hf : ∀ a, (f a).Peeks) :
    (p >>= f).Peeks := fun s => (hp s).trans (hf _ _)

theorem ite {c : Prop} [Decidable c] {p q : Parser α} (hp : p.Peeks) (hq : q.Peeks) :
    (if c then p else q).Peeks := by
  split
  · exact hp
  · exact hq

end Peeks

theorem peeks_peekAt (depth : Nat) : (peekAt depth).Peeks :=
  fun s => ParseState.looks_inspect s depth

theorem peeks_peekKind : peekKind.Peeks := .bind (peeks_peekAt 1) fun _ => .pure _

theorem peeks_secondIs (k : Kind) : (secondIs k).Peeks := .bind (peeks_peekAt 2) fun _ => .pure _

theorem peeks_applies (f : Form) (first : Keyword) : (applies f first).Peeks := by
  unfold applies
  split
  · exact peeks_secondIs _
  · split
    · exact .ite (.pure _) (peeks_secondIs _)
    · exact .pure _

theorem peeks_choose (version : Version) (atLimit : Bool) (first : Keyword) (ps : List Production) :
    (choose version atLimit first ps).Peeks := by
  induction ps with
  | nil => exact .pure _
  | cons p ps ih =>
    exact .ite ih (.ite (.ite (.pure _) ih)
      (.ite (.pure _) (.bind (peeks_applies _ _) fun _ => .ite (.pure _) ih)))

theorem peeks_chooseNext (version : Version) (atLimit : Bool) (ps : List Production) :
    (chooseNext version atLimit ps).Peeks := by
  unfold chooseNext
  refine .bind peeks_peekKind fun kind => ?_
  split
  · exact peeks_choose _ _ _ _
  · exact .pure _

/-- At the limit of nesting no statement is chosen. -/
theorem choose_ne_form (version : Version) (first : Keyword) (ps : List Production) (f : Form)
    (word : Keyword) (s : ParseState) :
    ((choose version true first ps).run s).1 ≠ .form f word := by
  induction ps with
  | nil => exact Choice.noConfusion
  | cons p ps ih =>
    unfold choose
    split
    · exact ih
    · split
      · split
        · exact Choice.noConfusion
        · exact ih
      · exact Choice.noConfusion

theorem chooseNext_ne_form (version : Version) (ps : List Production) (f : Form) (word : Keyword)
    (s : ParseState) : ((chooseNext version true ps).run s).1 ≠ .form f word := by
  unfold chooseNext
  rw [run_bind]
  split
  · exact choose_ne_form _ _ _ _ _ _
  · exact Choice.noConfusion

/-- Below the limit of nesting nothing is too deep. -/
theorem choose_ne_tooDeep (version : Version) (first : Keyword) (ps : List Production)
    (s : ParseState) : ((choose version false first ps).run s).1 ≠ .tooDeep := by
  induction ps generalizing s with
  | nil => exact Choice.noConfusion
  | cons p ps ih =>
    unfold choose
    split
    · exact ih s
    · split
      · split
        · exact Choice.noConfusion
        · exact ih s
      · rw [if_neg Bool.false_ne_true, run_bind]
        split
        · exact Choice.noConfusion
        · exact ih _

theorem chooseNext_ne_tooDeep (version : Version) (ps : List Production) (s : ParseState) :
    ((chooseNext version false ps).run s).1 ≠ .tooDeep := by
  unfold chooseNext
  rw [run_bind]
  split
  · exact choose_ne_tooDeep _ _ _ _
  · exact Choice.noConfusion

/-! ## Stopping -/

/-- Why a body stops in a state. -/
inductive Stops (ctx : Context) (terminator : Option Kind) (s : ParseState) : Stop → Prop where
  | endOfFile : s.kindAt 1 = .endOfFile → Stops ctx terminator s .endOfFile
  | terminator : s.kindAt 1 = .keyword .END → terminator = some (s.kindAt 2) →
      Stops ctx terminator s .terminator
  | ancestorEnd : s.kindAt 1 = .keyword .END → terminator ≠ some (s.kindAt 2) →
      s.kindAt 2 ∈ ctx.ends → Stops ctx terminator s .ancestorEnd
  | stopToken : s.kindAt 1 ∈ ctx.stops → Stops ctx terminator s (.stopToken (s.kindAt 1))

/-- Why a body stops depends only on the next two tokens. -/
theorem Stops.congr {word : Option Kind} (h : Stops ctx word s stop)
    (h₁ : t.kindAt 1 = s.kindAt 1) (h₂ : t.kindAt 2 = s.kindAt 2) : Stops ctx word t stop := by
  cases h with
  | endOfFile hend => exact .endOfFile (h₁.trans hend)
  | terminator hend hterm => exact .terminator (h₁.trans hend) (h₂ ▸ hterm)
  | ancestorEnd hend hterm hmem =>
    exact .ancestorEnd (h₁.trans hend) (h₂ ▸ hterm) (h₂ ▸ hmem)
  | stopToken hmem => exact h₁ ▸ .stopToken (h₁ ▸ hmem)

theorem Stops.looks {word : Option Kind} (h : Stops ctx word s stop) (hlook : Looks s t) :
    Stops ctx word t stop := h.congr (hlook.kindAt 1) (hlook.kindAt 2)

theorem Stops.kindAt_eq {word : Option Kind} {kind : Kind}
    (h : Stops ctx word s (.stopToken kind)) : s.kindAt 1 = kind := by
  generalize hstop : Stop.stopToken kind = stop at h
  cases h with
  | endOfFile | terminator | ancestorEnd => cases hstop
  | stopToken => exact (Stop.stopToken.inj hstop).symm

/-- A body that stops at a keyword has a token before it. -/
theorem Stops.ne_endOfFile {word : Option Kind} {k : Keyword}
    (h : Stops ctx word s (.stopToken (.keyword k))) : s.kindAt 1 ≠ .endOfFile := by
  rw [h.kindAt_eq]
  exact Kind.noConfusion

/-- Neither the text nor a block ends in a state. -/
structure Passes (ctx : Context) (terminator : Option Kind) (s : ParseState) : Prop where
  ne_endOfFile : s.kindAt 1 ≠ .endOfFile
  ne_terminator : s.kindAt 1 = .keyword .END → terminator ≠ some (s.kindAt 2)
  notMem_ends : s.kindAt 1 = .keyword .END → s.kindAt 2 ∉ ctx.ends

theorem stopAtEnd?_cases (ctx : Context) (terminator : Option Kind) (s : ParseState) :
    ∃ t, Looks s t ∧
      ((∃ stop, (stopAtEnd? ctx terminator).run s = (some stop, t) ∧
        Stops ctx terminator s stop) ∨
        ((stopAtEnd? ctx terminator).run s = (none, t) ∧ Passes ctx terminator s)) := by
  have hpeek : Looks s (peekKind.run s).2 := peeks_peekKind s
  have hkind : (peekKind.run s).1 = s.kindAt 1 := rfl
  have hsecond : ((peekAt 2).run (peekKind.run s).2).1.kind = s.kindAt 2 := hpeek.kindAt 2
  unfold stopAtEnd?
  simp only [run_bind]
  split
  next h => exact ⟨_, hpeek, .inl ⟨_, rfl, .endOfFile (hkind.symm.trans h)⟩⟩
  next h =>
    have hend : s.kindAt 1 = .keyword .END := hkind.symm.trans h
    have hlook := hpeek.trans (peeks_peekAt 2 _)
    simp only [run_bind, hsecond]
    split
    next hterm => exact ⟨_, hlook, .inl ⟨_, rfl, .terminator hend hterm⟩⟩
    next hterm =>
      split
      next hmem => exact ⟨_, hlook, .inl ⟨_, rfl, .ancestorEnd hend hterm hmem⟩⟩
      next hmem =>
        exact ⟨_, hlook, .inr ⟨rfl, by rw [hend]; simp, fun _ => hterm, fun _ => hmem⟩⟩
  next hne hend =>
    rw [hkind] at hne hend
    exact ⟨_, hpeek, .inr ⟨rfl, hne, fun h => absurd h hend, fun h => absurd h hend⟩⟩

theorem stopAtToken?_cases (ctx : Context) (s : ParseState) :
    ∃ t, Looks s t ∧
      ((s.kindAt 1 ∈ ctx.stops ∧
        (stopAtToken? ctx).run s = (some (.stopToken (s.kindAt 1)), t)) ∨
        (s.kindAt 1 ∉ ctx.stops ∧ (stopAtToken? ctx).run s = (none, t))) := by
  have hpeek : Looks s (peekKind.run s).2 := peeks_peekKind s
  refine ⟨_, hpeek, ?_⟩
  unfold stopAtToken?
  rw [run_bind, show (peekKind.run s).1 = s.kindAt 1 from rfl]
  split
  next h => exact .inl ⟨h, rfl⟩
  next h => exact .inr ⟨h, rfl⟩

/-! ## Loops -/

/-- A loop is a number of rounds, described by `R`, up to a state in which its guard stops it. The
guard has to go on only where a token is left to read. -/
theorem loop_run {guard : σ → Parser (β ⊕ γ)} {body : σ → γ → Parser σ}
    {R : σ × ParseState → σ × ParseState → Prop}
    (hrest : ∀ a s g t, (guard a).run s = (.inr g, t) → t.input.rest ≠ [])
    (hround : ∀ a s g t, (guard a).run s = (.inr g, t) → R (a, s) ((body a g).run t.read))
    (atEnd : β) (a : σ) (s : ParseState) :
    ∃ a' s' b t, Relation.ReflTransGen R (a, s) (a', s') ∧
      (loop atEnd guard body a).run s = ((a', b), t) ∧ (guard a').run s' = (.inl b, t) := by
  change ∃ a' s' b t, Relation.ReflTransGen R (a, s) (a', s') ∧
    loopFrom atEnd guard body a s = ((a', b), t) ∧ _
  fun_induction loopFrom atEnd guard body a s with
  | case1 a s b t h => exact ⟨a, s, b, t, .refl, rfl, h⟩
  | case2 a s g t h hnil => exact absurd hnil (hrest a s g t h)
  | case3 a s g t h _ _ _ r ih =>
    obtain ⟨a', s', b, u, hrounds, hresult⟩ := ih
    exact ⟨a', s', b, u, .head (hround a s g t h) hrounds, hresult⟩

/-! ## Bodies -/

/-- What is to be done with the next token, as it was found before reading it. -/
structure Chooses (atLimit : Bool) (ctx : Context) (region : Region) (s : ParseState)
    (choice : Choice) (t : ParseState) : Prop where
  passes : Passes ctx region.terminator s
  notMem_stops : s.kindAt 1 ∉ ctx.stops
  looks : Looks s t
  chosen : ∃ s₁ t₁, Looks s s₁ ∧
    (chooseNext ctx.version atLimit (ctx.extra ++ region.productions)).run s₁ = (choice, t₁) ∧
    Looks t₁ t

theorem Chooses.onward (h : Chooses atLimit ctx region s choice t) (hlook : Looks t u) :
    Chooses atLimit ctx region s choice u := by
  obtain ⟨s₁, t₁, hlook₁, hrun, hlook₂⟩ := h.chosen
  exact ⟨h.passes, h.notMem_stops, h.looks.trans hlook, s₁, t₁, hlook₁, hrun,
    hlook₂.trans hlook⟩

/-- No statement is chosen where the limit of nesting is reached. -/
theorem Chooses.atLimit_eq_false (h : Chooses atLimit ctx region s (.form f word) t) :
    atLimit = false := by
  obtain ⟨s₁, t₁, -, hchosen, -⟩ := h.chosen
  cases atLimit with
  | false => rfl
  | true => exact absurd (congrArg Prod.fst hchosen) (chooseNext_ne_form _ _ _ _ _)

/-- One round of a body that adds no node. -/
inductive Skip (atLimit : Bool) (ctx : Context) (region : Region) :
    Progress × ParseState → Progress × ParseState → Prop where
  | unavailable {f : Form} {s t : ParseState}
      (hchoice : Chooses atLimit ctx region s (.unavailable f) t)
      (hreport : (report .requiresVersion
        [f.name, f.version.render] t.read.input.last.span).run t.read =
        ((), u)) :
      Skip atLimit ctx region (p, s) (p, u)
  | tooDeep {s t : ParseState} (hchoice : Chooses atLimit ctx region s .tooDeep t)
      (hlimit : reportLimit.run t = ((), u)) : Skip atLimit ctx region (p, s) (p, u.read)
  | unexpected {s t : ParseState} (hchoice : Chooses atLimit ctx region s .unexpected t)
      (hskip : (skipUnexpected region.unexpected (!p.skipping)).run t.read = ((), u)) :
      Skip atLimit ctx region (p, s) ({ p with skipping := true }, u)

/-- One round of a body. -/
inductive Round (statement : Option FormParser) (ctx : Context) (region : Region) :
    Progress × ParseState → Progress × ParseState → Prop where
  | statement {parse : FormParser} {f : Form} {word : Keyword} {s t : ParseState}
      (hparse : statement = some parse) (hchoice : Chooses false ctx region s (.form f word) t)
      (hrun : (parse f word ctx ⟨t.read.input.last, s.errorCount⟩).run t.read = (n, u))
      (hjump : (checkJump ctx n).run u = ((), v)) (hleave : Looks v w) :
      Round statement ctx region (p, s) (⟨n.insert p.nodes, false⟩, w)
  | skip (h : Skip (a.2.nesting.isFull || statement.isNone) ctx region a b) :
      Round statement ctx region a b

theorem rest_reportLimit (s : ParseState) : (reportLimit.run s).2.input.rest = s.input.rest := by
  unfold reportLimit
  rw [run_bind]
  split <;> rfl

theorem run_nestingGuard (bottom : Bool) (ctx : Context) (region : Region) (s : ParseState) :
    (nestingGuard bottom ctx region).run s =
      (bodyGuard (s.nesting.isFull || bottom) ctx region).run s := rfl

theorem bodyGuard_cases (atLimit : Bool) (ctx : Context) (region : Region) (s : ParseState) :
    (∃ stop t, (bodyGuard atLimit ctx region).run s = (.inl stop, t) ∧ Looks s t ∧
      Stops ctx region.terminator s stop) ∨
    (∃ choice t, Chooses atLimit ctx region s choice t ∧
      ((choice = .tooDeep ∧
          (bodyGuard atLimit ctx region).run s =
            (.inr (choice, s.errorCount), (reportLimit.run t).2)) ∨
        (choice ≠ .tooDeep ∧
          (bodyGuard atLimit ctx region).run s = (.inr (choice, s.errorCount), t)))) := by
  obtain ⟨s₁, hlook₁, hend⟩ := stopAtEnd?_cases ctx region.terminator s
  unfold bodyGuard
  simp only [run_bind]
  obtain ⟨stop, hrun, hstop⟩ | ⟨hrun, hpass⟩ := hend
  · rw [hrun]
    exact .inl ⟨stop, s₁, rfl, hlook₁, hstop⟩
  rw [hrun]
  obtain ⟨s₂, hlook₂, htoken⟩ := stopAtToken?_cases ctx s₁
  rw [hlook₁.kindAt] at htoken
  have hlook := hlook₁.trans hlook₂
  simp only [run_bind]
  obtain ⟨hmem, hrun⟩ | ⟨hmem, hrun⟩ := htoken
  · rw [hrun]
    exact .inl ⟨_, s₂, rfl, hlook, .stopToken hmem⟩
  rw [hrun]
  simp only [run_bind]
  have herrors : errorCount.run s₂ = (s.errorCount, s₂) :=
    Prod.ext hlook.errorCount rfl
  rw [herrors]
  generalize hchosen :
    (chooseNext ctx.version atLimit (ctx.extra ++ region.productions)).run s₂ = r
  obtain ⟨choice, t⟩ := r
  have hlookt : Looks s₂ t := (peeks_chooseNext _ _ _).of_run hchosen
  refine .inr ⟨choice, t, ⟨hpass, hmem, hlook.trans hlookt, s₂, t, hlook, hchosen,
    .refl t⟩, ?_⟩
  cases choice with
  | tooDeep => exact .inl ⟨rfl, rfl⟩
  | form | unavailable | unexpected => exact .inr ⟨Choice.noConfusion, rfl⟩

/-- Where the guard of a body stops it, it has only looked ahead. -/
theorem stops_of_bodyGuard {atLimit : Bool}
    (h : (bodyGuard atLimit ctx region).run s = (.inl stop, t)) :
    Looks s t ∧ Stops ctx region.terminator s stop := by
  obtain ⟨stop', t', hguard, hlook, hstop⟩ |
      ⟨choice, t', -, ⟨-, hguard⟩ | ⟨-, hguard⟩⟩ :=
    bodyGuard_cases atLimit ctx region s
  · rw [hguard] at h
    cases h
    exact ⟨hlook, hstop⟩
  iterate 2 · cases hguard.symm.trans h

/-- Where the guard of a body goes on, it has chosen what is to be done. -/
theorem chooses_of_bodyGuard {atLimit : Bool}
    (h : (bodyGuard atLimit ctx region).run s = (.inr (choice, errors), t)) :
    errors = s.errorCount ∧ ∃ u, Chooses atLimit ctx region s choice u ∧
      (choice = .tooDeep ∧ t = (reportLimit.run u).2 ∨ choice ≠ .tooDeep ∧ t = u) := by
  obtain ⟨_, _, hguard, -⟩ | ⟨choice', u, hchoice,
      ⟨hdeep, hguard⟩ | ⟨hdeep, hguard⟩⟩ :=
    bodyGuard_cases atLimit ctx region s
  · cases hguard.symm.trans h
  · rw [hguard] at h
    cases h
    exact ⟨rfl, _, hchoice, .inl ⟨hdeep, rfl⟩⟩
  · rw [hguard] at h
    cases h
    exact ⟨rfl, _, hchoice, .inr ⟨hdeep, rfl⟩⟩

theorem ne_nil_of_chooses {atLimit : Bool} {ctx : Context} {region : Region} {s t : ParseState}
    {choice : Choice} (h : Chooses atLimit ctx region s choice t) : t.input.rest ≠ [] := by
  rw [h.looks.rest]
  exact ParseState.rest_ne_nil h.passes.ne_endOfFile

theorem round_bodyStep {statement : Option FormParser} {ctx : Context}
    {region : Region} (p : Progress) {s t u : ParseState} {choice : Choice}
    (h : Chooses (s.nesting.isFull || statement.isNone) ctx region s choice t)
    (hu : choice = .tooDeep ∧ u = (reportLimit.run t).2 ∨ choice ≠ .tooDeep ∧ u = t) :
    Round statement ctx region (p, s)
      ((bodyStep statement ctx region p (choice, s.errorCount)).run u.read) := by
  cases choice with
  | tooDeep =>
    obtain ⟨-, rfl⟩ | ⟨hne, -⟩ := hu
    · exact .skip (.tooDeep h rfl)
    · exact absurd rfl hne
  | unavailable f =>
    obtain ⟨hne, -⟩ | ⟨-, rfl⟩ := hu
    · exact Choice.noConfusion hne
    · exact .skip (.unavailable h rfl)
  | unexpected =>
    obtain ⟨hne, -⟩ | ⟨-, rfl⟩ := hu
    · exact Choice.noConfusion hne
    · exact .skip (.unexpected h rfl)
  | form f word =>
    obtain ⟨hne, -⟩ | ⟨-, rfl⟩ := hu
    · exact Choice.noConfusion hne
    · have hlimit := h.atLimit_eq_false
      rw [hlimit] at h
      obtain ⟨-, hsome⟩ := Bool.or_eq_false_iff.mp hlimit
      obtain ⟨parse, rfl⟩ := Option.isSome_iff_exists.mp (Option.isNone_eq_false_iff.mp hsome)
      exact .statement rfl (h.onward (looks_nesting u u.nesting.enter)) rfl rfl (looks_nesting _ _)

/-- Where the guard of a body goes on, a token is left to read, and a round follows. -/
theorem round_of_nestingGuard {statement : Option FormParser} {ctx : Context} {region : Region}
    {s t : ParseState} {g : Choice × Nat}
    (h : (nestingGuard statement.isNone ctx region).run s = (.inr g, t)) :
    t.input.rest ≠ [] ∧ ∀ p : Progress,
      Round statement ctx region (p, s) ((bodyStep statement ctx region p g).run t.read) := by
  obtain ⟨choice, errors⟩ := g
  rw [run_nestingGuard] at h
  obtain ⟨rfl, u, hchoice, ht⟩ := chooses_of_bodyGuard h
  have hrest : t.input.rest = u.input.rest := by
    obtain ⟨-, rfl⟩ | ⟨-, rfl⟩ := ht
    · exact rest_reportLimit u
    · rfl
  exact ⟨hrest ▸ ne_nil_of_chooses hchoice, fun p => round_bodyStep p hchoice ht⟩

/-- A body is a number of rounds, each as `R` says, up to a state in which it stops. -/
theorem bodyWith_run {statement : Option FormParser}
    {R : Progress × ParseState → Progress × ParseState → Prop}
    (hround : ∀ p {s g t}, (nestingGuard statement.isNone ctx region).run s = (.inr g, t) →
      R (p, s) ((bodyStep statement ctx region p g).run t.read)) (s : ParseState) :
    ∃ p t stop u, Relation.ReflTransGen R ({}, s) (p, t) ∧
      Stops ctx region.terminator t stop ∧
      Looks t u ∧ (bodyWith statement ctx region).run s = ((p.nodes, stop), u) := by
  obtain ⟨p, t, stop, u, hrounds, hloop, hend⟩ :=
    loop_run (fun _ _ _ _ h => (round_of_nestingGuard h).1) (fun p _ _ _ h => hround p h)
      .endOfFile {} s
  have hrun : (bodyWith statement ctx region).run s = ((p.nodes, stop), u) := by
    unfold bodyWith
    rw [run_bind, hloop]
    rfl
  rw [run_nestingGuard] at hend
  obtain ⟨hlook, hstop⟩ := stops_of_bodyGuard hend
  exact ⟨p, t, stop, u, hrounds, hstop, hlook, hrun⟩

/-- What holds before the first round of a body and is kept by each holds in the state in which the
body stops. -/
theorem bodyWith_keeps_of {statement : Option FormParser} {I : Progress → ParseState → Prop}
    {R : Progress × ParseState → Progress × ParseState → Prop}
    (hround : ∀ p {s g t}, (nestingGuard statement.isNone ctx region).run s = (.inr g, t) →
      R (p, s) ((bodyStep statement ctx region p g).run t.read))
    (hstart : I {} s) (hkeeps : ∀ a b, R a b → I a.1 a.2 → I b.1 b.2)
    (hrun : (bodyWith statement ctx region).run s = ((ns, stop), u)) :
    ∃ p t, I p t ∧ p.nodes = ns ∧ Stops ctx region.terminator t stop ∧ Looks t u := by
  obtain ⟨p, t, stop', u', hrounds, hstop, hlook, hrun'⟩ := bodyWith_run hround s
  rw [hrun] at hrun'
  obtain ⟨hresult, rfl⟩ := Prod.mk.inj hrun'
  obtain ⟨rfl, rfl⟩ := Prod.mk.inj hresult
  have hkept : ∀ a, Relation.ReflTransGen R ({}, s) a → I a.1 a.2 := by
    intro a ha
    induction ha with
    | refl => exact hstart
    | tail _ hlast ih => exact hkeeps _ _ hlast ih
  exact ⟨p, t, hkept _ hrounds, rfl, hstop, hlook⟩

/-- As `bodyWith_keeps_of`, where no more is asked of a round than that it is one. -/
theorem bodyWith_keeps {statement : Option FormParser} {I : Progress → ParseState → Prop}
    (hstart : I {} s)
    (hround : ∀ a b, Round statement ctx region a b → I a.1 a.2 → I b.1 b.2)
    (hrun : (bodyWith statement ctx region).run s = ((ns, stop), u)) :
    ∃ p t, I p t ∧ p.nodes = ns ∧ Stops ctx region.terminator t stop ∧ Looks t u :=
  bodyWith_keeps_of (fun p _ _ _ h => (round_of_nestingGuard h).2 p) hstart hround hrun

/-! ## Clauses -/

/-- One round of a list of clauses. -/
inductive ClauseRound (ctx : Context) (terminator : Kind) (starts : Parser Bool)
    (clause : List Node → Opening → Parser Node) :
    Progress × ParseState → Progress × ParseState → Prop where
  | clause {s s₁ t : ParseState} (hpass : Passes ctx (some terminator) s) (hlook : Looks s s₁)
      (hstarts : starts.run s₁ = (true, t))
      (hrun : (clause p.nodes ⟨t.read.input.last, s.errorCount⟩).run t.read = (n, u)) :
      ClauseRound ctx terminator starts clause (p, s) (⟨n.insert p.nodes, false⟩, u)
  | unexpected {s s₁ t : ParseState} (hpass : Passes ctx (some terminator) s)
      (hlook : Looks s s₁)
      (hstarts : starts.run s₁ = (false, t)) (hmem : s.kindAt 1 ∉ ctx.stops)
        (hlook' : Looks t t')
      (hskip : (skipUnexpected .unexpectedToken (!p.skipping)).run t'.read = ((), u)) :
      ClauseRound ctx terminator starts clause (p, s) ({ p with skipping := true }, u)

theorem clauseGuard_cases {starts : Parser Bool} (hstarts : starts.Peeks) (ctx : Context)
    (terminator : Kind) (s : ParseState) :
    (∃ stop t, (clauseGuard ctx terminator starts).run s = (.inl stop, t) ∧ Looks s t ∧
      Stops ctx (some terminator) s stop) ∨
    (∃ s₁ t, Passes ctx (some terminator) s ∧ Looks s s₁ ∧ starts.run s₁ = (true, t) ∧
      (clauseGuard ctx terminator starts).run s = (.inr (true, s.errorCount), t)) ∨
    (∃ s₁ t t', Passes ctx (some terminator) s ∧ Looks s s₁ ∧
      starts.run s₁ = (false, t) ∧ s.kindAt 1 ∉ ctx.stops ∧ Looks t t' ∧
      (clauseGuard ctx terminator starts).run s = (.inr (false, s.errorCount), t')) := by
  obtain ⟨s₁, hlook₁, hend⟩ := stopAtEnd?_cases ctx (some terminator) s
  unfold clauseGuard
  simp only [run_bind]
  obtain ⟨stop, hrun, hstop⟩ | ⟨hrun, hpass⟩ := hend
  · rw [hrun]
    exact .inl ⟨stop, s₁, rfl, hlook₁, hstop⟩
  rw [hrun]
  have herrors : errorCount.run s₁ = (s.errorCount, s₁) := Prod.ext hlook₁.errorCount rfl
  simp only [run_bind]
  rw [herrors]
  have hlookt : Looks s₁ (starts.run s₁).2 := hstarts s₁
  generalize hrun' : starts.run s₁ = r at hlookt ⊢
  obtain ⟨found, t⟩ := r
  cases found with
  | true => exact .inr (.inl ⟨s₁, t, hpass, hlook₁, hrun', rfl⟩)
  | false =>
    obtain ⟨t', hlook', htoken⟩ := stopAtToken?_cases ctx t
    have hlook := hlook₁.trans hlookt
    rw [hlook.kindAt] at htoken
    simp only [run_bind, Bool.false_eq_true, if_false]
    obtain ⟨hmem, hrun''⟩ | ⟨hmem, hrun''⟩ := htoken
    · rw [hrun'']
      exact .inl ⟨_, t', rfl, hlook.trans hlook', .stopToken hmem⟩
    · rw [hrun'']
      exact .inr (.inr ⟨s₁, t, t', hpass, hlook₁, hrun', hmem, hlook', rfl⟩)

/-- Where the guard of clauses stops them, it has only looked ahead. -/
theorem stops_of_clauseGuard {starts : Parser Bool} (hstarts : starts.Peeks)
    (h : (clauseGuard ctx terminator starts).run s = (.inl stop, t)) :
    Looks s t ∧ Stops ctx (some terminator) s stop := by
  obtain ⟨_, _, hguard, hlook, hstop⟩ | ⟨_, _, -, -, -, hguard⟩ |
      ⟨_, _, _, -, -, -, -, -, hguard⟩ :=
    clauseGuard_cases hstarts ctx terminator s
  · rw [hguard] at h
    cases h
    exact ⟨hlook, hstop⟩
  iterate 2 · cases hguard.symm.trans h

/-- Where the guard of clauses goes on, it has only looked ahead whether a clause starts there. -/
theorem starts_of_clauseGuard {starts : Parser Bool} (hstarts : starts.Peeks)
    (h : (clauseGuard ctx terminator starts).run s = (.inr (found, errors), t)) :
    errors = s.errorCount ∧ Passes ctx (some terminator) s ∧ Looks s t ∧
      ∃ s₁ t₁, Looks s s₁ ∧ starts.run s₁ = (found, t₁) ∧
        (found = true ∧ t = t₁ ∨ found = false ∧ s.kindAt 1 ∉ ctx.stops ∧
          Looks t₁ t) := by
  obtain ⟨_, _, hguard, -⟩ | ⟨s₁, t₁, hpass, hlook, hrun, hguard⟩ |
    ⟨s₁, t₁, t', hpass, hlook, hrun, hmem, hlook', hguard⟩ :=
      clauseGuard_cases hstarts ctx terminator s
  · cases hguard.symm.trans h
  · rw [hguard] at h
    cases h
    exact ⟨rfl, hpass, hlook.trans (hstarts.of_run hrun), s₁, t, hlook, hrun,
      .inl ⟨rfl, rfl⟩⟩
  · rw [hguard] at h
    cases h
    exact ⟨rfl, hpass, hlook.trans ((hstarts.of_run hrun).trans hlook'), s₁, t₁, hlook, hrun,
      .inr ⟨rfl, hmem, hlook'⟩⟩

/-- Where the guard of clauses goes on, a token is left to read, and a round follows. -/
theorem clauseRound_of_clauseGuard {starts : Parser Bool} (hstarts : starts.Peeks) {ctx : Context}
    {terminator : Kind} (clause : List Node → Opening → Parser Node) {s t : ParseState}
    {g : Bool × Nat} (h : (clauseGuard ctx terminator starts).run s = (.inr g, t)) :
    t.input.rest ≠ [] ∧ ∀ p : Progress,
      ClauseRound ctx terminator starts clause (p, s) ((clauseStep clause p g).run t.read) := by
  obtain ⟨found, errors⟩ := g
  obtain ⟨rfl, hpass, hlook, s₁, t₁, hlook₁, hrun, hfound⟩ :=
    starts_of_clauseGuard hstarts h
  refine ⟨hlook.rest ▸ ParseState.rest_ne_nil hpass.ne_endOfFile, fun p => ?_⟩
  obtain ⟨rfl, rfl⟩ | ⟨rfl, hmem, hlook'⟩ := hfound
  · exact .clause hpass hlook₁ hrun rfl
  · exact .unexpected hpass hlook₁ hrun hmem hlook' rfl

/-- A list of clauses is a number of rounds up to a state in which it stops. -/
theorem clauses_run {starts : Parser Bool} (hstarts : starts.Peeks) (ctx : Context)
    (terminator : Kind) (clause : List Node → Opening → Parser Node) (s : ParseState) :
    ∃ p t stop u, Relation.ReflTransGen (ClauseRound ctx terminator starts clause)
      ({}, s) (p, t) ∧ Stops ctx (some terminator) t stop ∧ Looks t u ∧
      (clauses ctx terminator starts clause).run s = ((p.nodes, stop), u) := by
  obtain ⟨p, t, stop, u, hrounds, hloop, hend⟩ :=
    loop_run (fun _ _ _ _ h => (clauseRound_of_clauseGuard hstarts clause h).1)
      (fun p _ _ _ h => (clauseRound_of_clauseGuard hstarts clause h).2 p) .endOfFile {} s
  have hrun : (clauses ctx terminator starts clause).run s = ((p.nodes, stop), u) := by
    unfold clauses
    rw [run_bind, hloop]
    rfl
  obtain ⟨hlook, hstop⟩ := stops_of_clauseGuard hstarts hend
  exact ⟨p, t, stop, u, hrounds, hstop, hlook, hrun⟩

/-- What holds before the first round of a list of clauses and is kept by each holds in the state in
which the list stops. -/
theorem clauses_keeps {starts : Parser Bool} (hstarts : starts.Peeks) {terminator : Kind}
    {clause : List Node → Opening → Parser Node} {I : Progress → ParseState → Prop}
    (hstart : I {} s)
    (hround : ∀ a b, ClauseRound ctx terminator starts clause a b → I a.1 a.2 → I b.1 b.2)
    (hrun : (clauses ctx terminator starts clause).run s = ((ns, stop), u)) :
    ∃ p t, I p t ∧ p.nodes = ns ∧ Stops ctx (some terminator) t stop ∧ Looks t u := by
  obtain ⟨p, t, stop', u', hrounds, hstop, hlook, hrun'⟩ :=
    clauses_run hstarts ctx terminator clause s
  rw [hrun] at hrun'
  obtain ⟨hresult, rfl⟩ := Prod.mk.inj hrun'
  obtain ⟨rfl, rfl⟩ := Prod.mk.inj hresult
  have hkept : ∀ a, Relation.ReflTransGen (ClauseRound ctx terminator starts clause) ({}, s) a →
      I a.1 a.2 := by
    intro a ha
    induction ha with
    | refl => exact hstart
    | tail _ hlast ih => exact hround _ _ hlast ih
  exact ⟨p, t, hkept _ hrounds, rfl, hstop, hlook⟩

end Parser

end FourGL
