import FourGL.Proofs.Grammar.Flow
import FourGL.Proofs.Grammar.Progress

/-!
# Levels of nesting

Expressions and bodies are read by recursion on the levels of nesting that are left. At each state
there are as many as the counter of nesting leaves (`LevelsLeft`), so that they run out only where
the counter has reached the limit, and it alone decides whether anything nests too deep: with more
levels everything is read alike (`run_operandAt_add`, `run_bodyAt_add`).
-/

namespace FourGL

open FourGL.Parser FourGL.ParseState

/-- What is read with `levels` levels has as many left as the counter of nesting says. -/
def ParseState.LevelsLeft (levels : Nat) (s : ParseState) : Prop :=
  s.nesting.depth + levels = maxNesting

namespace ParseState.LevelsLeft

theorem ofText (mode : ScanMode) (text : String) : LevelsLeft maxNesting (.ofText mode text) :=
  Nat.zero_add _

/-- What is nested has one level less. -/
theorem enter (h : LevelsLeft (levels + 1) s) :
    LevelsLeft levels { s with nesting := s.nesting.enter } := by
  unfold LevelsLeft Nesting.enter at *
  dsimp only
  omega

/-- Behind what is nested there is one level more. -/
theorem leave (h : LevelsLeft (levels + 1) s)
    (h' : LevelsLeft levels t) : LevelsLeft (levels + 1) { t with nesting := t.nesting.leave } := by
  unfold LevelsLeft Nesting.leave at *
  dsimp only
  omega

/-- Behind what is balanced as many levels are left. -/
theorem balanced (h : LevelsLeft levels s) (hbalanced : balanced l s t) : LevelsLeft levels t :=
  (congrArg (· + levels) hbalanced.1).trans h

theorem isFull_eq (h : LevelsLeft levels s) : s.nesting.isFull = decide (levels = 0) := by
  unfold LevelsLeft at h
  rw [Nesting.isFull, decide_eq_decide]
  omega

end ParseState.LevelsLeft

namespace Parser

set_option synthInstance.maxSize 512

/-- Where so many levels are left, both parsers do the same and leave as many. -/
class SameAt (levels : Nat) (p q : Parser α) : Prop where
  same : ∀ s, LevelsLeft levels s → q.run s = p.run s ∧ LevelsLeft levels (p.run s).2

variable {levels k : Nat}

/-! ## Combinators -/

section

variable {p q p' q' : Parser α} {f g : α → Parser β}

instance (priority := high) [h : p.Has balanced levels] : SameAt levels p p :=
  ⟨fun s hs => ⟨rfl, hs.balanced (h.has s)⟩⟩

theorem SameAt.bind [hp : SameAt levels p q] (hf : ∀ a, SameAt levels (f a) (g a)) :
    SameAt levels (p >>= f) (q >>= g) where
  same s hs := by
    obtain ⟨hrun, hs'⟩ := hp.same s hs
    rw [run_bind, run_bind, hrun]
    exact (hf _).same _ hs'

instance [SameAt levels p q] [hf : ∀ a, SameAt levels (f a) (g a)] :
    SameAt levels (p >>= f) (q >>= g) := .bind hf

instance {h : α → β} [SameAt levels p q] : SameAt levels (h <$> p) (h <$> q) :=
  inferInstanceAs (SameAt levels (p >>= fun a => pure (h a)) (q >>= fun a => pure (h a)))

instance {c : Prop} [Decidable c] [hp : SameAt levels p q] [hp' : SameAt levels p' q'] :
    SameAt levels (if c then p else p') (if c then q else q') := by
  split
  · exact hp
  · exact hp'

end

/-- A loop does the same if its rounds do, in which the body only does what the guard has found. -/
theorem sameAt_rounds {guard guard' : σ → Parser (β ⊕ γ)}
    {body body' : σ → γ → Parser σ} [hguard : ∀ a, SameAt levels (guard a) (guard' a)]
    (hbody : ∀ {a s g t}, (guard a).run s = (.inr g, t) → SameAt levels (body a g) (body' a g))
    (atEnd : β) (a : σ) :
    SameAt levels (loop atEnd guard body a) (loop atEnd guard' body' a) := by
  refine ⟨fun s => ?_⟩
  induction a, s using loopFrom.induct guard body with
  | case1 a s b t h =>
    intro hs
    obtain ⟨hrun, ht⟩ := (hguard a).same s hs
    rw [h] at hrun ht
    rw [run_loop_stop h, run_loop_stop hrun]
    exact ⟨rfl, ht⟩
  | case2 a s g t h hnil =>
    intro hs
    obtain ⟨hrun, ht⟩ := (hguard a).same s hs
    rw [h] at hrun ht
    rw [run_loop_cut h hnil, run_loop_cut hrun hnil]
    exact ⟨rfl, ht⟩
  | case3 a s g t h l ls hrest r ih =>
    intro hs
    have hne : t.input.rest ≠ [] := by simp [hrest]
    obtain ⟨hrun, ht⟩ := (hguard a).same s hs
    rw [h] at hrun ht
    obtain ⟨hround, hr⟩ := (hbody h).same t.read ht
    rw [run_loop_round h hne, run_loop_round hrun hne, hround]
    exact ih hr

instance {guard guard' : σ → Parser (β ⊕ γ)} {body body' : σ → γ → Parser σ}
    {atEnd : β} [∀ a, SameAt levels (guard a) (guard' a)]
    [hbody : ∀ a g, SameAt levels (body a g) (body' a g)] :
    SameAt levels (loop atEnd guard body a) (loop atEnd guard' body' a) :=
  sameAt_rounds (fun _ => hbody _ _) atEnd a

instance {guard guard' : σ → Parser (Option γ)} {body body' : σ → γ → Parser σ}
    [∀ a, SameAt levels (guard a) (guard' a)] [∀ a g, SameAt levels (body a g) (body' a g)] :
    SameAt levels (whileNext guard body a) (whileNext guard' body' a) := by
  unfold whileNext
  infer_instance

/-- What is read one level deeper is read alike. -/
instance SameAt.nested {p q : Parser α} [h : SameAt levels p q] :
    SameAt (levels + 1) (nested p) (nested q) := by
  refine ⟨fun s hs => ?_⟩
  obtain ⟨hrun, ht⟩ := h.same _ hs.enter
  have hnested (p : Parser α) : (Parser.nested p).run s =
      ((p.run { s with nesting := s.nesting.enter }).1,
        { (p.run { s with nesting := s.nesting.enter }).2 with
          nesting := (p.run { s with nesting := s.nesting.enter }).2.nesting.leave }) := rfl
  rw [hnested, hnested, hrun]
  exact ⟨rfl, hs.leave ht⟩

instance SameAt.nestedOr {p q tooDeep : Parser α} [SameAt levels p q] :
    SameAt (levels + 1) (nestedOr tooDeep p) (nestedOr tooDeep q) := by
  refine ⟨fun s hs => ?_⟩
  rw [run_nestedOr, run_nestedOr, hs.isFull_eq]
  exact SameAt.nested.same s hs

/-! ## Lists -/

instance sameAt_another {item item' : Parser (Option α)} [SameAt levels item item']
    (as : List α) : SameAt levels
      (do
        match ← item with
        | some a => return (as ++ [a], true)
        | none => return (as, false))
      (do
        match ← item' with
        | some a => return (as ++ [a], true)
        | none => return (as, false)) :=
  .bind fun a => by cases a <;> infer_instance

instance {item item' : Parser (Option α)} [SameAt levels item item'] :
    SameAt levels (commaTail item as) (commaTail item' as) := by
  unfold commaTail
  infer_instance

instance {item item' : Parser (Option α)} [SameAt levels item item'] :
    SameAt levels (commaList item) (commaList item') := by
  unfold commaList
  refine .bind fun a => ?_
  cases a <;> infer_instance

/-! ## Expressions -/

section

variable {deeper deeper' : Nat → Parser Expression}
  [hdeeper : ∀ rank, SameAt levels (deeper rank) (deeper' rank)]

instance : SameAt levels (expressionWith? deeper) (expressionWith? deeper') := by
  unfold expressionWith?
  infer_instance

instance : SameAt levels (expectExpressionWith deeper) (expectExpressionWith deeper') := by
  unfold expectExpressionWith
  refine .bind fun e => ?_
  cases e <;> infer_instance

instance : SameAt levels (expressionListWith deeper) (expressionListWith deeper') := by
  unfold expressionListWith
  infer_instance

instance : SameAt levels (accessor deeper selection) (accessor deeper' selection) := by
  unfold accessor
  cases selection <;> infer_instance

instance : SameAt levels (designatorWith? deeper) (designatorWith? deeper') := by
  unfold designatorWith?
  refine .bind fun name => ?_
  cases name <;> infer_instance

instance : SameAt levels (callWith deeper callee) (callWith deeper' callee) := by
  unfold callWith
  infer_instance

instance : SameAt levels (primaryWith deeper) (primaryWith deeper') := by
  unfold primaryWith
  refine .bind fun t => ?_
  cases literalKind? t.kind with
  | some kind => infer_instance
  | none =>
    refine .bind fun found => ?_
    split
    · infer_instance
    · refine .bind fun d => ?_
      cases d <;> infer_instance

instance : SameAt levels (unaryWith deeper) (unaryWith deeper') := by
  unfold unaryWith
  refine .bind fun t => ?_
  cases operandRank? t.kind <;> infer_instance

instance {left : Expression} : SameAt levels (continueWith deeper start left continuation)
    (continueWith deeper' start left continuation) := by
  unfold continueWith
  cases continuation <;> infer_instance

instance : SameAt levels (operandWith deeper least) (operandWith deeper' least) := by
  unfold operandWith
  infer_instance

end

instance sameAt_operandAt : (levels least : Nat) →
    SameAt levels (operandAt levels least) (operandAt (levels + k) least)
  | 0, least => by
    refine ⟨fun s hs => ⟨?_, hs.balanced ((has_operandAt 0 least).has s)⟩⟩
    cases 0 + k with
    | zero => rfl
    | succ l =>
      change (nestedOr giveUp (operandWith (operandAt l) least)).run s = _
      rw [run_nestedOr, hs.isFull_eq]
      rfl
  | levels + 1, least => by
    have := sameAt_operandAt levels
    rw [Nat.add_right_comm]
    exact SameAt.nestedOr

instance : SameAt levels (expression? levels) (expression? (levels + k)) := by
  unfold expression?
  infer_instance

instance : SameAt levels (expectExpression levels) (expectExpression (levels + k)) := by
  unfold expectExpression
  infer_instance

instance : SameAt levels (expressionList levels) (expressionList (levels + k)) := by
  unfold expressionList
  infer_instance

instance : SameAt levels (designator? levels) (designator? (levels + k)) := by
  unfold designator?
  infer_instance

instance : SameAt levels (expectDesignator levels) (expectDesignator (levels + k)) := by
  unfold expectDesignator
  refine .bind fun d => ?_
  cases d <;> infer_instance

instance : SameAt levels (designatorList levels) (designatorList (levels + k)) := by
  unfold designatorList
  infer_instance

/-! ## Statements -/

instance : SameAt levels (optionalList levels) (optionalList (levels + k)) := by
  unfold optionalList
  infer_instance

instance : SameAt levels (listBehind levels word) (listBehind (levels + k) word) := by
  unfold listBehind
  infer_instance

instance : SameAt levels (designatorsBehind levels word) (designatorsBehind (levels + k) word) := by
  unfold designatorsBehind
  infer_instance

instance : SameAt levels (expressionOnLine? levels) (expressionOnLine? (levels + k)) := by
  unfold expressionOnLine?
  infer_instance

instance {follows : Parser Bool} [follows.Has balanced levels] :
    SameAt levels (expressionBehind levels follows) (expressionBehind (levels + k) follows) := by
  unfold expressionBehind
  infer_instance

instance : SameAt levels (assignmentStatement levels o) (assignmentStatement (levels + k) o) := by
  unfold assignmentStatement
  dsimp only
  infer_instance

instance : SameAt levels (callStatement levels o) (callStatement (levels + k) o) := by
  unfold callStatement
  dsimp only
  refine .bind fun callee => ?_
  split <;> infer_instance

instance : SameAt levels (returnStatement levels ctx o) (returnStatement (levels + k) ctx o) := by
  unfold returnStatement
  dsimp only
  refine .bind fun values => ?_
  split <;> infer_instance

instance : SameAt levels (outputStatement levels word o) (outputStatement (levels + k) word o) := by
  unfold outputStatement
  dsimp only
  infer_instance

instance : SameAt levels (sleepStatement levels o) (sleepStatement (levels + k) o) := by
  unfold sleepStatement
  infer_instance

instance : SameAt levels (setNullStatement levels o) (setNullStatement (levels + k) o) := by
  unfold setNullStatement
  dsimp only
  infer_instance

instance : SameAt levels (exitStatement levels o) (exitStatement (levels + k) o) := by
  unfold exitStatement
  dsimp only
  infer_instance

instance : SameAt levels (prepareStatement levels ctx o) (prepareStatement (levels + k) ctx o) := by
  unfold prepareStatement
  dsimp only
  infer_instance

instance : SameAt levels (cursorSource levels) (cursorSource (levels + k)) := by
  unfold cursorSource
  infer_instance

instance : SameAt levels (declareStatement levels ctx o) (declareStatement (levels + k) ctx o) := by
  unfold declareStatement
  infer_instance

instance : SameAt levels (cursorStatement levels word o) (cursorStatement (levels + k) word o) := by
  unfold cursorStatement
  dsimp only
  infer_instance

instance : SameAt levels (runStatement levels o) (runStatement (levels + k) o) := by
  unfold runStatement
  dsimp only
  infer_instance

instance : SameAt levels (menuControlStatement levels word o)
    (menuControlStatement (levels + k) word o) := by
  unfold menuControlStatement
  infer_instance

instance : SameAt levels (constant levels ctx) (constant (levels + k) ctx) := by
  unfold constant
  refine .bind fun name => ?_
  cases name with
  | none => infer_instance
  | some name =>
    refine .bind fun found => ?_
    dsimp only
    split <;> infer_instance

instance : SameAt levels (constantsStatement levels word ctx o)
    (constantsStatement (levels + k) word ctx o) := by
  unfold constantsStatement
  infer_instance

instance : SameAt levels (commandClause levels) (commandClause (levels + k)) := by
  unfold commandClause
  dsimp only
  infer_instance

instance : SameAt levels (menuClauseHeader levels first) (menuClauseHeader (levels + k) first) := by
  unfold menuClauseHeader
  split
  · infer_instance
  · refine .bind fun t => ?_
    split <;> infer_instance

/-! ## Blocks -/

instance {starts : Parser Bool} {clause clause' : List Node → Opening → Parser Node}
    [starts.Has balanced levels]
    [∀ before o, SameAt levels (clause before o) (clause' before o)] :
    SameAt levels (clauses ctx terminator starts clause)
      (clauses ctx terminator starts clause') := by
  unfold clauses clauseStep
  infer_instance

section

variable {p q : Parser α} [SameAt levels p q]

instance : SameAt levels (insideCursorLoop cursor p) (insideCursorLoop cursor q) := by
  unfold insideCursorLoop
  infer_instance

instance : SameAt levels (insideBlock p) (insideBlock q) := by
  unfold insideBlock
  infer_instance

end

section

variable {body body' : BodyParser}
  [hbody : ∀ ctx region, SameAt levels (body ctx region) (body' ctx region)]

instance : SameAt levels (statementsUpTo body ctx word) (statementsUpTo body' ctx word) := by
  unfold statementsUpTo
  infer_instance

instance : SameAt levels (simpleBlock body ctx o word kind)
    (simpleBlock body' ctx o word kind) := by
  unfold simpleBlock
  infer_instance

instance : SameAt levels (branch body ctx word kind o) (branch body' ctx word kind o) := by
  unfold branch
  infer_instance

instance : SameAt levels (secondBranch body ctx word word' kind first)
    (secondBranch body' ctx word word' kind first) := by
  unfold secondBranch
  infer_instance

instance : SameAt levels (branchedBlock body ctx o word word' kind branchKind)
    (branchedBlock body' ctx o word word' kind branchKind) := by
  unfold branchedBlock
  infer_instance

instance {kind : List Cursor → NodeKind} : SameAt levels (cursorLoop body ctx o cursor kind)
    (cursorLoop body' ctx o cursor kind) := by
  unfold cursorLoop
  infer_instance

instance : SameAt levels (clauseBody body ctx o kind) (clauseBody body' ctx o kind) := by
  unfold clauseBody
  infer_instance

instance : SameAt levels (globalsBlock body ctx o) (globalsBlock body' ctx o) := by
  unfold globalsBlock
  infer_instance

instance : SameAt levels (globalsMember body ctx o) (globalsMember body' ctx o) := by
  unfold globalsMember
  infer_instance

instance {kind : Holding → NodeKind} :
    SameAt levels (routineBlock body ctx o header word returns kind)
      (routineBlock body' ctx o header word returns kind) := by
  unfold routineBlock
  infer_instance

instance : SameAt levels (mainMember body word ctx o) (mainMember body' word ctx o) := by
  unfold mainMember
  dsimp only
  refine .bind fun access => ?_
  split <;> infer_instance

instance : SameAt levels (functionMember body word ctx o) (functionMember body' word ctx o) := by
  unfold functionMember
  dsimp only
  infer_instance

instance : SameAt levels (tryStatement body ctx o) (tryStatement body' ctx o) := by
  unfold tryStatement
  infer_instance

instance : SameAt levels (ifStatement levels body ctx o)
    (ifStatement (levels + k) body' ctx o) := by
  unfold ifStatement
  infer_instance

instance : SameAt levels (whileStatement levels body ctx o)
    (whileStatement (levels + k) body' ctx o) := by
  unfold whileStatement
  infer_instance

instance : SameAt levels (forStatement levels body ctx o)
    (forStatement (levels + k) body' ctx o) := by
  unfold forStatement
  dsimp only
  infer_instance

instance : SameAt levels (foreachStatement levels body ctx o)
    (foreachStatement (levels + k) body' ctx o) := by
  unfold foreachStatement
  dsimp only
  infer_instance

instance : SameAt levels (caseClause levels body ctx before o)
    (caseClause (levels + k) body' ctx before o) := by
  unfold caseClause
  dsimp only
  infer_instance

instance : SameAt levels (caseStatement levels body ctx o)
    (caseStatement (levels + k) body' ctx o) := by
  unfold caseStatement
  infer_instance

instance : SameAt levels (menuClause levels body ctx o) (menuClause (levels + k) body' ctx o) := by
  unfold menuClause
  infer_instance

instance : SameAt levels (menuBlock levels body ctx o title)
    (menuBlock (levels + k) body' ctx o title) := by
  unfold menuBlock
  dsimp only
  infer_instance

instance : SameAt levels (menuStatement levels body ctx o)
    (menuStatement (levels + k) body' ctx o) := by
  unfold menuStatement
  dsimp only
  infer_instance

instance : SameAt levels (formWith levels body form word ctx o)
    (formWith (levels + k) body' form word ctx o) := by
  unfold formWith
  cases form <;> infer_instance

end

/-! ## Bodies -/

theorem depth_bodyGuard (h : (bodyGuard atLimit ctx region).run s = (found, t)) :
    t.nesting.depth = s.nesting.depth := by
  obtain hguard | ⟨_, u, -, hu, rfl⟩ := has_bodyGuard (R := balanced) (l := 0) h
  · exact hguard.1
  · rw [nesting_reportLimit]
    exact hu.1

/-- Whether a statement nests too deep is found alike. -/
instance sameAt_nestingGuard (levels k : Nat) (ctx : Context) (region : Region) :
    SameAt levels (nestingGuard (statementAt levels).isNone ctx region)
      (nestingGuard (statementAt (levels + k)).isNone ctx region) where
  same s hs := by
    refine ⟨?_, (congrArg (· + levels) (depth_bodyGuard rfl)).trans hs⟩
    rw [run_nestingGuard, run_nestingGuard, hs.isFull_eq, isNone_statementAt, isNone_statementAt]
    cases levels <;> simp

/-- Without a level left no statement is found, and none is read. -/
theorem sameAt_bodyStep_zero (h : (nestingGuard true ctx region).run s = (.inr g, t))
    (statement : Option FormParser) (p : Progress) :
    SameAt 0 (bodyStep none ctx region p g) (bodyStep statement ctx region p g) := by
  obtain ⟨choice, errors⟩ := g
  obtain ⟨-, u, hchoice, -⟩ := chooses_of_bodyGuard (run_nestingGuard true ctx region s ▸ h)
  unfold bodyStep
  refine .bind fun token => ?_
  cases choice with
  | form f word => cases (Bool.or_eq_false_iff.mp hchoice.atLimit_eq_false).2
  | unavailable | tooDeep | unexpected => dsimp only; infer_instance

instance sameAt_bodyStep_succ {parse parse' : FormParser}
    [∀ f word ctx o, SameAt levels (parse f word ctx o) (parse' f word ctx o)] (p : Progress)
    (g : Choice × Nat) :
    SameAt (levels + 1) (bodyStep (some parse) ctx region p g)
      (bodyStep (some parse') ctx region p g) := by
  obtain ⟨choice, errors⟩ := g
  unfold bodyStep
  refine .bind fun token => ?_
  cases choice <;> (dsimp only; infer_instance)

theorem sameAt_bodyWith {statement statement' : Option FormParser}
    [SameAt levels (nestingGuard statement.isNone ctx region)
      (nestingGuard statement'.isNone ctx region)]
    (hstep : ∀ {p s g t}, (nestingGuard statement.isNone ctx region).run s = (.inr g, t) →
      SameAt levels (bodyStep statement ctx region p g) (bodyStep statement' ctx region p g)) :
    SameAt levels (bodyWith statement ctx region) (bodyWith statement' ctx region) := by
  have hloop : SameAt levels
      (loop .endOfFile (fun _ => nestingGuard statement.isNone ctx region)
        (bodyStep statement ctx region) {})
      (loop .endOfFile (fun _ => nestingGuard statement'.isNone ctx region)
        (bodyStep statement' ctx region) {}) := sameAt_rounds hstep _ _
  unfold bodyWith
  infer_instance

instance sameAt_bodyAt : (levels : Nat) → (ctx : Context) → (region : Region) →
    SameAt levels (bodyAt levels ctx region) (bodyAt (levels + k) ctx region)
  | 0, ctx, region => by
    have := sameAt_nestingGuard 0 k ctx region
    rw [bodyAt_eq, bodyAt_eq]
    exact sameAt_bodyWith fun h => sameAt_bodyStep_zero h _ _
  | levels + 1, ctx, region => by
    have := sameAt_bodyAt levels
    have := sameAt_nestingGuard (levels + 1) k ctx region
    rw [Nat.add_right_comm] at this ⊢
    rw [bodyAt_eq, bodyAt_eq]
    exact sameAt_bodyWith fun _ => sameAt_bodyStep_succ _ _

/-! ## Whole texts -/

/-- With more levels an expression is read alike. -/
theorem run_operandAt_add (mode : ScanMode) (text : String) (k least : Nat) :
    (operandAt (maxNesting + k) least).run (.ofText mode text) =
      (operandAt maxNesting least).run (.ofText mode text) :=
  ((sameAt_operandAt maxNesting least).same _ (.ofText mode text)).1

/-- With more levels a body is read alike. -/
theorem run_bodyAt_add (mode : ScanMode) (text : String) (k : Nat) (ctx : Context)
    (region : Region) :
    (bodyAt (maxNesting + k) ctx region).run (.ofText mode text) =
      (bodyAt maxNesting ctx region).run (.ofText mode text) :=
  ((sameAt_bodyAt maxNesting ctx region).same _ (.ofText mode text)).1

end Parser

end FourGL
