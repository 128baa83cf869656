import FourGL.Parse
import FourGL.Proofs.Grammar.Rounds

/-!
# Properties of runs of parsers

A property of runs is a relation between states that parsers keep to: whatever they do leads from
one state to a state that is related to it. It may depend on how many levels of nesting are left.
Properties of runs are closed under the combinators, so that a parser has them by instance: phrases
and statements that declare nothing have every `AllowsPhraseReports` property, declarations every
property that `AllowsDeclarations` names, and all blocks and bodies those that are `IgnoresNames`.
To show something of all parsers it is enough to show it of the few things that parsers do.
-/

namespace FourGL

open FourGL.Parser FourGL.ParseState

/-! ## Messages -/

namespace Message

/-- The message is about a name that is declared or bound more than once, or nowhere. -/
def aboutNames (m : Message) : Bool :=
  [alreadyDefined.code, cursorRefused.code, cursorRedeclared.code].contains m.code

/-- The message is about statements and clauses that do not go together. -/
def aboutShape (m : Message) : Bool :=
  [returnOutsideFunction.code, secondOtherwise.code, secondMain.code,
    emptyMenu.code].contains m.code

/-- The messages about a stretch of the text that is measured where it is reported, not about one
token. -/
def measuredCodes : List Nat :=
  [unterminatedBlock.code, noEnclosingBlock.code, unexpectedEnd.code, returnOutsideFunction.code,
   secondOtherwise.code, secondMain.code, emptyMenu.code]

def isMeasured (m : Message) : Bool := measuredCodes.contains m.code

/-- The message is about a token that is missing or out of place, but not between the members of a
module. -/
def isPlain (m : Message) : Bool :=
  !m.aboutNames && !m.aboutShape && m.code != nestingTooDeep.code && m.code != unexpectedMember.code

end Message

class Plain (m : Message) : Prop where
  isPlain : m.isPlain = true

/-- The message is said while phrases are read, and about the token that comes next. -/
class AboutNext (m : Message) : Prop where
  isPlain : m.isPlain = true
  isMeasured : m.isMeasured = false

instance [h : AboutNext m] : Plain m := ⟨h.isPlain⟩

instance : AboutNext .expected := ⟨rfl, rfl⟩
instance : AboutNext .expressionExpected := ⟨rfl, rfl⟩
instance : AboutNext .identifierExpected := ⟨rfl, rfl⟩
instance : AboutNext .typeExpected := ⟨rfl, rfl⟩
instance : AboutNext .missingCounter := ⟨rfl, rfl⟩
instance : AboutNext .blockKeywordExpected := ⟨rfl, rfl⟩
instance : Plain .misplacedModifier := ⟨rfl⟩
instance : Plain .unterminatedBlock := ⟨rfl⟩
instance : Plain .noEnclosingBlock := ⟨rfl⟩
instance : Plain .requiresVersion := ⟨rfl⟩
instance : Plain .unexpectedToken := ⟨rfl⟩
instance : Plain .unexpectedEnd := ⟨rfl⟩

/-! ## Properties of runs -/

theorem Names.get_set (n : Names) (h : Holding) (o o' : Owner) :
    (n.set h o).get o' = if o' = o then h else n.get o' := by
  cases o <;> cases o' <;> rfl

/-- How many values the RETURNs of each owner return, and whether there is a MAIN. -/
def Names.shapeState (n : Names) : (Owner → List Nat) × Bool :=
  (fun o => (n.get o).returns, n.hasMain)

theorem Names.shapeState_set (n : Names) {h : Holding} {o : Owner}
    (hreturns : h.returns = (n.get o).returns) : (n.set h o).shapeState = n.shapeState := by
  refine Prod.ext (funext fun o' => ?_) (by cases o <;> rfl)
  change ((n.set h o).get o').returns = (n.get o').returns
  rw [Names.get_set]
  split
  next ho => rw [hreturns, ho]
  next => rfl

/-- What may happen between two states, where so many levels of nesting are left. -/
abbrev RunProperty := Nat → ParseState → ParseState → Prop

namespace RunProperty

/-- It does not matter whether the message is reported. -/
class Ignores (R : RunProperty) (m : Message) : Prop where
  report : ∀ l s args span, R l s { s with reports := .of m args (some span) :: s.reports }

/-- It does not matter whether the message is reported about the next token. -/
class Notes (R : RunProperty) (m : Message) : Prop where
  note : ∀ l s args, R l s ((reportNext m args).run s).2

/-- What may happen where `levels` levels are left may happen where `l` levels are left. -/
class Allows (R : RunProperty) (levels l : Nat) : Prop where
  mono : ∀ {s t}, R levels s t → R l s t

instance (R : RunProperty) (l : Nat) : R.Allows l l := ⟨id⟩

/-- All that happens while a phrase is read may happen: what is reported there is about the token
that comes next. -/
class AllowsPhrases (R : RunProperty) : Prop where
  refl : ∀ l s, R l s s
  trans : ∀ {l s t u}, R l s t → R l t u → R l s u
  look : ∀ l s depth, R l s { s with input := s.input.inspect depth }
  read : ∀ l s, R l s s.read
  next : ∀ {m : Message}, m.isPlain = true → m.isMeasured = false → R.Notes m
  /-- Where no level is left, a token is given up. -/
  giveUp : ∀ l s, R l s ((operandAt 0 0).run s).2
  nest : ∀ {l s t}, R l { s with nesting := s.nesting.enter } t →
    R (l + 1) s { t with nesting := t.nesting.leave }

/-- All that happens while a phrase is read may happen, wherever it is reported. -/
class AllowsPhraseReports (R : RunProperty) : Prop extends R.AllowsPhrases where
  plain : ∀ {m : Message}, m.isPlain = true → R.Ignores m
  next := fun hm _ => ⟨fun l s args => trans (look l s 1) ((plain hm).report l _ args _)⟩

/-- Names may be declared. -/
class AllowsDeclarations (R : RunProperty) : Prop extends R.AllowsPhraseReports where
  rename : ∀ l s names, names.shapeState = s.names.shapeState → R l s { s with names }
  aboutNames : ∀ {m : Message}, m.aboutNames = true → R.Ignores m

/-- It does not matter what is written down about names and shapes. -/
class IgnoresNames (R : RunProperty) : Prop extends R.AllowsDeclarations where
  forget : ∀ l s names, R l s { s with names }
  aboutShape : ∀ {m : Message}, m.aboutShape = true → R.Ignores m

section

variable {R : RunProperty}

instance [h : R.AllowsPhrases] [hm : AboutNext m] : R.Notes m := h.next hm.isPlain hm.isMeasured
instance [h : R.AllowsPhraseReports] [Plain m] : R.Ignores m := h.plain Plain.isPlain
instance [h : R.AllowsDeclarations] : R.Ignores .alreadyDefined := h.aboutNames rfl
instance [h : R.AllowsDeclarations] : R.Ignores .cursorRefused := h.aboutNames rfl
instance [h : R.AllowsDeclarations] : R.Ignores .cursorRedeclared := h.aboutNames rfl
instance [h : R.IgnoresNames] : R.Ignores .returnOutsideFunction := h.aboutShape rfl
instance [h : R.IgnoresNames] : R.Ignores .secondOtherwise := h.aboutShape rfl
instance [h : R.IgnoresNames] : R.Ignores .secondMain := h.aboutShape rfl
instance [h : R.IgnoresNames] : R.Ignores .emptyMenu := h.aboutShape rfl

end

end RunProperty

namespace Parser

/-- Every run of the parser has the property. -/
class Has (R : RunProperty) (l : Nat) (p : Parser α) : Prop where
  has : ∀ s, R l s (p.run s).2

set_option synthInstance.maxSize 512

variable {R : RunProperty} {l : Nat}

theorem Has.of_run {p : Parser α} (h : p.Has R l) (hrun : p.run s = (a, t)) : R l s t := by
  have hhas := h.has s
  rwa [hrun] at hhas

section

variable [hR : R.AllowsPhrases]
include hR

/-! ## Combinators -/

instance : (pure a : Parser α).Has R l := ⟨fun s => hR.refl l s⟩

section

variable {p q : Parser α} {f : α → Parser β}

theorem Has.bind [hp : p.Has R l] (hf : ∀ a, (f a).Has R l) : (p >>= f).Has R l :=
  ⟨fun s => hR.trans (hp.has s) ((hf _).has _)⟩

instance [p.Has R l] [hf : ∀ a, (f a).Has R l] : (p >>= f).Has R l := .bind hf

instance {g : α → β} [p.Has R l] : (g <$> p).Has R l :=
  inferInstanceAs ((p >>= fun a => pure (g a)).Has R l)

omit hR in
instance {c : Prop} [Decidable c] [hp : p.Has R l] [hq : q.Has R l] :
    (if c then p else q).Has R l := by
  split
  · exact hp
  · exact hq

end

instance {guard : σ → Parser (β ⊕ γ)} {body : σ → γ → Parser σ} {atEnd : β}
    [hguard : ∀ a, (guard a).Has R l] [hbody : ∀ a g, (body a g).Has R l] :
    (loop atEnd guard body a).Has R l := by
  refine ⟨fun s => ?_⟩
  change R l s (loopFrom atEnd guard body a s).2
  fun_induction loopFrom atEnd guard body a s with
  | case1 a s b t h => exact (hguard a).of_run h
  | case2 a s g t h _ => exact (hguard a).of_run h
  | case3 a s g t h _ _ _ r ih =>
    exact hR.trans ((hguard a).of_run h) (hR.trans (hR.read l t) (hR.trans ((hbody a g).has _) ih))

instance {guard : σ → Parser (Option γ)} {body : σ → γ → Parser σ}
    [∀ a, (guard a).Has R l]
    [∀ a g, (body a g).Has R l] : (whileNext guard body a).Has R l := by
  unfold whileNext
  infer_instance

/-- What is read one level deeper has one level less. -/
theorem Has.nested {p : Parser α} (hp : p.Has R l) : (nested p).Has R (l + 1) :=
  ⟨fun s => hR.nest (hp.has { s with nesting := s.nesting.enter })⟩

instance {p : Parser α} [p.Has R l] [h : R.Allows (l + 1) l] : (nested p).Has R l :=
  ⟨fun s => h.mono ((Has.nested inferInstance).has s)⟩

theorem Has.nestedOr {tooDeep p : Parser α}
    (hdeep : (do reportLimit; tooDeep : Parser α).Has R (l + 1)) (hp : p.Has R l) :
    (nestedOr tooDeep p).Has R (l + 1) :=
  ⟨nestedOr_cases (P := fun s r => R (l + 1) s r.2) (fun s _ => hdeep.has s)
    fun s _ => (Has.nested hp).has s⟩

instance : (ask f).Has R l := ⟨fun s => hR.refl l s⟩
instance : (peekAt depth).Has R l := ⟨fun s => hR.look l s depth⟩
instance : next.Has R l := ⟨fun s => hR.read l s⟩
instance : peek.Has R l := inferInstanceAs ((peekAt 1).Has R l)
instance : peekKind.Has R l := by unfold peekKind; infer_instance
instance : (nextIs k).Has R l := by unfold nextIs; infer_instance
instance : (secondIs k).Has R l := by unfold secondIs; infer_instance
instance {p q : Parser Bool} [p.Has R l] [q.Has R l] :
    (both p q).Has R l := by unfold both; infer_instance
instance : (nextBeforeName k).Has R l := by unfold nextBeforeName; infer_instance
instance {k k' : Kind} : (nextAre k k').Has R l := by unfold nextAre; infer_instance
instance : last.Has R l := by unfold last; infer_instance
instance : lastStop.Has R l := by unfold lastStop; infer_instance
instance : nextStart.Has R l := by unfold nextStart; infer_instance
instance : (spanFrom n).Has R l := by unfold spanFrom; infer_instance
instance : (optional k).Has R l := by unfold optional; infer_instance
instance : name?.Has R l := by unfold name?; infer_instance
instance : Parser.errorCount.Has R l := by unfold errorCount; infer_instance
instance : getNames.Has R l := by unfold getNames; infer_instance

/-! ## Reporting -/

omit hR in
instance [h : R.Ignores m] : (report m args span).Has R l := ⟨fun s => h.report l s args span⟩

omit hR in
instance [h : R.Notes m] : (reportNext m args).Has R l := ⟨fun s => h.note l s args⟩

instance : (expect k).Has R l := by unfold expect; infer_instance
instance : expectName.Has R l := by
  unfold expectName
  refine .bind fun name => ?_
  cases name <;> infer_instance
instance : expectNameText.Has R l := by unfold expectNameText; infer_instance
instance {p : Parser Bool} [p.Has R l] : (when p).Has R l := by unfold when; infer_instance
instance : (commaFollows a).Has R l := by unfold commaFollows; infer_instance

instance has_another {item : Parser (Option α)} [item.Has R l] (as : List α) : Has R l (do
    match ← item with
    | some a => return (as ++ [a], true)
    | none => return (as, false)) := .bind fun a => by cases a <;> infer_instance

instance {item : Parser (Option α)} [item.Has R l] : (commaTail item as).Has R l := by
  unfold commaTail; infer_instance

instance {item : Parser (Option α)} [item.Has R l] : (commaList item).Has R l := by
  unfold commaList
  refine .bind fun a => ?_
  cases a <;> infer_instance

/-! ## Expressions -/

section

variable {deeper : Nat → Parser Expression} [∀ rank, (deeper rank).Has R l]

instance : missingExpression.Has R l := by unfold missingExpression; infer_instance
instance : (expressionWith? deeper).Has R l := by unfold expressionWith?; infer_instance
instance : (expectExpressionWith deeper).Has R l := by
  unfold expectExpressionWith
  refine .bind fun e => ?_
  cases e <;> infer_instance
instance : (expressionListWith deeper).Has R l := by unfold expressionListWith; infer_instance
instance : selection?.Has R l := by
  unfold selection?
  refine .bind fun kind => ?_
  split <;> infer_instance
instance : (accessor deeper selection).Has R l := by
  unfold accessor
  split <;> infer_instance
instance : (designatorWith? deeper).Has R l := by
  unfold designatorWith?
  refine .bind fun name => ?_
  cases name <;> infer_instance
instance : (callWith deeper callee).Has R l := by unfold callWith; infer_instance
variable (deeper) in
theorem has_nameOrCall (d : Option Designator) : Has R l (match d with
    | none => missingExpression
    | some d => do
        if ← nextIs (.mark .openParen) then callWith deeper d else return .name d) := by
  cases d <;> infer_instance
instance : (primaryWith deeper).Has R l := by
  have hname := has_nameOrCall (R := R) (l := l) deeper
  unfold primaryWith
  refine .bind fun t => ?_
  split <;> infer_instance
instance : (unaryWith deeper).Has R l := by
  unfold unaryWith
  refine .bind fun t => ?_
  split <;> infer_instance
instance : (operatorBehind kind).Has R l := by unfold operatorBehind; infer_instance
theorem has_binaryFound (least : Nat) (kind operator : Kind) : Has R l (match operator.level? with
    | none => pure none
    | some level =>
      if least ≤ level.rank then pure
        (some (Continuation.binary operator (operator != kind) level))
      else pure none) := by
  split <;> infer_instance
instance : (continuation? least).Has R l := by
  unfold continuation?
  have hbinary := has_binaryFound (R := R) (l := l) least
  infer_instance
instance {left : Expression} : (continueWith deeper start left continuation).Has R l := by
  unfold continueWith
  split <;> infer_instance
instance : (operandWith deeper least).Has R l := by unfold operandWith; infer_instance

end

/-- Each level of operands has one level less inside it. -/
theorem has_operandAt : (levels least : Nat) → (operandAt levels least).Has R levels
  | 0, _ => ⟨fun s => hR.giveUp 0 s⟩
  | levels + 1, least => by
    have := has_operandAt levels
    exact Has.nestedOr ⟨fun s => hR.giveUp _ s⟩ inferInstance

instance [h : R.Allows levels l] : (operandAt levels least).Has R l :=
  ⟨fun s => h.mono ((has_operandAt levels least).has s)⟩

section

variable [R.Allows levels l]

instance : (expression? levels).Has R l := by unfold expression?; infer_instance
instance : (expectExpression levels).Has R l := by unfold expectExpression; infer_instance
instance : (expressionList levels).Has R l := by unfold expressionList; infer_instance
instance : (designator? levels).Has R l := by unfold designator?; infer_instance
instance : (expectDesignator levels).Has R l := by
  unfold expectDesignator
  refine .bind fun d => ?_
  cases d <;> infer_instance
instance : (designatorList levels).Has R l := by unfold designatorList; infer_instance

end

/-! ## Types -/

instance : expectNumber.Has R l := by unfold expectNumber; infer_instance
instance : sizes.Has R l := by unfold sizes; infer_instance
instance : tableColumn.Has R l := by unfold tableColumn; infer_instance
instance : timeUnit?.Has R l := by
  unfold timeUnit?
  refine .bind fun kind => ?_
  split <;> infer_instance
instance : (timeUnit unit).Has R l := by unfold timeUnit; infer_instance
theorem has_secondUnit (first : String) (second : Option Keyword) : Has R l (match second with
    | some second => do return [first, ← timeUnit second]
    | none => do
      reportNext .expected [Keyword.SECOND.text]
      return [first]) := by
  cases second <;> infer_instance
instance : timeRange.Has R l := by
  unfold timeRange
  refine .bind fun unit => ?_
  have hsecond := has_secondUnit (R := R) (l := l)
  cases unit <;> infer_instance
instance : (dottedName first).Has R l := by unfold dottedName; infer_instance
instance : leafType.Has R l := by
  unfold leafType
  refine .bind fun t => ?_
  dsimp only
  split <;> infer_instance

section

variable {inner : Parser TypeReference} [inner.Has R l]

instance : (variableGroup inner first).Has R l := by unfold variableGroup; infer_instance
instance has_anotherGroup : Has R l (do
    match ← expectName with
    | some name => return some (← variableGroup inner name)
    | none => return none) := .bind fun name => by cases name <;> infer_instance
instance : (variableGroupsAfter inner first).Has R l := by
  unfold variableGroupsAfter; infer_instance
instance : (variableGroups inner).Has R l := by
  unfold variableGroups
  refine .bind fun name => ?_
  cases name <;> infer_instance
instance : fieldFollows.Has R l := by unfold fieldFollows; infer_instance
instance : (recordFields inner).Has R l := by unfold recordFields; infer_instance
instance : (recordType inner).Has R l := by unfold recordType; infer_instance
instance : (dynamicArrayType inner).Has R l := by
  unfold dynamicArrayType
  refine .bind fun _ => .bind fun found => ?_
  dsimp only
  split <;> infer_instance
instance : (staticArrayType inner).Has R l := by
  unfold staticArrayType
  refine .bind fun found => ?_
  dsimp only
  split <;> infer_instance

end

instance has_typeWithin : (depth : Nat) → (typeWithin depth).Has R l
  | 0 => by unfold typeWithin; infer_instance
  | depth + 1 => by
    have := has_typeWithin depth
    unfold typeWithin
    refine .bind fun kind => ?_
    split <;> infer_instance

instance : typeReference.Has R l := ⟨fun s => (has_typeWithin s.left).has s⟩

/-! ## Statements -/

instance : (closeStatement o kind).Has R l := by unfold closeStatement; infer_instance
instance : (headerStop o).Has R l := by unfold headerStop; infer_instance
instance : (closeNode o header kind children).Has R l := by unfold closeNode; infer_instance
instance : (accessOf word).Has R l := by
  unfold accessOf
  split <;> infer_instance

section

variable [R.Allows levels l]

instance : (optionalList levels).Has R l := by unfold optionalList; infer_instance
instance : (listBehind levels k).Has R l := by unfold listBehind; infer_instance
instance : (designatorsBehind levels k).Has R l := by unfold designatorsBehind; infer_instance
instance : (expressionOnLine? levels).Has R l := by unfold expressionOnLine?; infer_instance
instance {follows : Parser Bool} [follows.Has R l] : (expressionBehind levels follows).Has R l := by
  unfold expressionBehind; infer_instance
instance : (assignmentStatement levels o).Has R l := by
  unfold assignmentStatement; dsimp only; infer_instance
instance : (callStatement levels o).Has R l := by
  unfold callStatement
  refine .bind fun callee => ?_
  dsimp only
  split <;> infer_instance
instance : (groupGoesOn state).Has R l := by unfold groupGoesOn; infer_instance
instance : skipGroup.Has R l := by
  have hstep (state : Nat × Bool) : Has R l (do
      match (← last).kind with
      | .mark .openParen => return (state.1 + 1, false)
      | .mark .closeParen => return (state.1 - 1, decide (state.1 ≤ 1))
      | _ => return state) := .bind fun t => by split <;> infer_instance
  unfold skipGroup
  infer_instance
instance : (outputStatement levels word o).Has R l := by
  unfold outputStatement; dsimp only; infer_instance
instance : (sleepStatement levels o).Has R l := by unfold sleepStatement; infer_instance
instance : (setNullStatement levels o).Has R l := by
  unfold setNullStatement; dsimp only; infer_instance
instance : (expectTarget word allowed).Has R l := by
  unfold expectTarget
  refine .bind fun kind => ?_
  split <;> infer_instance
instance : (exitStatement levels o).Has R l := by unfold exitStatement; dsimp only; infer_instance
instance : (continueStatement o).Has R l := by unfold continueStatement; infer_instance
instance : (cursorSource levels).Has R l := by unfold cursorSource; infer_instance
instance : fetchDirection?.Has R l := by
  unfold fetchDirection?
  refine .bind fun kind => ?_
  split <;> infer_instance
instance : (cursorStatement levels word o).Has R l := by
  unfold cursorStatement; dsimp only; infer_instance
instance : wheneverCondition.Has R l := by
  unfold wheneverCondition
  refine .bind fun kind => ?_
  split <;> infer_instance
instance : wheneverTarget.Has R l := by
  unfold wheneverTarget
  refine .bind fun t => .bind fun name => ?_
  cases name <;> infer_instance
instance : wheneverAction.Has R l := by
  unfold wheneverAction
  refine .bind fun kind => ?_
  split <;> infer_instance
instance : (wheneverStatement o).Has R l := by unfold wheneverStatement; infer_instance
instance : (runStatement levels o).Has R l := by unfold runStatement; dsimp only; infer_instance
instance : (menuControlStatement levels word o).Has R l := by
  unfold menuControlStatement; infer_instance
instance : importKind.Has R l := by unfold importKind; infer_instance
instance : (partFollows state).Has R l := by unfold partFollows; infer_instance
instance : (pathTail first).Has R l := by
  have hpart (state : String × Bool) : Has R l (do
      match ← expectNameText with
      | some name => return (state.1 ++ "." ++ name, true)
      | none => return (state.1, false)) := .bind fun name => by cases name <;> infer_instance
  unfold pathTail
  infer_instance
instance : (databaseStatement word o).Has R l := by unfold databaseStatement; infer_instance
instance : parameters.Has R l := by unfold parameters; dsimp only; infer_instance

/-! ## Headers of blocks -/

instance : menuKey.Has R l := by unfold menuKey; infer_instance
instance : menuKeys.Has R l := by unfold menuKeys; infer_instance
instance : (commandClause levels).Has R l := by unfold commandClause; dsimp only; infer_instance
instance : (menuClauseHeader levels first).Has R l := by
  have hword (t : Token) : Has R l (match t.kind with
      | .keyword .ACTION => do return MenuClause.action ((← expectNameText).getD "")
      | .keyword .IDLE => do return .idle (some (← expectExpression levels))
      | _ => return .beforeMenu) := by
    split <;> infer_instance
  unfold menuClauseHeader
  infer_instance
instance : startsCaseClause.Has R l := by unfold startsCaseClause; infer_instance
instance : startsMenuClause.Has R l := by
  unfold startsMenuClause
  refine .bind fun kind => ?_
  split <;> infer_instance
instance : (stopAtEnd? ctx terminator).Has R l := by
  unfold stopAtEnd?
  refine .bind fun kind => ?_
  split <;> infer_instance
instance : (stopAtToken? ctx).Has R l := by unfold stopAtToken?; infer_instance
instance {starts : Parser Bool} [starts.Has R l] : (clauseGuard ctx terminator starts).Has R l := by
  have hstop (errors : Nat) (stop : Option Stop) : Has R l (match stop with
      | some stop => return .inl stop
      | none => return .inr (false, errors) : Parser (Stop ⊕ (Bool × Nat))) := by
    cases stop <;> infer_instance
  unfold clauseGuard
  refine .bind fun stop => ?_
  cases stop <;> infer_instance

end

/-! ## Choosing a statement -/

instance : (applies f first).Has R l := by
  unfold applies
  split
  · infer_instance
  · split <;> infer_instance

instance has_choose : (ps : List Production) → (choose version atLimit first ps).Has R l
  | [] => by unfold choose; infer_instance
  | p :: ps => by
    have : (choose version atLimit first ps).Has R l := has_choose ps
    unfold choose
    infer_instance

instance : (chooseNext version atLimit ps).Has R l := by
  unfold chooseNext
  refine .bind fun kind => ?_
  split <;> infer_instance

end

/-! ## Jumps and ends of blocks -/

section

variable [R.AllowsPhraseReports]

instance : (closeBlock o header k stop).Has R l := by unfold closeBlock; infer_instance
instance : (checkJump ctx n).Has R l := by
  unfold checkJump
  split <;> infer_instance
instance [R.Ignores m] : (skipUnexpected m isFirst).Has R l := by
  unfold skipUnexpected; infer_instance

end

/-! ## Names -/

section

variable [hR : R.AllowsDeclarations]
include hR

theorem has_modifyNames {f : Names → Names} (h : ∀ n, (f n).shapeState = n.shapeState) :
    (modifyNames f).Has R l := ⟨fun s => hR.rename l s _ (h s.names)⟩

instance : (declareName ctx d).Has R l := by
  unfold declareName
  split
  · infer_instance
  next owner _ =>
    refine ⟨fun s => ?_⟩
    rw [run_bind]
    split
    next names hnames =>
      obtain ⟨scope, -, rfl⟩ := Option.map_eq_some_iff.mp hnames
      exact hR.rename l s _ (s.names.shapeState_set rfl)
    next => exact (inferInstance : (report .alreadyDefined _ _).Has R l).has s

instance has_declareAll : (ds : List Declaration) → (declareAll ctx ds).Has R l
  | [] => by unfold declareAll; infer_instance
  | d :: ds => by
    have : (declareAll ctx ds).Has R l := has_declareAll ds
    unfold declareAll
    infer_instance

instance : (variablesStatement word ctx o).Has R l := by unfold variablesStatement; infer_instance
instance [R.Allows levels l] : (constant levels ctx).Has R l := by
  unfold constant
  refine .bind fun name => ?_
  cases name with
  | none => infer_instance
  | some name =>
    refine .bind fun found => ?_
    dsimp only
    split <;> infer_instance
instance [R.Allows levels l] : (constantsStatement levels word ctx o).Has R l := by
  unfold constantsStatement; infer_instance
instance : (typeName ctx).Has R l := by
  unfold typeName
  refine .bind fun name => ?_
  cases name <;> infer_instance
instance : (typesStatement word ctx o).Has R l := by unfold typesStatement; infer_instance

omit hR in
theorem shapeState_bindCursor? {n m : Names} (h : n.bindCursor? owner c = some m) :
    m.shapeState = n.shapeState := by
  unfold Names.bindCursor? at h
  split at h
  · exact Option.some.inj h ▸ rfl
  · obtain ⟨o, -, rfl⟩ := Option.map_eq_some_iff.mp h
    exact n.shapeState_set rfl

instance : (bindCursor ctx name kind).Has R l := by
  unfold bindCursor
  split
  · infer_instance
  · refine ⟨fun s => ?_⟩
    rw [run_bind]
    split
    next names hnames => exact hR.rename l s _ (shapeState_bindCursor? hnames)
    next => exact (inferInstance : (report .cursorRefused _ _).Has R l).has s
instance [R.Allows levels l] : (prepareStatement levels ctx o).Has R l := by
  unfold prepareStatement; dsimp only; infer_instance
instance [R.Allows levels l] : (declareStatement levels ctx o).Has R l := by
  unfold declareStatement; infer_instance
instance : (importStatement o).Has R l := by
  have hnote (path : String) :
      (modifyNames fun n => { n with imports := n.imports ++ [path] }).Has R l :=
    has_modifyNames fun _ => rfl
  unfold importStatement
  refine .bind fun kind => .bind fun name => ?_
  cases name <;> infer_instance
instance has_reportRedeclared : (cs : List Cursor) → (reportRedeclared cs).Has R l
  | [] => by unfold reportRedeclared; infer_instance
  | c :: cs => by
    have := has_reportRedeclared cs
    unfold reportRedeclared
    infer_instance

end

/-! ## Blocks -/

/-- A body has the property, if that does not mind what is said about tokens that start nothing. -/
class BodyHas (R : RunProperty) (l : Nat) (body : BodyParser) : Prop where
  has : ∀ ctx region, R.Ignores region.unexpected → (body ctx region).Has R l

instance {body : BodyParser} [h : ∀ ctx region, (body ctx region).Has R l] : BodyHas R l body :=
  ⟨fun ctx region _ => h ctx region⟩

section

variable [hR : R.IgnoresNames]
include hR

instance (names : Names) : (setNames names).Has R l := ⟨fun s => hR.forget l s names⟩
instance (f : Names → Names) : (modifyNames f).Has R l := by unfold modifyNames; infer_instance

instance [R.Allows levels l] : (returnStatement levels ctx o).Has R l := by
  unfold returnStatement
  refine .bind fun values => ?_
  dsimp only
  split <;> infer_instance

instance {starts : Parser Bool} {clause : List Node → Opening → Parser Node} [starts.Has R l]
    [∀ before o, (clause before o).Has R l] : (clauses ctx terminator starts clause).Has R l := by
  unfold clauses clauseStep
  infer_instance
instance {p : Parser α} [p.Has R l] : (insideCursorLoop cursor p).Has R l := by
  unfold insideCursorLoop; infer_instance
instance {p : Parser α} [p.Has R l] :
    (insideBlock p).Has R l := by unfold insideBlock; infer_instance

section

variable {body : BodyParser} [hbody : BodyHas R l body]

instance : (statementsUpTo body ctx k).Has R l := hbody.has ctx { terminator := _ } inferInstance
instance : (simpleBlock body ctx o k kind).Has R l := by unfold simpleBlock; infer_instance
instance : (branch body ctx k kind o).Has R l := by unfold branch; infer_instance
instance : (secondBranch body ctx k word kind first).Has R l := by
  unfold secondBranch; infer_instance
instance : (branchedBlock body ctx o k word kind branchKind).Has R l := by
  unfold branchedBlock; infer_instance
instance : (tryStatement body ctx o).Has R l := by unfold tryStatement; infer_instance
instance {kind : List Cursor → NodeKind} : (cursorLoop body ctx o cursor kind).Has R l := by
  unfold cursorLoop; infer_instance
instance : (clauseBody body ctx o kind).Has R l := by
  have := hbody.has ctx {} inferInstance
  unfold clauseBody
  infer_instance
instance : (globalsBlock body ctx o).Has R l := by
  have := hbody.has ctx.insideGlobals
    { productions := Production.globalsMembers
      terminator := some (.keyword .GLOBALS) } inferInstance
  unfold globalsBlock
  infer_instance
instance : (globalsMember body ctx o).Has R l := by unfold globalsMember; infer_instance
instance {kind : Holding → NodeKind} :
    (routineBlock body ctx o header k returns kind).Has R l := by
  unfold routineBlock; infer_instance
instance : (mainMember body word ctx o).Has R l := by
  unfold mainMember
  refine .bind fun access => ?_
  dsimp only
  split <;> infer_instance
instance : (functionMember body word ctx o).Has R l := by
  unfold functionMember; dsimp only; infer_instance

variable [R.Allows levels l]

instance : (ifStatement levels body ctx o).Has R l := by unfold ifStatement; infer_instance
instance : (whileStatement levels body ctx o).Has R l := by unfold whileStatement; infer_instance
instance : (forStatement levels body ctx o).Has R l := by
  unfold forStatement; dsimp only; infer_instance
instance : (foreachStatement levels body ctx o).Has R l := by
  unfold foreachStatement; dsimp only; infer_instance
instance : (caseClause levels body ctx before o).Has R l := by
  unfold caseClause; dsimp only; infer_instance
instance : (caseStatement levels body ctx o).Has R l := by unfold caseStatement; infer_instance
instance : (menuClause levels body ctx o).Has R l := by unfold menuClause; infer_instance
instance : (menuBlock levels body ctx o title).Has R l := by
  unfold menuBlock; dsimp only; infer_instance
instance : (menuStatement levels body ctx o).Has R l := by
  unfold menuStatement; dsimp only; infer_instance

instance {form : Form} : (formWith levels body form word ctx o).Has R l := by
  unfold formWith
  split <;> infer_instance

end

/-! ## Bodies -/

omit hR in
/-- Where a token is left to read, giving it up is reading it behind the report. -/
theorem giveUp_eq {s : ParseState} (h : s.input.rest ≠ []) :
    ((operandAt 0 0).run s).2 = (reportLimit.run s).2.read := by
  have hread (t : ParseState) (ht : t.input.rest ≠ []) :
      ParseState.read { t with input := t.input.inspect 1 } = t.read := by
    obtain ⟨l, ls, hrest⟩ := List.exists_cons_of_ne_nil ht
    simp [ParseState.read, Lookahead.advance, Lookahead.inspect, hrest]
  exact hread _ (rest_reportLimit s ▸ h)

theorem has_bodyGuard {atLimit : Bool} {ctx : Context} {region : Region}
    (h : (bodyGuard atLimit ctx region).run s = (found, t)) :
    R l s t ∨ ∃ errors u, found = .inr (.tooDeep, errors) ∧ R l s u ∧
    t = (reportLimit.run u).2 := by
  unfold bodyGuard at h
  obtain ⟨stop, s₁, hend⟩ : ∃ stop s₁, (stopAtEnd? ctx region.terminator).run s =
      (stop, s₁) := ⟨_, _, rfl⟩
  have hs₁ : R l s s₁ := Has.of_run inferInstance hend
  rw [run_bind, hend] at h
  cases stop with
  | some stop => cases h; exact .inl hs₁
  | none =>
    obtain ⟨stop, s₂, htoken⟩ :
        ∃ stop s₂, (stopAtToken? ctx).run s₁ = (stop, s₂) := ⟨_, _, rfl⟩
    have hs₂ : R l s s₂ := hR.trans hs₁ (Has.of_run inferInstance htoken)
    simp only [run_bind, htoken] at h
    cases stop with
    | some stop => cases h; exact .inl hs₂
    | none =>
      obtain ⟨choice, u, hchoice⟩ : ∃ choice u, (chooseNext ctx.version atLimit
        (ctx.extra ++ region.productions)).run s₂ = (choice, u) := ⟨_, _, rfl⟩
      have hu : R l s u := hR.trans hs₂ (Has.of_run inferInstance hchoice)
      have herrors : Parser.errorCount.run s₂ = (s₂.errorCount, s₂) := rfl
      simp only [run_bind, herrors, hchoice] at h
      cases choice with
      | tooDeep => cases h; exact .inr ⟨_, u, rfl, hu, rfl⟩
      | form | unavailable | unexpected => cases h; exact .inl hu

/-- A step of a body has the property if the statement it reads has it one level deeper. -/
theorem has_bodyStep {statement : Option FormParser} {ctx : Context} (region : Region)
    [R.Ignores region.unexpected]
    (hstatement : ∀ parse ∈ statement, ∃ inner, inner + 1 = l ∧
      ∀ f word ctx o, (parse f word ctx o).Has R inner) (p : Progress) (step : Choice × Nat) :
    (bodyStep statement ctx region p step).Has R l := by
  unfold bodyStep
  refine .bind fun token => ?_
  split
  next f word parse _ =>
    obtain ⟨inner, rfl, hparse⟩ := hstatement parse rfl
    have := Has.nested (R := R) (l := inner) (p := do
      let n ← parse f word ctx ⟨token, step.2⟩
      checkJump ctx n
      return n) inferInstance
    infer_instance
  all_goals infer_instance

theorem has_bodyRound {statement : Option FormParser} {ctx : Context} (region : Region)
    [R.Ignores region.unexpected]
    (hstatement : ∀ parse ∈ statement, ∃ inner, inner + 1 = l ∧
      ∀ f word ctx o, (parse f word ctx o).Has R inner) (p : Progress)
    (h : (nestingGuard statement.isNone ctx region).run s = (.inr g, t)) :
    R l s ((bodyStep statement ctx region p g).run t.read).2 := by
  have hrest := (round_of_nestingGuard h).1
  rw [run_nestingGuard] at h
  obtain hguard | ⟨errors, u, hg, hu, rfl⟩ := has_bodyGuard (R := R) (l := l) h
  · have hstep : (bodyStep statement ctx region p g).Has R l := has_bodyStep region hstatement p g
    exact hR.trans hguard (hR.trans (hR.read l t) (hstep.has t.read))
  · cases hg
    rw [rest_reportLimit] at hrest
    have hgive := hR.giveUp l u
    rw [giveUp_eq hrest] at hgive
    exact hR.trans hu hgive

/-- A body has the property if its statements have it one level deeper. -/
theorem has_bodyWith {statement : Option FormParser}
    (hstatement : ∀ parse ∈ statement, ∃ inner, inner + 1 = l ∧
      ∀ f word ctx o, (parse f word ctx o).Has R inner) : BodyHas R l (bodyWith statement) := by
  refine ⟨fun ctx region hregion => ?_⟩
  have hloop : (loop .endOfFile (fun _ => nestingGuard statement.isNone ctx region)
      (bodyStep statement ctx region) {}).Has R l := by
    refine ⟨fun s => ?_⟩
    obtain ⟨p, t, stop, u, hrounds, hrun, hend⟩ :=
      loop_run (R := fun a b => R l a.2 b.2) (fun _ _ _ _ h => (round_of_nestingGuard h).1)
        (fun p _ _ _ h => has_bodyRound region hstatement p h) .endOfFile {} s
    have hends : ∀ a, Relation.ReflTransGen (fun a b => R l a.2 b.2) (({} : Progress), s) a →
        R l s a.2 := by
      intro a ha
      induction ha with
      | refl => exact hR.refl l s
      | tail _ hround ih => exact hR.trans ih hround
    rw [run_nestingGuard] at hend
    obtain hu | ⟨_, _, hfound, -⟩ := has_bodyGuard (R := R) (l := l) hend
    · rw [hrun]
      exact hR.trans (hends _ hrounds) hu
    · cases hfound
  unfold bodyWith
  infer_instance

/-- Bodies have the property where as many levels are left as they may nest. -/
theorem has_bodyAt : (levels : Nat) → BodyHas R levels (bodyAt levels)
  | 0 => has_bodyWith nofun
  | levels + 1 => by
    have := has_bodyAt levels
    refine has_bodyWith ?_
    rintro parse ⟨⟩
    exact ⟨levels, rfl, fun _ _ _ _ => inferInstance⟩

instance [h : R.Allows levels l] : BodyHas R l (bodyAt levels) :=
  ⟨fun ctx region hregion =>
    ⟨fun s => h.mono (((has_bodyAt levels).has ctx region hregion).has s)⟩⟩

/-- A module may nest as deep as the limit allows. -/
theorem has_moduleNode [R.Ignores .unexpectedMember] (version : Version) :
    (moduleNode version).Has R maxNesting := by
  have := (has_bodyAt (R := R) maxNesting).has (.root version)
    { productions := Production.members, unexpected := .unexpectedMember } inferInstance
  unfold moduleNode
  infer_instance

end

end Parser

end FourGL
