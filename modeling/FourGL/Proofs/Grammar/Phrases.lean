import FourGL.Grammar.Expression
import FourGL.Grammar.TypeReference
import FourGL.Proofs.Grammar.Moves

/-!
# Expressions and types

Expressions and types are read carefully, and nothing is reported but that something is missing or
nests too deep. Parsers that take the parser of an operand or of an inner type are covered by what
that parser does, so that the results for whole expressions and types are inductions on the levels
of nesting left.
-/

namespace FourGL.Parser

open ParseState (careful careful_of_ne careful_of_eq kindAt_read tokenAt_read)

variable {M : Set Message}

section

variable (hM : phraseMessages ⊆ M)
include hM

/-! ## Expressions -/

theorem careful_missingExpression : missingExpression.Careful M :=
  .bind (careful_reportNext (hM (by simp [phraseMessages])) _) fun _ =>
    .bind careful_nextStart fun _ => .pure _

section

variable {deeper : Nat → Parser Expression} (hdeeper : ∀ r, (deeper r).Careful M)
include hdeeper

omit hM in
theorem careful_expressionWith? : (expressionWith? deeper).Careful M :=
  .bind careful_peekKind fun _ => .ite (.bind (hdeeper _) fun _ => .pure _) (.pure _)

theorem careful_expectExpressionWith : (expectExpressionWith deeper).Careful M := by
  unfold expectExpressionWith
  refine .bind (careful_expressionWith? hdeeper) fun e => ?_
  cases e with
  | some e => exact .pure _
  | none => exact careful_missingExpression hM

theorem careful_expressionListWith : (expressionListWith deeper).Careful M :=
  careful_commaList (.bind (careful_expectExpressionWith hM hdeeper) fun _ => .pure _)

omit hM hdeeper in
theorem careful_selection? : selection?.Careful M := by
  unfold selection?
  refine .bind careful_peekKind fun kind => ?_
  split
  · exact .bind (careful_peekAt 2) fun _ => .ite (.pure _) (.ite (.pure _) (.pure _))
  · exact .pure _
  · exact .pure _

omit hM hdeeper in
/-- A step goes on behind a dot or an opening bracket. Behind a dot comes an asterisk, a name, or a
keyword on the same line. -/
theorem selection?_found (h : selection?.run s = (some g, t)) :
    (t.kindAt 1 = .mark .dot ∨ t.kindAt 1 = .mark .openBracket) ∧
      (g = .index ∨ t.read ∈ careful) := by
  obtain ⟨kind, u, hpeek, h⟩ := run_of_bind h
  have hkind := kindAt_of_peekKind hpeek
  split at h
  · obtain ⟨second, v, hpeek', h⟩ := run_of_bind h
    have hdot := (((peeks_peekAt 2).of_run hpeek').kindAt 1).trans hkind
    have htoken := tokenAt_of_peekAt hpeek'
    have hread (hline : second.kind = .keyword .END → second.lineBreakBefore = false) :
        v.read ∈ careful := by
      intro hat
      have hend := hat.kind_eq
      have hbegins := hat.beginsLine
      rw [kindAt_read, ParseState.kindAt, htoken] at hend
      rw [tokenAt_read, htoken, hline hend] at hbegins
      cases hbegins
    split at h
    next hall =>
      obtain ⟨-, rfl⟩ := Prod.mk.inj h
      exact ⟨.inl hdot, .inr (hread fun hend => by rw [hall] at hend; cases hend)⟩
    next =>
      split at h
      next hname =>
        obtain ⟨-, rfl⟩ := Prod.mk.inj h
        refine ⟨.inl hdot, .inr (hread fun hend => ?_)⟩
        have hkeyword : (Kind.keyword .END).canBeName = false ∧
            (Kind.keyword .END).isKeyword = true :=
          ⟨rfl, rfl⟩
        simpa [hend, hkeyword] using hname
      next => cases h
  · obtain ⟨hg, rfl⟩ := Prod.mk.inj h
    exact ⟨.inr hkind, .inl (Option.some.inj hg).symm⟩
  · cases h

theorem runs_accessor {selection : Selection} (h : selection = .index ∨ s ∈ careful) :
    (accessor deeper selection).Runs careful M s := by
  cases selection with
  | member | allMembers =>
    exact .bind (.next (h.resolve_left Selection.noConfusion)) fun _ _ _ => .pure _ _
  | index =>
    exact Careful.bind (careful_expressionListWith hM hdeeper) (fun _ =>
      .bind (careful_expect hM _ (by decide)) fun _ => .pure _) s

theorem careful_designatorWith? : (designatorWith? deeper).Careful M := by
  unfold designatorWith?
  refine .bind careful_name? fun name => ?_
  cases name with
  | none => exact .pure _
  | some name =>
    refine .bind (fun s => .whileNext (fun _ => careful_selection?) (fun as s g t h => ?_) _ s)
      fun _ => .bind (careful_spanFrom _) fun _ => .pure _
    obtain ⟨hkind, hread⟩ := selection?_found h
    refine ⟨?_, .bind (runs_accessor hM hdeeper hread) fun _ _ _ => .pure _ _⟩
    obtain hkind | hkind := hkind <;> exact careful_of_eq hkind (by decide)

theorem runs_callWith (callee : Designator) (h : s.kindAt 1 = .mark .openParen) :
    (callWith deeper callee).Runs careful M s := by
  have hclose : ∀ arguments, Careful M (do
      let _ ← expect (.mark .closeParen)
      return Expression.call (← spanFrom callee.span.start) callee arguments) := fun _ =>
    .bind (careful_expect hM _ (by decide)) fun _ => .bind (careful_spanFrom _) fun _ => .pure _
  unfold callWith
  refine .bind (.next (careful_of_eq h (by decide))) fun _ t _ => ?_
  refine .bind (careful_nextIs _ t) fun closed u _ => ?_
  split
  · exact hclose _ u
  · exact .bind (careful_expressionListWith hM hdeeper u) fun _ t _ => hclose _ t

theorem careful_primaryWith : (primaryWith deeper).Careful M := by
  unfold primaryWith
  refine fun s => .bind (careful_peek s) fun a t hpeek => ?_
  have htoken := tokenAt_of_peekAt hpeek
  split
  next hliteral =>
    have hread : t ∈ careful := by
      refine careful_of_ne fun hend => ?_
      rw [ParseState.kindAt, htoken] at hend
      rw [hend] at hliteral
      cases hliteral
    exact .bind (.next hread) fun _ u _ => .bind (careful_spanFrom _ u) fun _ _ _ => .pure _ _
  next =>
    refine .bind (careful_optional _ (by decide) t) fun found u _ => .ite (fun _ => ?_) fun _ => ?_
    · exact Careful.bind (careful_expectExpressionWith hM hdeeper) (fun _ =>
        .bind (careful_expect hM _ (by decide)) fun _ =>
        .bind (careful_spanFrom _) fun _ => .pure _) u
    · refine .bind (careful_designatorWith? hM hdeeper u) fun d v _ => ?_
      cases d with
      | none => exact careful_missingExpression hM v
      | some d =>
        refine .bind (careful_nextIs _ v) fun found w hnext => ?_
        refine .ite (fun hfound => ?_) fun _ => .pure _ _
        rw [hfound] at hnext
        exact runs_callWith hM hdeeper d (kindAt_of_nextIs hnext)

theorem careful_unaryWith : (unaryWith deeper).Careful M := by
  unfold unaryWith
  refine fun s => .bind (careful_peek s) fun a t hpeek => ?_
  have htoken := tokenAt_of_peekAt hpeek
  split
  next => exact careful_primaryWith hM hdeeper t
  next hrank =>
    have hunary : ∀ operand, Careful M (do
        return Expression.unary (← spanFrom a.start) a.kind operand) := fun _ =>
      .bind (careful_spanFrom _) fun _ => .pure _
    have hread : t ∈ careful := by
      refine careful_of_ne fun hend => ?_
      rw [ParseState.kindAt, htoken] at hend
      rw [hend] at hrank
      cases hrank
    refine .bind (.next hread) fun _ u _ => .bind (careful_peekKind u) fun kind v _ => ?_
    split
    · exact .bind (hdeeper _ v) fun _ w _ => hunary _ w
    · exact .bind (careful_missingExpression hM v) fun _ w _ => hunary _ w

omit hM hdeeper in
theorem careful_operatorBehind (kind : Kind) : (operatorBehind kind).Careful M :=
  .ite (.bind (careful_peekAt 2) fun _ => .ite (.pure _) (.pure _)) (.pure _)

omit hM hdeeper in
theorem careful_continuation? (least : Nat) : (continuation? least).Careful M := by
  unfold continuation?
  refine .bind careful_peekKind fun kind => .ite (.pure _) (.ite (.pure _) ?_)
  refine .bind (careful_operatorBehind kind) fun operator => ?_
  split
  · exact .pure _
  · exact .ite (.pure _) (.pure _)

omit hM hdeeper in
/-- The operator is the next token, or it stands behind a NOT. -/
theorem operatorBehind_found (h : (operatorBehind kind).run s = (operator, t))
    (hkind : s.kindAt 1 = kind) :
    t.kindAt 1 = kind ∧
      (operator = kind ∨ kind = .keyword .NOT ∧ t.kindAt 2 ≠ .keyword .END) := by
  unfold operatorBehind at h
  split at h
  next hnot =>
    obtain ⟨second, u, hpeek, h⟩ := run_of_bind h
    have htoken : u.kindAt 2 = second.kind := congrArg Token.kind (tokenAt_of_peekAt hpeek)
    have hkind' := (((peeks_peekAt 2).of_run hpeek).kindAt 1).trans hkind
    split at h
    next hsecond =>
      obtain ⟨-, rfl⟩ := Prod.mk.inj h
      refine ⟨hkind', .inr ⟨hnot, ?_⟩⟩
      obtain hsecond | hsecond := hsecond <;> rw [htoken, hsecond] <;> decide
    next =>
      obtain ⟨rfl, rfl⟩ := Prod.mk.inj h
      exact ⟨hkind', .inl rfl⟩
  next =>
    obtain ⟨rfl, rfl⟩ := Prod.mk.inj h
    exact ⟨hkind, .inl rfl⟩

omit hM hdeeper in
/-- An expression goes on with an operator, and a negated one stands behind the next token. -/
theorem continuation?_found (h : (continuation? least).run s = (some c, t)) :
    (t.kindAt 1 ≠ .keyword .END ∧ t.kindAt 1 ≠ .endOfFile) ∧
      ∀ operator level, c = .binary operator true level → t.kindAt 2 ≠ .keyword .END := by
  obtain ⟨kind, u, hpeek, h⟩ := run_of_bind h
  have hkind := kindAt_of_peekKind hpeek
  split at h
  next his =>
    cases h
    rw [hkind, his.1]
    exact ⟨⟨by decide, by decide⟩, fun _ _ => Continuation.noConfusion⟩
  next =>
    split at h
    next hclipped =>
      cases h
      rw [hkind, hclipped.1]
      exact ⟨⟨by decide, by decide⟩, fun _ _ => Continuation.noConfusion⟩
    next =>
      obtain ⟨operator, v, hoperator, h⟩ := run_of_bind h
      obtain ⟨hkind, hfound⟩ := operatorBehind_found hoperator hkind
      split at h
      next => cases h
      next level hlevel =>
        split at h
        next =>
          cases h
          rw [hkind]
          obtain rfl | ⟨rfl, hsecond⟩ := hfound
          · refine ⟨⟨?_, ?_⟩, fun _ _ hbinary => by simp at hbinary⟩ <;>
            · rintro rfl
              cases hlevel
          · exact ⟨⟨by decide, by decide⟩, fun _ _ _ => hsecond⟩
        next => cases h

theorem runs_continueWith (start : Nat) (left : Expression) {c : Continuation}
    (h : ∀ operator level, c = .binary operator true level → s.kindAt 1 ≠ .keyword .END) :
    (continueWith deeper start left c).Runs careful M s := by
  cases c with
  | isNull =>
    exact Careful.bind (careful_optional _ (by decide)) (fun _ =>
      .bind (careful_expect hM _ (by decide)) fun _ =>
      .bind (careful_spanFrom _) fun _ => .pure _) s
  | clipped => exact Careful.bind (careful_spanFrom _) (fun _ => .pure _) s
  | binary operator negated level =>
    have hright : Careful M (do
        let right ← deeper (rightRank operator level)
        return Expression.binary (← spanFrom start) left operator negated right) :=
      .bind (hdeeper _) fun _ => .bind (careful_spanFrom _) fun _ => .pure _
    unfold continueWith
    dsimp only
    split
    next hnegated =>
      exact .bind (.next (careful_of_ne (h _ _ (by rw [hnegated])))) fun _ t _ => hright t
    next => exact hright s

end

/-- Any token is given up, but only behind the report that the text nests too deep. -/
theorem careful_giveUp : (do reportLimit; giveUp : Parser Expression).Careful M := by
  intro s
  refine .bind (careful_reportLimit hM s) fun _ t hlimit => ?_
  have hreported : t.limitReported = true := by
    have h := limitReported_reportLimit s
    rwa [hlimit] at h
  refine .bind (careful_nextStart t) fun _ u hstart => ?_
  obtain ⟨-, rfl⟩ := Prod.mk.inj hstart
  refine .bind (.next fun _ => hreported) fun _ v _ => ?_
  exact .bind (careful_spanFrom _ v) fun _ _ _ => .pure _ _

theorem careful_operandAt (levels least : Nat) : (operandAt levels least).Careful M := by
  induction levels generalizing least with
  | zero => exact careful_giveUp hM
  | succ levels ih =>
    refine careful_nestedOr (careful_giveUp hM) (.bind careful_nextStart fun start =>
      .bind (careful_unaryWith hM ih) fun _ s =>
        .whileNext (fun _ => careful_continuation? least) (fun left s c t h => ?_) _ s)
    obtain ⟨⟨hend, -⟩, hsecond⟩ := continuation?_found h
    refine ⟨careful_of_ne hend, runs_continueWith hM ih start left fun operator level hc => ?_⟩
    rw [kindAt_read]
    exact hsecond operator level hc

omit hM in
/-- An expression is read one level deeper, unless the limit of nesting is reached. -/
theorem run_operandAt_of_limitReported
    (h : ((operandAt levels least).run s).2.limitReported = false) :
    ∃ l, levels = l + 1 ∧
      (operandAt levels least).run s = (nested (operandWith (operandAt l) least)).run s := by
  obtain hrun | ⟨-, hread⟩ := run_operandAt levels least s
  · have hreported : ((operandAt 0 least).run s).2.limitReported = true :=
      limitReported_reportLimit s
    rw [hrun, hreported] at h
    cases h
  · exact hread

theorem careful_expression? (levels : Nat) : (expression? levels).Careful M :=
  careful_expressionWith? (careful_operandAt hM levels)

theorem careful_expectExpression (levels : Nat) : (expectExpression levels).Careful M :=
  careful_expectExpressionWith hM (careful_operandAt hM levels)

theorem careful_expressionList (levels : Nat) : (expressionList levels).Careful M :=
  careful_expressionListWith hM (careful_operandAt hM levels)

theorem careful_designator? (levels : Nat) : (designator? levels).Careful M :=
  careful_designatorWith? hM (careful_operandAt hM levels)

theorem careful_expectDesignator (levels : Nat) : (expectDesignator levels).Careful M := by
  unfold expectDesignator
  refine .bind (careful_designator? hM levels) fun d => ?_
  cases d with
  | some d => exact .pure _
  | none => exact .bind (careful_reportNext (hM (by simp [phraseMessages])) _) fun _ => .pure _

theorem careful_designatorList (levels : Nat) : (designatorList levels).Careful M :=
  careful_commaList (careful_expectDesignator hM levels)

end

/-! ## Types -/

/-- What can be said about types. -/
def typeMessages : Set Message := insert .typeExpected phraseMessages

section

variable (hM : typeMessages ⊆ M)
include hM

theorem phraseMessages_subset_of_typeMessages : phraseMessages ⊆ M :=
  (Set.subset_insert ..).trans hM

theorem careful_expectType : Careful M (do
    reportNext .typeExpected []
    return TypeReference.missing) :=
  .bind (careful_reportNext (hM (Set.mem_insert ..)) _) fun _ => .pure _

theorem careful_expectNumber : expectNumber.Careful M :=
  have hphrase := phraseMessages_subset_of_typeMessages hM
  .bind (careful_expect hphrase _ (by decide)) fun _ =>
    .ite (.bind careful_last fun _ => .pure _) (.pure _)

theorem careful_sizes : sizes.Careful M :=
  have hphrase := phraseMessages_subset_of_typeMessages hM
  .bind (careful_optional _ (by decide)) fun _ => .ite
    (.bind (careful_commaList (careful_expectNumber hM)) fun _ =>
      .bind (careful_expect hphrase _ (by decide)) fun _ => .pure _)
    (.pure _)

theorem careful_tableColumn : tableColumn.Careful M :=
  have hphrase := phraseMessages_subset_of_typeMessages hM
  .bind (careful_expectNameText hphrase) fun _ =>
    .bind (careful_expect hphrase _ (by decide)) fun _ => .ite
    (.bind (careful_optional _ (by decide)) fun _ => .ite (.pure _)
      (.bind (careful_expectNameText hphrase) fun _ => .pure _))
    (.pure _)

omit hM in
theorem careful_timeUnit? : timeUnit?.Careful M := by
  unfold timeUnit?
  refine .bind careful_peekKind fun kind => ?_
  split
  · exact .ite (.pure _) (.pure _)
  · exact .pure _

omit hM in
theorem timeUnit?_found (h : timeUnit?.run s = (some unit, t)) : t ∈ careful := by
  obtain ⟨kind, u, hpeek, h⟩ := run_of_bind h
  have hkind := kindAt_of_peekKind hpeek
  split at h
  next k =>
    split at h
    next hunit =>
      obtain ⟨-, rfl⟩ := Prod.mk.inj h
      refine careful_of_eq hkind ?_
      rintro ⟨⟩
      cases hunit
    next => cases h
  next => cases h

theorem runs_timeUnit (unit : Keyword) (h : s ∈ careful) : (timeUnit unit).Runs careful M s :=
  have hphrase := phraseMessages_subset_of_typeMessages hM
  .bind (.next h) fun _ t _ => Careful.bind (careful_optional _ (by decide)) (fun _ => .ite
    (.bind (careful_expectNumber hM) fun _ =>
      .bind (careful_expect hphrase _ (by decide)) fun _ => .pure _)
    (.pure _)) t

theorem careful_timeRange : timeRange.Careful M := by
  have hphrase := phraseMessages_subset_of_typeMessages hM
  unfold timeRange
  refine fun s => .bind (careful_timeUnit? s) fun first t hfirst => ?_
  cases first with
  | none => exact .pure _ _
  | some first =>
    refine .bind (runs_timeUnit hM first (timeUnit?_found hfirst)) fun _ u _ =>
      .bind (careful_expect hphrase _ (by decide) u) fun _ v _ =>
      .ite (fun _ => ?_) fun _ => .pure _ _
    refine .bind (careful_timeUnit? v) fun second w hsecond => ?_
    cases second with
    | some second =>
      exact .bind (runs_timeUnit hM second (timeUnit?_found hsecond)) fun _ _ _ => .pure _ _
    | none =>
      exact Careful.bind (careful_reportNext (hphrase (by simp [phraseMessages])) _)
        (fun _ => .pure _) w

omit hM in
/-- Where a name follows a mark, both are read. -/
theorem careful_of_nextBeforeName {m : Mark}
    (h : (when (nextBeforeName (.mark m))).run s = (some u, t)) :
    t ∈ careful ∧ t.read ∈ careful := by
  obtain ⟨hmark, hname⟩ := kindAt_of_nextBeforeName (run_of_when h)
  refine ⟨careful_of_eq hmark Kind.noConfusion, careful_of_ne ?_⟩
  rw [kindAt_read]
  exact (ne_of_canBeName hname).1

omit hM in
theorem careful_dottedName (first : String) : (dottedName first).Careful M := by
  refine fun s => .whileNext (fun _ => careful_when (careful_nextBeforeName _))
    (fun _ _ _ _ h => ?_) _ s
  obtain ⟨hdot, hname⟩ := careful_of_nextBeforeName h
  exact ⟨hdot, .bind (.next hname) fun _ _ _ => .pure _ _⟩

theorem careful_leafType : leafType.Careful M := by
  have hown {t : ParseState} (text : String) (ht : t ∈ careful) : Runs careful M (do
      let _ ← next
      return TypeReference.named (← dottedName text) []) t :=
    .bind (.next ht) fun _ u _ => Careful.bind (careful_dottedName text) (fun _ => .pure _) u
  have hnamed {t : ParseState} (k : Keyword) {arguments : Parser (List String)}
      (h : arguments.Careful M) (ht : t ∈ careful) : Runs careful M (do
        let _ ← next
        return TypeReference.named k.text (← arguments)) t :=
    .bind (.next ht) fun _ u _ => Careful.bind h (fun _ => .pure _) u
  unfold leafType
  refine fun s => .bind (careful_peek s) fun a t hpeek => ?_
  have hkind : t.kindAt 1 = a.kind := congrArg Token.kind (tokenAt_of_peekAt hpeek)
  dsimp only
  split
  next k hk =>
    rw [hk] at hkind
    have hread (hne : k ≠ .END) : t ∈ careful :=
      careful_of_eq hkind fun hend => hne (Kind.keyword.inj hend)
    refine .ite (fun h => ?_) fun _ => .ite (fun h => ?_) fun _ => .ite (fun h => ?_) fun _ =>
      .ite (fun h => ?_) fun _ => .ite (fun _ => careful_expectType hM t) fun h => ?_
    · refine .bind (.next (hread (by rw [h]; decide))) fun _ u _ => ?_
      exact Careful.bind (careful_tableColumn hM) (fun _ => .pure _) u
    · exact hnamed _ (careful_sizes hM) (hread (by rintro rfl; cases h))
    · exact hnamed _ (careful_timeRange hM) (hread (by rintro rfl; simp at h))
    · exact hnamed _ (.pure _) (hread (by rintro rfl; cases h))
    · exact hown _ (hread (by rintro rfl; exact h rfl))
  next hk => exact hown _ (careful_of_eq (hkind.trans hk) (by decide))
  next => exact careful_expectType hM t

section

variable {inner : Parser TypeReference} (hinner : inner.Careful M)
include hinner

omit hM in
theorem careful_variableGroup (first : String × Span) : (variableGroup inner first).Careful M := by
  refine .bind (fun s => .whileNext (fun _ => careful_when (careful_nextBeforeName _))
    (fun _ _ _ _ h => ?_) _ s) fun _ => .bind hinner fun _ => .pure _
  obtain ⟨hcomma, hname⟩ := careful_of_nextBeforeName h
  exact ⟨hcomma, .bind (.next hname) fun _ _ _ => .pure _ _⟩

theorem careful_variableGroupsAfter (first : String × Span) :
    (variableGroupsAfter inner first).Careful M := by
  have hphrase := phraseMessages_subset_of_typeMessages hM
  unfold variableGroupsAfter
  refine .bind (careful_variableGroup hinner first) fun group =>
    .bind (careful_commaTail (.bind (careful_expectName hphrase) fun name => ?_) _) fun _ => .pure _
  cases name with
  | none => exact .pure _
  | some name => exact .bind (careful_variableGroup hinner name) fun _ => .pure _

theorem careful_variableGroups : (variableGroups inner).Careful M := by
  unfold variableGroups
  refine .bind (careful_expectName (phraseMessages_subset_of_typeMessages hM)) fun name => ?_
  cases name with
  | none => exact .pure _
  | some name => exact careful_variableGroupsAfter hM hinner name

omit hM hinner in
theorem careful_fieldFollows : fieldFollows.Careful M :=
  .bind (careful_nextAre _ _) fun _ => .ite (.pure _)
    (.bind careful_peekKind fun _ => .ite (.pure _) (.pure _))

omit hM hinner in
theorem fieldFollows_found (h : fieldFollows.run s = (found, t)) :
    (found = .inr () → (t.kindAt 1).canBeName = true) ∧
      (found = .inl true → t.kindAt 1 = .keyword .END ∧ t.kindAt 2 = .keyword .RECORD) := by
  obtain ⟨closed, u, hend, h⟩ := run_of_bind h
  split at h
  next hclosed =>
    cases h
    exact ⟨nofun, fun _ => kindAt_of_nextAre (hclosed ▸ hend)⟩
  next =>
    obtain ⟨kind, v, hpeek, h⟩ := run_of_bind h
    split at h
    next hname =>
      cases h
      exact ⟨fun _ => kindAt_of_peekKind hpeek ▸ hname, nofun⟩
    next =>
      cases h
      exact ⟨nofun, nofun⟩

theorem careful_recordFields : (recordFields inner).Careful M := by
  have hphrase := phraseMessages_subset_of_typeMessages hM
  have hname {s t : ParseState} {g : Unit} (h : fieldFollows.run s = (.inr g, t)) :
      (t.kindAt 1).canBeName = true := (fieldFollows_found h).1 rfl
  unfold recordFields
  refine fun s => .bind (.loop (fun _ => careful_fieldFollows)
    (fun _ _ _ t h => ⟨?_, ?_⟩) _ _ s)
    fun result t hloop => .ite (fun hclosed => ?_) fun _ => ?_
  · exact careful_of_ne (ne_of_canBeName (hname h)).1
  · exact Careful.bind careful_last (fun a =>
      .bind (careful_variableGroupsAfter hM hinner (a.text, a.span)) fun _ => .pure _) _
  · -- The loop has stopped before END RECORD.
    obtain ⟨_, _, b, u, -, hrun, hstop⟩ := loop_run (R := fun _ _ => True)
      (fun _ _ _ _ h => ParseState.rest_ne_nil (ne_of_canBeName (hname h)).2)
      (fun _ _ _ _ _ => trivial) _ _ s
    obtain ⟨rfl, rfl⟩ := Prod.mk.inj (hrun.symm.trans hloop)
    obtain ⟨-, hrecord⟩ := (fieldFollows_found hstop).2 (congrArg Sum.inl hclosed)
    refine .bind (.next fun hat => absurd hrecord hat.ne_record) fun _ v hread => ?_
    obtain ⟨-, rfl⟩ := Prod.mk.inj hread
    have hread := careful_of_eq ((kindAt_read _ 0).trans hrecord) (by decide)
    exact .bind (.next hread) fun _ _ _ => .pure _ _
  · exact Careful.bind (careful_reportNext (hphrase (by simp [phraseMessages])) _)
      (fun _ => .pure _) t

theorem careful_recordType : (recordType inner).Careful M :=
  .bind (careful_optional _ (by decide)) fun _ =>
    .ite (.bind (careful_tableColumn hM) fun _ => .pure _)
    (.bind (careful_recordFields hM hinner) fun _ => .pure _)

theorem careful_dynamicArrayType : (dynamicArrayType inner).Careful M := by
  have hphrase := phraseMessages_subset_of_typeMessages hM
  have hof : ∀ dimension : Option String, Careful M (do
      let _ ← expect (.keyword .OF)
      return TypeReference.array true dimension.toList (← inner)) := fun _ =>
    .bind (careful_expect hphrase _ (by decide)) fun _ => .bind hinner fun _ => .pure _
  unfold dynamicArrayType
  refine .bind (careful_expect hphrase _ (by decide)) fun _ => ?_
  refine .bind (careful_optional _ (by decide)) fun _ => ?_
  split
  · exact .bind (careful_expect hphrase _ (by decide)) fun _ => .bind (careful_expectNumber hM) hof
  · exact hof _

theorem careful_staticArrayType : (staticArrayType inner).Careful M := by
  have hphrase := phraseMessages_subset_of_typeMessages hM
  have hof : ∀ dimensions : List (Option String), Careful M (do
      let _ ← expect (.keyword .OF)
      return TypeReference.array false (dimensions.filterMap id) (← inner)) := fun _ =>
    .bind (careful_expect hphrase _ (by decide)) fun _ => .bind hinner fun _ => .pure _
  unfold staticArrayType
  refine .bind (careful_expect hphrase _ (by decide)) fun _ => ?_
  split
  · refine .bind (careful_commaList (.bind (careful_expectNumber hM) fun _ => .pure _)) fun _ => ?_
    exact .bind (careful_expect hphrase _ (by decide)) fun _ => hof _
  · exact hof _

end

theorem careful_typeWithin (depth : Nat) : (typeWithin depth).Careful M := by
  induction depth with
  | zero => exact careful_leafType hM
  | succ depth ih =>
    unfold typeWithin
    refine fun s => .bind (careful_peekKind s) fun kind t hpeek => ?_
    have hkind := kindAt_of_peekKind hpeek
    split
    · exact .bind (.next (careful_of_eq hkind (by decide))) fun _ u _ =>
        careful_recordType hM ih u
    · exact .bind (.next (careful_of_eq hkind (by decide))) fun _ u _ =>
        careful_dynamicArrayType hM ih u
    · exact .bind (.next (careful_of_eq hkind (by decide))) fun _ u _ =>
        careful_staticArrayType hM ih u
    · exact careful_leafType hM t

theorem careful_typeReference : typeReference.Careful M := fun s => careful_typeWithin hM s.left s

end

end FourGL.Parser
