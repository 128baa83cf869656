import FourGL.Proofs.Grammar.Mirroring
import FourGL.Proofs.Grammar.Operands

/-!
# Phrases in a larger text

Expressions and types that are read without an error are read from the larger text as well, further
to the right. An expression needs no more levels of nesting there, because the limit is not reached.
-/

namespace FourGL

open FourGL.Parser FourGL.ParseState

variable {k : Nat}

/-- There is a token in every expression. -/
theorem Expression.Fits.exists_text {e : Expression} (h : e.Fits T levels least) :
    ∃ kind text, kind ≠ .endOfFile ∧ T kind text := by
  induction levels generalizing least e with
  | zero => exact h.elim
  | succ levels ih =>
    have hdesignator {d : Designator} (hd : d.Fits T (Expression.Fits T levels)) :
        ∃ kind text, kind ≠ .endOfFile ∧ T kind text := by
      obtain ⟨kind, hkind, htext⟩ := hd.name
      exact ⟨kind, d.name, (ne_of_canBeName hkind).2, htext⟩
    have hchain : e.Chain T (Expression.Fits T levels) least := h
    clear h
    induction hchain with
    | signed h =>
      cases h with
      | primary h =>
        cases h with
        | literal hkind htext =>
          refine ⟨_, _, ?_, htext⟩
          rintro rfl
          cases hkind
        | parenthesized hinner => exact ih hinner
        | name hname => exact hdesignator hname
        | call hcallee => exact hdesignator hcallee
      | unary _ hoperand => exact ih hoperand
    | isNull _ _ _ ih => exact ih
    | clipped _ _ _ ih => exact ih
    | binary _ _ _ _ _ _ ih => exact ih

namespace Parser

set_option synthInstance.maxSize 512

/-! ## Expressions -/

/-- How many tokens are sure to come behind the first one of a step. -/
def Selection.behind : Selection → Nat
  | .member | .allMembers => 1
  | .index => 0

theorem mirrors_selection? : Mirrors k true 0 (Option.map id) selection? selection? := by
  refine .peekKind (fun c _ => ?_) (.pure rfl)
  split
  · refine .second (fun t u hmoved hline _ => ?_) fun t u hkind hkind' hline => ?_
    · rw [hmoved.kind_eq, hline]
      exact .ite (.pure rfl) (.ite (.pure rfl) (.pure rfl))
    · rw [hkind, hkind', hline]
      exact .pure rfl
  · exact .pure rfl
  · exact .pure rfl

theorem selection?_ahead (h : selection?.run s = (some selection, t)) :
    t.kindAt 1 ≠ .endOfFile ∧ ∀ {u}, Mirrored k b t u → selection.behind + 1 < t.left := by
  have hlook : Looks s t := peeks_selection?.of_run h
  have hstands := selection?_stands h
  have hfirst : t.kindAt 1 ≠ .endOfFile := by
    rw [hlook.kindAt]
    cases selection with
    | member | allMembers => rw [hstands.1]; exact Kind.noConfusion
    | index => rw [show s.kindAt 1 = _ from hstands]; exact Kind.noConfusion
  refine ⟨hfirst, fun hmirrored => ?_⟩
  cases selection with
  | index => exact hmirrored.lt_left hfirst
  | member =>
    refine hmirrored.lt_left_of_second fun hend => ?_
    have hsecond := hstands.2
    rw [← hlook.kindAt, hend] at hsecond
    cases hsecond
  | allMembers =>
    refine hmirrored.lt_left_of_second ?_
    rw [hlook.kindAt, hstands.2]
    exact Kind.noConfusion

theorem mirrors_operatorBehind (c : Kind) :
    Mirrors k true 1 id (operatorBehind c) (operatorBehind c) := by
  refine .ite (.second (fun t u hmoved _ _ => ?_) fun t u hkind hkind' _ => ?_) (.pure rfl)
  · rw [hmoved.kind_eq]
    exact .ite (.pure rfl) (.pure rfl)
  · rw [hkind, hkind']
    exact .pure rfl

theorem mirrors_continuation? (least : Nat) :
    Mirrors k true 0 (Option.map id) (continuation? least) (continuation? least) := by
  refine .peekKind (fun c _ => .ite (.pure rfl) (.ite (.pure rfl) ?_)) (.pure rfl)
  have hflows := has_binaryFound (R := flowing) (l := 0) least
  refine .past (mirrors_operatorBehind c) fun operator => ?_
  cases operator.level? with
  | none => exact .pure rfl
  | some level => exact .ite (.pure rfl) (.pure rfl)

/-- How many tokens are sure to come behind the first one of a continuation. -/
def Continuation.behind : Continuation → Nat
  | .binary _ true _ => 1
  | _ => 0

theorem continuation?_ahead (h : (continuation? least).run s = (some c, t)) :
    t.kindAt 1 ≠ .endOfFile ∧ ∀ {u}, Mirrored k b t u → c.behind + 1 < t.left := by
  have hfirst := (continuation?_found h).1.2
  refine ⟨hfirst, fun hmirrored => ?_⟩
  obtain ⟨t', hlook, hrun⟩ := continuation?_run least s
  obtain ⟨heq, rfl⟩ := Prod.mk.inj (hrun.symm.trans h)
  have hahead : s.ahead = some c := (Option.filter_eq_some_iff.mp heq).1
  obtain _ | _ | ⟨operator, negated, level⟩ := c
  · exact hmirrored.lt_left hfirst
  · exact hmirrored.lt_left hfirst
  · cases negated with
    | false => exact hmirrored.lt_left hfirst
    | true =>
      refine hmirrored.lt_left_of_second ?_
      obtain h | h := (binary_of_ahead hahead).2 rfl
      all_goals
        rw [hlook.kindAt, (kindAt_of_binary hahead).2, h]
        exact Kind.noConfusion

/-- Where an expression is missing nothing has to be shown. -/
theorem Mirrors.missing {f : Expression → Parser α} {q : Parser β}
    [F : ∀ a, (f a).Flows] :
    Mirrors k b n σ (missingExpression >>= f) q := by
  refine .of_not_clean fun s a t h => ?_
  obtain ⟨_, _, hmissing, -⟩ := h.bind
  exact Clean.not_missingExpression hmissing

section

variable {deeper deeper' : Nat → Parser Expression}
  (h : ∀ rank, Mirrors k true 0 (·.shift k) (deeper rank) (deeper' rank))
  [∀ rank, (deeper rank).Flows]
include h

theorem mirrors_expressionWith? :
    Mirrors k true 0 (Option.map (·.shift k)) (expressionWith? deeper) (expressionWith? deeper') :=
  .peekKind (fun _ _ => .ite (((h _).mono (Nat.zero_le 1)).bind fun _ => .pure rfl) (.pure rfl))
    (.pure rfl)

theorem mirrors_expectExpressionWith :
    Mirrors k true 0 (·.shift k) (expectExpressionWith deeper) (expectExpressionWith deeper') :=
  .found (mirrors_expressionWith? h) (fun _ => .pure rfl)
    (.of_not_clean fun _ _ _ => Clean.not_missingExpression)

variable [∀ rank, (deeper' rank).Flows]

theorem mirrors_expressionListWith :
    Mirrors k true 0 (List.map (·.shift k)) (expressionListWith deeper)
      (expressionListWith deeper') :=
  mirrors_commaList (.bind (mirrors_expectExpressionWith h) fun _ => .pure rfl)

theorem mirrors_accessor (selection : Selection) :
    Mirrors k true selection.behind (·.shift k) (accessor deeper selection)
      (accessor deeper' selection) := by
  cases selection with
  | member => exact .next fun _ _ hmoved => .pure (by rw [hmoved.text_eq]; rfl)
  | allMembers => exact .next fun _ _ _ => .pure rfl
  | index =>
    exact .bind (mirrors_expressionListWith h) fun indices => .expect (by decide) (.pure (by
      rw [Accessor.shift, shiftExpressions_eq_map]))

theorem mirrors_designatorWith? :
    Mirrors k true 0 (Option.map (·.shift k)) (designatorWith? deeper)
      (designatorWith? deeper') := by
  refine .found mirrors_name? (fun name => ?_) (.pure rfl)
  refine .bind (.whileNext (φ := List.map (·.shift k)) (ω := id) Selection.behind
    (fun _ => mirrors_selection?) selection?_ahead (fun accessors selection => ?_) [])
    fun accessors => .bind (mirrors_spanFrom name.2.start) fun span => .pure ?_
  · exact .bind (mirrors_accessor h selection) fun _ => .pure (by simp)
  · simp [Designator.shift, shiftAccessors_eq_map]

theorem mirrors_callWith (callee : Designator) :
    Mirrors k true 1 (·.shift k) (callWith deeper callee) (callWith deeper' (callee.shift k)) := by
  have hclose (arguments : List Expression) : Mirrors k true 0 (Expression.shift k)
      (do let _ ← expect (.mark .closeParen)
          return .call (← spanFrom callee.span.start) callee arguments)
      (do let _ ← expect (.mark .closeParen)
          return .call (← spanFrom (callee.shift k).span.start) (callee.shift k)
            (arguments.map (·.shift k))) := by
    obtain ⟨stretch, name, accessors⟩ := callee
    refine .expect (by decide) (.bind (mirrors_spanFrom stretch.start) fun span => .pure ?_)
    rw [Expression.shift, shiftExpressions_eq_map]
  refine .next fun _ _ _ => .ifNext (by decide) ?_ (.bind (mirrors_expressionListWith h) hclose)
  exact (hclose []).mono (Nat.zero_le 1)

theorem mirrors_primaryWith :
    Mirrors k true 1 (·.shift k) (primaryWith deeper) (primaryWith deeper') := by
  have hflows := has_nameOrCall (R := flowing) (l := 0) deeper
  have hflows' := has_nameOrCall (R := flowing) (l := 0) deeper'
  refine .peekNext fun t u hmoved _ hkind => ?_
  rw [hmoved.kind_eq, hmoved.text_eq, hmoved.start_eq]
  split
  · exact .next fun _ _ _ => .bind (mirrors_spanFrom t.start) fun _ => .pure rfl
  · refine .mono (.past (mirrors_optional (by decide)) fun opened => .ite ?_ ?_) (Nat.zero_le 1)
    · exact .bind (mirrors_expectExpressionWith h) fun _ => .expect (by decide)
        (.bind (mirrors_spanFrom t.start) fun _ => .pure rfl)
    · exact .found (mirrors_designatorWith? h)
        (fun d => .ifNext (by decide) (mirrors_callWith h d) (.pure rfl))
        (.of_not_clean fun _ _ _ => Clean.not_missingExpression)

theorem mirrors_unaryWith :
    Mirrors k true 1 (·.shift k) (unaryWith deeper) (unaryWith deeper') := by
  refine .peekNext fun t u hmoved _ hkind => ?_
  rw [hmoved.kind_eq, hmoved.start_eq]
  split
  · exact mirrors_primaryWith h
  next rank _ =>
    have hclose (operand : Expression) : Mirrors k true 0 (Expression.shift k)
        (do return .unary (← spanFrom t.start) t.kind operand)
        (do return .unary (← spanFrom (t.start + k)) t.kind (operand.shift k)) :=
      .bind (mirrors_spanFrom t.start) fun _ => .pure rfl
    exact .next fun _ _ _ => .peekKind
      (fun c _ => .ite (.mono (.bind (h rank) hclose) (Nat.zero_le 1)) .missing) .missing

omit [∀ rank, (deeper' rank).Flows] in
theorem mirrors_continueWith (start : Nat) (left : Expression) (c : Continuation) :
    Mirrors k true c.behind (·.shift k) (continueWith deeper start left c)
      (continueWith deeper' (start + k) (left.shift k) c) := by
  cases c with
  | isNull =>
    exact .past (mirrors_optional (by decide)) fun _ =>
      .expect (by decide) (.bind (mirrors_spanFrom start) fun _ => .pure rfl)
  | clipped => exact .bind (mirrors_spanFrom start) fun _ => .pure rfl
  | binary operator negated level =>
    have hright : Mirrors k true 0 (Expression.shift k)
        (do let right ← deeper (rightRank operator level)
            return .binary (← spanFrom start) left operator negated right)
        (do let right ← deeper' (rightRank operator level)
            return .binary (← spanFrom (start + k)) (left.shift k) operator negated right) :=
      .bind (h _) fun _ => .bind (mirrors_spanFrom start) fun _ => .pure rfl
    cases negated with
    | true => exact .next fun _ _ _ => hright
    | false => exact hright

end

theorem Mirrors.nextStart {f : Nat → Parser α} {g : Nat → Parser β}
    (hf : ∀ start, Mirrors k b 1 τ (f start) (g (start + k))) :
    Mirrors k b 1 τ (Parser.nextStart >>= f) (Parser.nextStart >>= g) := by
  refine peekNext (f := fun t => f t.start) (g := fun u => g u.start) fun t u hmoved _ _ => ?_
  rw [hmoved.start_eq]
  exact hf t.start

/-- No operand is read at the end of the text by itself. -/
theorem not_operandAt_of_end (h : Mirrored k b s u) (hleft : s.left = 1) :
    ¬ (operandAt levels least).Clean s e t := by
  intro hclean
  let T (kind : Kind) (_ : String) : Prop := kind = .endOfFile
  have hallLeft : AllLeft T s := by
    refine ⟨h.limit_eq, fun l hl _ => ?_⟩
    obtain ⟨l', m, ls, ms, hrest, -, -, -, -, -, htail⟩ |
        ⟨l', e, w, f, hrest, -, hkind, -⟩ :=
      h.rest.head_cases
    · have hpos := htail.length_pos
      rw [ParseState.left, hrest, List.length_cons] at hleft
      omega
    · rw [hrest, List.mem_singleton] at hl
      exact hl ▸ hkind
  obtain ⟨kind, _, hne, hkind⟩ := (yields_operandAt T levels hallLeft hclean).1.exists_text
  exact hne hkind

theorem mirrors_operandAt (levels least : Nat) :
    Mirrors k true 0 (·.shift k) (operandAt (levels + 1) least) (operandAt levels least) := by
  induction levels generalizing least with
  | zero =>
    intro s u e t _ _ _ hlimit
    obtain ⟨_, hlevels, -⟩ := run_operandAt_of_limitReported hlimit
    cases hlevels
  | succ levels ih =>
    have hread : Mirrors k true 1 (Expression.shift k)
        (nested (operandWith (operandAt (levels + 1)) least))
        (nested (operandWith (operandAt levels) least)) :=
      .nested (.nextStart fun start => .bind (mirrors_unaryWith ih) fun first =>
        .whileNext (φ := Expression.shift k) (ω := id) Continuation.behind
          (fun _ => mirrors_continuation? least) continuation?_ahead
          (fun left c => mirrors_continueWith ih start left c) first)
    intro s u e t hmirrored hleft hclean hlimit
    by_cases hend : s.left = 1
    · exact (not_operandAt_of_end hmirrored hend hclean).elim
    · obtain ⟨_, ⟨⟩, hclean⟩ := hclean.of_operandAt hmirrored.limit_eq
      obtain ⟨_, ⟨⟩, hrun⟩ := run_operandAt_of_limitReported hlimit
      rw [hrun] at hlimit ⊢
      exact hread hmirrored (by omega) hclean hlimit

section

variable (levels : Nat)

theorem mirrors_expression? :
    Mirrors k true 0 (Option.map (·.shift k)) (expression? (levels + 1)) (expression? levels) :=
  mirrors_expressionWith? (mirrors_operandAt levels)

theorem mirrors_expectExpression :
    Mirrors k true 0 (·.shift k) (expectExpression (levels + 1)) (expectExpression levels) :=
  mirrors_expectExpressionWith (mirrors_operandAt levels)

theorem mirrors_expressionList :
    Mirrors k true 0 (List.map (·.shift k)) (expressionList (levels + 1))
      (expressionList levels) :=
  mirrors_expressionListWith (mirrors_operandAt levels)

theorem mirrors_designator? :
    Mirrors k true 0 (Option.map (·.shift k)) (designator? (levels + 1)) (designator? levels) :=
  mirrors_designatorWith? (mirrors_operandAt levels)

theorem mirrors_expectDesignator :
    Mirrors k true 0 (Option.map (·.shift k)) (expectDesignator (levels + 1))
      (expectDesignator levels) :=
  .found (mirrors_designator? levels) (fun _ => .pure rfl) (.reportNext rfl)

theorem mirrors_designatorList :
    Mirrors k true 0 (List.map (·.shift k)) (designatorList (levels + 1))
      (designatorList levels) :=
  mirrors_commaList (mirrors_expectDesignator levels)

end

/-! ## Types -/

theorem mirrors_expectNumber : Mirrors k true 0 id expectNumber expectNumber :=
  .expect (by decide) (.last fun _ _ hmoved => .pure (by rw [hmoved.text_eq]; rfl))

theorem mirrors_commaListOf {item : Parser (Option α)} [item.Flows]
    (h : Mirrors k true 0 id item item) :
    Mirrors k true 0 id (commaList item) (commaList item) := by
  have hlist := mirrors_commaList (σ := id) (by rwa [Option.map_id])
  rwa [List.map_id_fun] at hlist

theorem mirrors_sizes : Mirrors k true 0 id sizes sizes :=
  .past (mirrors_optional (by decide)) fun _ => .ite
    (.past (mirrors_commaListOf mirrors_expectNumber) fun _ => .expect (by decide) (.pure rfl))
    (.pure rfl)

theorem mirrors_tableColumn : Mirrors k true 0 id tableColumn tableColumn := by
  refine .past mirrors_expectNameText fun table => .expect (by decide) ?_
  exact .past (mirrors_optional (by decide)) fun _ => .ite (.pure rfl)
    (.past mirrors_expectNameText fun _ => .pure rfl)

theorem mirrors_timeUnit? : Mirrors k true 0 (Option.map id) timeUnit? timeUnit? := by
  refine .peekKind (fun c _ => ?_) (.pure rfl)
  split
  · exact .ite (.pure rfl) (.pure rfl)
  · exact .pure rfl

theorem mirrors_timeUnit (unit : Keyword) : Mirrors k true 1 id (timeUnit unit) (timeUnit unit) :=
  .next fun _ _ _ => .past (mirrors_optional (by decide)) fun _ => .ite
    (.past mirrors_expectNumber fun _ => .expect (by decide) (.pure rfl)) (.pure rfl)

/-- Where a unit of time follows the text goes on. -/
theorem lt_left_of_timeUnit? (h : timeUnit?.run s = (some unit, t)) (hmirrored : Mirrored k b t u) :
    1 < t.left := by
  obtain ⟨kind, v, hpeek, h⟩ := run_of_bind h
  have hkind := kindAt_of_peekKind hpeek
  split at h
  · split at h
    · obtain ⟨-, rfl⟩ := Prod.mk.inj h
      exact hmirrored.lt_left (hkind ▸ Kind.noConfusion)
    · cases (Prod.mk.inj h).1
  · cases (Prod.mk.inj h).1

theorem mirrors_timeRange : Mirrors k true 0 id timeRange timeRange := by
  have hflows := has_secondUnit (R := flowing) (l := 0)
  refine .foundAhead (fun _ => 1) mirrors_timeUnit?
    (fun _ hmirrored h => lt_left_of_timeUnit? h hmirrored)
    (fun unit => .past (mirrors_timeUnit unit) fun first => .expect (by decide) ?_) (.pure rfl)
  exact .foundAhead (fun _ => 1) mirrors_timeUnit?
    (fun _ hmirrored h => lt_left_of_timeUnit? h hmirrored)
    (fun second => .past (mirrors_timeUnit second) fun _ => .pure rfl) (.reportNext rfl)

/-- Where a name follows behind a mark the text goes on behind both. -/
theorem nextBeforeName_ahead {m : Mark}
    (h : (when (nextBeforeName (.mark m))).run s = (some g, t)) :
    t.kindAt 1 ≠ .endOfFile ∧ ∀ {u}, Mirrored k b t u → 2 < t.left := by
  obtain ⟨hmark, hname⟩ := kindAt_of_nextBeforeName (run_of_when h)
  refine ⟨hmark ▸ Kind.noConfusion, fun hmirrored => ?_⟩
  exact hmirrored.lt_left_of_second (ne_of_canBeName hname).2

theorem mirrors_dottedName (first : String) :
    Mirrors k true 0 id (dottedName first) (dottedName first) := by
  unfold dottedName
  refine .whileNext (φ := id) (ω := id) (fun _ => 1) (fun _ => ?_) nextBeforeName_ahead
    (fun name _ => ?_) first
  · exact mirrors_when (mirrors_nextBeforeName (by decide))
  · exact .next fun t u hmoved => .pure (by rw [hmoved.text_eq]; rfl)

theorem mirrors_leafType : Mirrors k true 0 (·.shift k) leafType leafType := by
  have hown (name : String) : Mirrors k true 1 (·.shift k)
      (do let _ ← next; return TypeReference.named (← dottedName name) [])
      (do let _ ← next; return TypeReference.named (← dottedName name) []) :=
    .next fun _ _ _ => .past (mirrors_dottedName name) fun _ => .pure rfl
  have hnamed (word : Keyword) {arguments : Parser (List String)} [arguments.Flows]
      (h : Mirrors k true 0 id arguments arguments) : Mirrors k true 1 (·.shift k)
      (do let _ ← next; return TypeReference.named word.text (← arguments))
      (do let _ ← next; return TypeReference.named word.text (← arguments)) :=
    .next fun _ _ _ => .past h fun _ => .pure rfl
  refine .peek (fun t u hmoved _ _ => ?_) fun t u hkind hkind' _ => ?_
  · dsimp only
    rw [hmoved.kind_eq, hmoved.text_eq]
    split
    · refine .ite (.next fun _ _ _ => .past mirrors_tableColumn fun _ => .pure rfl)
        (.ite (hnamed _ mirrors_sizes) (.ite (hnamed _ mirrors_timeRange)
          (.ite (hnamed _ (.pure rfl)) (.ite (.reportNext rfl) (hown _)))))
    · exact hown _
    · exact .reportNext rfl
  · dsimp only
    rw [hkind]
    exact .reportNext rfl

section

variable {inner inner' : Parser TypeReference}
  (h : Mirrors k true 0 (·.shift k) inner inner') [inner.Flows] [inner'.Flows]
include h

theorem mirrors_variableGroup (first : String × Span) :
    Mirrors k true 0 (List.map (·.shift k)) (variableGroup inner first)
      (variableGroup inner' (shiftNamed k first)) := by
  refine .bind (.whileNext (φ := List.map (shiftNamed k)) (ω := id) (fun _ => 1)
    (fun _ => mirrors_when (mirrors_nextBeforeName (by decide))) nextBeforeName_ahead
    (fun names _ => ?_) [first])
    fun names => .bind h fun type => .pure ?_
  · exact .next fun t u hmoved => .pure (by simp [hmoved.text_eq, hmoved.span_eq])
  · simp [Variable.shift]

theorem mirrors_anotherGroup : Mirrors k true 0 (Option.map (List.map (·.shift k)))
    (do match ← expectName with
      | some name => return some (← variableGroup inner name)
      | none => return none)
    (do match ← expectName with
      | some name => return some (← variableGroup inner' name)
      | none => return none) :=
  .found mirrors_expectName (fun name => .bind (mirrors_variableGroup h name) fun _ => .pure rfl)
    (.pure rfl)

theorem mirrors_variableGroupsAfter (first : String × Span) :
    Mirrors k true 0 (List.map (·.shift k)) (variableGroupsAfter inner first)
      (variableGroupsAfter inner' (shiftNamed k first)) := by
  refine .bind (mirrors_variableGroup h first) fun group =>
    .bind (mirrors_commaTail (mirrors_anotherGroup h) [group]) fun groups => .pure ?_
  rw [List.map_flatten]

theorem mirrors_variableGroups :
    Mirrors k true 0 (List.map (·.shift k)) (variableGroups inner) (variableGroups inner') :=
  .found mirrors_expectName (mirrors_variableGroupsAfter h) (.pure rfl)

omit h [inner.Flows] [inner'.Flows] in
/-- END FUNCTION, which is behind the text, does not close a record. -/
theorem mirrors_fieldFollows :
    Mirrors k true 0 (Sum.map id id) fieldFollows fieldFollows :=
  .ifClosing (by decide) (.pure rfl)
    (.peekKind (fun _ _ => .ite (.pure rfl) (.pure rfl)) (.pure rfl))

theorem mirrors_recordFields :
    Mirrors k true 0 (List.map (·.shift k)) (recordFields inner) (recordFields inner') := by
  have hname {s t : ParseState} {g : Unit} (h : fieldFollows.run s = (.inr g, t)) :
      t.kindAt 1 ≠ .endOfFile := (ne_of_canBeName ((fieldFollows_found h).1 rfl)).2
  unfold recordFields
  refine .bindAhead (fun r => if r.2 then 2 else 0) (.loop (φ := List.map (·.shift k)) (ψ := id)
    (ω := id) (fun _ => 0) (fun _ => mirrors_fieldFollows)
    (fun h => ⟨hname h, fun hmirrored => hmirrored.lt_left (hname h)⟩) (fun fields _ => ?_) [])
    (fun {s r t u} _ hmirrored hrun => ?_) fun r => ?_
  · refine .last fun t u hmoved => .bind (σ := List.map (·.shift k)) ?_ fun _ => .pure ?_
    · rw [hmoved.text_eq, hmoved.span_eq]
      exact mirrors_variableGroupsAfter h (t.text, t.span)
    · exact List.map_append
  · -- The loop has stopped before END RECORD.
    obtain ⟨_, _, closed, v, -, hloop, hstop⟩ := loop_run (R := fun _ _ => True)
      (fun _ _ _ _ h => rest_ne_nil (hname h)) (fun _ _ _ _ _ => trivial) _ _ s
    obtain ⟨rfl, rfl⟩ := Prod.mk.inj (hloop.symm.trans hrun)
    split
    next hclosed =>
      obtain ⟨-, hrecord⟩ := (fieldFollows_found hstop).2 (congrArg Sum.inl hclosed)
      exact hmirrored.lt_left_of_second (hrecord ▸ Kind.noConfusion)
    next => exact hmirrored.left_pos
  · obtain ⟨fields, closed⟩ := r
    cases closed with
    | true => exact .next fun _ _ _ => .next fun _ _ _ => .pure rfl
    | false => exact .reportNext rfl

theorem mirrors_recordType :
    Mirrors k true 0 (·.shift k) (recordType inner) (recordType inner') := by
  refine .past (mirrors_optional (by decide)) fun _ => .ite
    (.past mirrors_tableColumn fun _ => .pure rfl)
    (.bind (mirrors_recordFields h) fun fields => .pure ?_)
  rw [TypeReference.shift, shiftFields_eq_map]

theorem mirrors_dynamicArrayType :
    Mirrors k true 0 (·.shift k) (dynamicArrayType inner) (dynamicArrayType inner') := by
  have hof (dimension : Option String) : Mirrors k true 0 (·.shift k)
      (do let _ ← expect (.keyword .OF)
          return TypeReference.array true dimension.toList (← inner))
      (do let _ ← expect (.keyword .OF)
          return TypeReference.array true dimension.toList (← inner')) :=
    .expect (by decide) (.bind h fun _ => .pure rfl)
  have hflows (dimension : Option String) (p : Parser TypeReference) [p.Flows] : Flows
      (do let _ ← expect (.keyword .OF)
          return TypeReference.array true dimension.toList (← p)) :=
    inferInstance
  dsimp only [dynamicArrayType]
  refine .expect (by decide) (.past (mirrors_optional (by decide)) fun _ =>
    .ite (.expect (by decide) ?_) (hof none))
  exact .past mirrors_expectNumber hof

theorem mirrors_staticArrayType :
    Mirrors k true 0 (·.shift k) (staticArrayType inner) (staticArrayType inner') := by
  have hof (dimensions : List (Option String)) : Mirrors k true 0 (·.shift k)
      (do let _ ← expect (.keyword .OF)
          return TypeReference.array false (dimensions.filterMap id) (← inner))
      (do let _ ← expect (.keyword .OF)
          return TypeReference.array false (dimensions.filterMap id) (← inner')) :=
    .expect (by decide) (.bind h fun _ => .pure rfl)
  refine .expect (by decide) (.ite ?_ (hof []))
  exact .past (mirrors_commaListOf (.past mirrors_expectNumber fun _ => .pure rfl))
      fun dimensions =>
    .expect (by decide) (hof dimensions)

end

theorem mirrors_typeWithin (depth : Nat) :
    Mirrors k true 0 (·.shift k) (typeWithin depth) (typeWithin depth) := by
  induction depth with
  | zero => exact mirrors_leafType
  | succ depth ih =>
    unfold typeWithin
    refine .peekKind (fun c _ => ?_) mirrors_leafType
    split
    · exact .next fun _ _ _ => mirrors_recordType ih
    · exact .next fun _ _ _ => mirrors_dynamicArrayType ih
    · exact .next fun _ _ _ => mirrors_staticArrayType ih
    · exact mirrors_leafType.mono (Nat.zero_le 1)

theorem mirrors_typeReference : Mirrors k true 0 (·.shift k) typeReference typeReference := by
  intro s u a t hmirrored hleft hclean hlimit
  have hrun : typeReference.run s = (typeWithin u.left).run s :=
    agree_typeWithin hmirrored.rest.length_le s (Nat.le_refl _)
  exact mirrors_typeWithin u.left hmirrored hleft
    ⟨hrun.symm.trans hclean.run_eq, hclean.errors_eq⟩ hlimit

end Parser

end FourGL
