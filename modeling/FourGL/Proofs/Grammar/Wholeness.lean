import FourGL.Proofs.Grammar.Operands

/-!
# What clean runs read is whole

A placeholder stands for an operand or a type that could not be read. Each one comes with an error,
but for an operand behind the limit of nesting, which is reported only once. So a clean run reads
whole types, and whole operands if the limit was not reached before it.
-/

namespace FourGL

open FourGL.Parser FourGL.ParseState

/-! ## Placeholders -/

mutual

/-- No operand is missing in the expression. -/
def Expression.isWhole : Expression → Bool
  | .literal .. => true
  | .name d => d.isWhole
  | .call _ callee arguments => callee.isWhole && areWhole arguments
  | .unary _ _ operand => operand.isWhole
  | .binary _ left _ _ right => left.isWhole && right.isWhole
  | .isNull _ operand _ => operand.isWhole
  | .clipped _ operand => operand.isWhole
  | .parenthesized _ inner => inner.isWhole
  | .missing _ => false

def areWhole : List Expression → Bool
  | [] => true
  | e :: es => e.isWhole && areWhole es

/-- No operand is missing in the indices of the designator. -/
def Designator.isWhole : Designator → Bool
  | ⟨_, _, accessors⟩ => accessorsWhole accessors

def accessorsWhole : List Accessor → Bool
  | [] => true
  | a :: as => a.isWhole && accessorsWhole as

def Accessor.isWhole : Accessor → Bool
  | .member _ => true
  | .index indices => areWhole indices
  | .allMembers => true

end

mutual

/-- No type is missing in the type. -/
def TypeReference.isWhole : TypeReference → Bool
  | .named .. => true
  | .like .. => true
  | .record fields => fieldsWhole fields
  | .recordLike _ => true
  | .array _ _ element => element.isWhole
  | .missing => false

def fieldsWhole : List Variable → Bool
  | [] => true
  | ⟨_, _, type⟩ :: fields => type.isWhole && fieldsWhole fields

end

theorem areWhole_iff {es : List Expression} :
    areWhole es = true ↔ ∀ e ∈ es, e.isWhole = true := by
  induction es with
  | nil => simp [areWhole]
  | cons e es ih => simp [areWhole, ih]

theorem accessorsWhole_iff {as : List Accessor} :
    accessorsWhole as = true ↔ ∀ a ∈ as, a.isWhole = true := by
  induction as with
  | nil => simp [accessorsWhole]
  | cons a as ih => simp [accessorsWhole, ih]

theorem fieldsWhole_iff {vs : List Variable} :
    fieldsWhole vs = true ↔ ∀ v ∈ vs, v.type.isWhole = true := by
  induction vs with
  | nil => simp [fieldsWhole]
  | cons v vs ih =>
    obtain ⟨name, span, type⟩ := v
    simp [fieldsWhole, ih]

/-! ## Expressions that fit -/

section

variable {D : Nat → Expression → Prop} (hD : ∀ {least e}, D least e → e.isWhole = true)
include hD

theorem Designator.Fits.isWhole {d : Designator} (h : d.Fits T D) : d.isWhole = true := by
  obtain ⟨span, name, accessors⟩ := d
  refine accessorsWhole_iff.mpr fun a ha => ?_
  have hfits := h.accessors a ha
  cases a with
  | member | allMembers => rfl
  | index indices => exact areWhole_iff.mpr fun e he => hD (hfits.2 e he)

theorem Expression.Primary.isWhole {e : Expression} (h : e.Primary T D) : e.isWhole = true := by
  cases h with
  | literal => rfl
  | parenthesized hinner =>
    rw [Expression.isWhole]
    exact hD hinner
  | name hname => exact hname.isWhole hD
  | call hcallee harguments =>
    rw [Expression.isWhole, hcallee.isWhole hD, areWhole_iff.mpr fun e he => hD (harguments e he)]
    rfl

theorem Expression.Chain.isWhole {e : Expression} (h : e.Chain T D least) : e.isWhole = true := by
  induction h with
  | signed h =>
    cases h with
    | primary h => exact h.isWhole hD
    | unary _ hoperand =>
      rw [Expression.isWhole]
      exact hD hoperand
  | isNull _ _ _ ih | clipped _ _ _ ih =>
    rw [Expression.isWhole]
    exact ih
  | binary _ _ _ _ _ hright ih =>
    rw [Expression.isWhole, ih, hD hright]
    rfl

end

theorem Expression.Fits.isWhole {e : Expression} (h : e.Fits T levels least) :
    e.isWhole = true := by
  induction levels generalizing least e with
  | zero => cases h
  | succ levels ih => exact Chain.isWhole (fun h => ih h) h

/-! ## What clean runs ensure -/

namespace Parser

/-- `P` holds of the results of clean runs, from states in which, if `C`, the limit of nesting was
not reached. -/
structure Ensures (C : Prop) (P : α → Prop) (p : Parser α) : Prop where
  result : ∀ {s a t}, (C → s.limitReported = false) → p.Clean s a t → P a

namespace Ensures

theorem bind {P : α → Prop} {Q : β → Prop} {p : Parser α} {f : α → Parser β} [p.Flows]
    [F : ∀ a, (f a).Flows] (hp : p.Ensures C P) (hf : ∀ a, P a → (f a).Ensures C Q) :
    (p >>= f).Ensures C Q := by
  constructor
  intro s b u hs h
  obtain ⟨a, t, hfirst, hrest⟩ := h.bind
  exact (hf a (hp.result hs hfirst)).result
    (fun hC => hfirst.errorFree.limitReported_eq.trans (hs hC)) hrest

/-- Where the result of the first part does not matter. -/
theorem behind {Q : β → Prop} {p : Parser α} {f : α → Parser β} [p.Flows]
    [F : ∀ a, (f a).Flows] (hf : ∀ a, (f a).Ensures C Q) : (p >>= f).Ensures C Q :=
  bind (P := fun _ => True) ⟨fun _ _ => trivial⟩ fun a _ => hf a

/-- Behind an error nothing is clean. -/
theorem error {Q : β → Prop} {m : Message} {f : Unit → Parser β} [Plain m]
    [∀ a, (f a).Flows] (hm : m.severity = .error) : (reportNext m args >>= f).Ensures C Q :=
  bind (P := fun _ => False) ⟨fun _ h => Clean.not_reportNext hm h⟩ fun _ => False.elim

theorem pure {P : α → Prop} (h : P a) : (pure a : Parser α).Ensures C P :=
  ⟨fun _ hrun => hrun.of_pure.1 ▸ h⟩

theorem ite {P : α → Prop} {c : Prop} [Decidable c] {p q : Parser α} (hp : p.Ensures C P)
    (hq : q.Ensures C P) : (if c then p else q).Ensures C P := by
  split
  · exact hp
  · exact hq

theorem map {P : β → Prop} {f : α → β} {p : Parser α} [p.Flows]
    (hp : p.Ensures C fun a => P (f a)) :
    (f <$> p).Ensures C P :=
  bind (F := fun a => inferInstanceAs (Pure.pure (f a) : Parser β).Flows) hp fun _ h => pure h

theorem singleton {P : α → Prop} {p : Parser α} (hp : p.Ensures C P) :
    p.Ensures C fun a => ∀ b ∈ (some a).toList, P b :=
  ⟨fun hs h => List.forall_mem_singleton.mpr (hp.result hs h)⟩

theorem given {P : α → Prop} {p : Parser α} (hp : p.Ensures True P) :
    p.Ensures C fun a => C → P a :=
  ⟨fun hs h hC => hp.result (fun _ => hs hC) h⟩

/-- What a loop starts with and its rounds keep holds in the end. -/
theorem loop {I : σ → Prop} {guard : σ → Parser (β ⊕ γ)}
    {body : σ → γ → Parser σ} {atEnd : β}
    [∀ a, (guard a).KeepsNames] [∀ a g, (body a g).Flows]
    (huncut : ∀ a s g t, (guard a).run s = (.inr g, t) → t.kindAt 1 ≠ .endOfFile) (ha : I a)
    (hbody : ∀ a g, I a → (body a g).Ensures C I) :
    (loop atEnd guard body a).Ensures C fun r => I r.1 := by
  constructor
  intro s r t hs h
  let R (a : σ) (u : ParseState) : Prop := ErrorFree s u ∧ I a
  refine (h.of_loop (R := R) huncut (fun a u g v w b x hR hguard htakes hbody' => ?_)
    ⟨(Looks.refl s).errorFree, ha⟩).elim fun _ h => h.1.2
  have hw := hR.1.trans (hguard.errorFree.trans htakes.errorFree)
  exact ⟨hw.trans hbody'.errorFree,
    (hbody a g hR.2).result (fun hC => hw.limitReported_eq.trans (hs hC)) hbody'⟩

/-- A list has the items that can be read. -/
theorem commaTail {L : List α → Prop} {item : Parser (Option α)} [item.Flows] (has : L as)
    (hitem : item.Ensures C fun a => ∀ as, L as → L (as ++ a.toList)) :
    (commaTail item as).Ensures C L :=
  ⟨fun hs h => h.of_commaTail (fun has herrorFree hrun =>
    hitem.result (fun hC => herrorFree.limitReported_eq.trans (hs hC)) hrun _ has) has⟩

theorem commaList {P : α → Prop} {item : Parser (Option α)} [item.Flows]
    (hitem : item.Ensures C fun a => ∀ b ∈ a.toList, P b) :
    (commaList item).Ensures C fun as => ∀ a ∈ as, P a :=
  ⟨fun hs h => h.of_commaList fun herrorFree hrun =>
    hitem.result (fun hC => herrorFree.limitReported_eq.trans (hs hC)) hrun _
      (List.mem_singleton_self _)⟩

end Ensures

theorem allLeft_of_limit (h : s.limitReported = false) : AllLeft (fun _ _ => True) s :=
  ⟨h, fun _ _ _ => trivial⟩

section

variable (levels : Nat)

theorem ensures_expression? :
    (expression? levels).Ensures True fun e => ∀ e' ∈ e.toList, e'.isWhole = true := by
  constructor
  intro s e t hs h e' he
  obtain rfl := Option.mem_toList.mp he
  exact (yields_expressionWith? (yields_operandAt _ levels) h
    (allLeft_of_limit (hs trivial))).isWhole

theorem ensures_expectExpression : (expectExpression levels).Ensures True (·.isWhole = true) := by
  constructor
  intro s e t hs h
  exact (yields_expectExpressionWith (yields_operandAt _ levels) h
    (allLeft_of_limit (hs trivial))).isWhole

theorem ensures_expressionList :
    (expressionList levels).Ensures True fun es => ∀ e ∈ es, e.isWhole = true := by
  constructor
  intro s es t hs h e he
  exact ((yields_expressionListWith (yields_operandAt _ levels) h
    (allLeft_of_limit (hs trivial))).2 e he).isWhole

theorem ensures_designator? :
    (designator? levels).Ensures True fun d => ∀ d' ∈ d.toList, d'.isWhole = true := by
  constructor
  intro s d t hs h d' hd
  obtain rfl := Option.mem_toList.mp hd
  exact (yields_designatorWith? (yields_operandAt _ levels) h
    (allLeft_of_limit (hs trivial))).isWhole
    Expression.Fits.isWhole

theorem ensures_expectDesignator :
    (expectDesignator levels).Ensures True fun d => ∀ d' ∈ d.toList, d'.isWhole = true := by
  refine .bind (F := fun d => by cases d <;> infer_instance) (ensures_designator? levels)
    fun d hd => ?_
  cases d with
  | none => exact .error rfl
  | some d => exact .pure hd

theorem ensures_designatorList :
    (designatorList levels).Ensures True fun ds => ∀ d ∈ ds, d.isWhole = true :=
  .commaList (ensures_expectDesignator levels)

end

/-! ## Types -/

theorem ensures_leafType : leafType.Ensures C (·.isWhole = true) := by
  refine .behind (F := fun t => by dsimp only; split <;> infer_instance) fun t => ?_
  dsimp only
  split
  · refine .ite (.behind fun _ => .behind fun _ => .pure rfl)
      (.ite ?_ (.ite ?_ (.ite ?_ (.ite ?_ ?_))))
    all_goals first
      | exact .behind fun _ => .behind fun _ => .pure rfl
      | exact .error rfl
  · exact .behind fun _ => .behind fun _ => .pure rfl
  · exact .error rfl

section

variable {inner : Parser TypeReference} [inner.KeepsNames]
    (hinner : inner.Ensures C (·.isWhole = true))
include hinner

theorem ensures_variableGroup (first : String × Span) :
    (variableGroup inner first).Ensures C fun vs => ∀ v ∈ vs, v.type.isWhole = true := by
  refine .behind fun names => .bind hinner fun type htype => .pure fun v hv => ?_
  obtain ⟨name, -, rfl⟩ := List.mem_map.mp hv
  exact htype

theorem ensures_variableGroupsAfter (first : String × Span) :
    (variableGroupsAfter inner first).Ensures C fun vs => ∀ v ∈ vs, v.type.isWhole = true := by
  let L (groups : List (List Variable)) : Prop :=
    ∀ vs ∈ groups, ∀ v ∈ vs, v.type.isWhole = true
  unfold variableGroupsAfter
  refine .bind (ensures_variableGroup hinner first) fun group hgroup =>
    .bind (.commaTail (L := L) (List.forall_mem_singleton.mpr hgroup) ?_) fun groups hL =>
      .pure fun v hv => ?_
  · refine .behind (F := fun name => by cases name <;> infer_instance) fun name => ?_
    cases name with
    | none => exact .pure fun groups hL => by simpa using hL
    | some name =>
      refine .bind (ensures_variableGroup hinner name) fun vs hvs => .pure fun groups hL => ?_
      exact List.forall_mem_append.mpr ⟨hL, List.forall_mem_singleton.mpr hvs⟩
  · obtain ⟨vs, hvs, hv⟩ := List.mem_flatten.mp hv
    exact hL vs hvs v hv

theorem ensures_variableGroups :
    (variableGroups inner).Ensures C fun vs => ∀ v ∈ vs, v.type.isWhole = true := by
  refine .behind (F := fun name => by cases name <;> infer_instance) fun name => ?_
  cases name with
  | none => exact .pure nofun
  | some name => exact ensures_variableGroupsAfter hinner name

theorem ensures_recordFields :
    (recordFields inner).Ensures C fun vs => ∀ v ∈ vs, v.type.isWhole = true := by
  let P (vs : List Variable) : Prop := ∀ v ∈ vs, v.type.isWhole = true
  unfold recordFields
  dsimp only
  refine .bind (.loop (I := P)
    (fun _ _ _ _ h => (ne_of_canBeName ((fieldFollows_found h).1 rfl)).2) nofun
    fun fields _ hfields => ?_) fun r hfields => ?_
  · exact .behind fun t => .bind (ensures_variableGroupsAfter hinner _) fun group hgroup =>
      .pure (List.forall_mem_append.mpr ⟨hfields, hgroup⟩)
  · exact .ite (.behind fun _ => .behind fun _ => .pure hfields) (.error rfl)

theorem ensures_recordType : (recordType inner).Ensures C (·.isWhole = true) :=
  .behind fun _ => .ite (.behind fun _ => .pure rfl)
    (.bind (ensures_recordFields hinner) fun _ hvs => .pure (fieldsWhole_iff.mpr hvs))

theorem ensures_dynamicArrayType : (dynamicArrayType inner).Ensures C (·.isWhole = true) := by
  have hrest (dimension : Option String) : Ensures C (·.isWhole = true) (do
      let _ ← expect (.keyword .OF)
      return TypeReference.array true dimension.toList (← inner)) :=
    .behind fun _ => .bind hinner fun _ htype => .pure htype
  have hflows (dimension : Option String) : Flows (do
      let _ ← expect (.keyword .OF)
      return TypeReference.array true dimension.toList (← inner)) := inferInstance
  unfold dynamicArrayType
  dsimp only
  refine .behind fun _ => .behind fun found => .ite ?_ ?_
  · exact .behind fun _ => .behind fun dimension => hrest dimension
  · exact .behind fun dimension => hrest dimension

theorem ensures_staticArrayType : (staticArrayType inner).Ensures C (·.isWhole = true) := by
  have hrest (dimensions : List (Option String)) : Ensures C (·.isWhole = true) (do
      let _ ← expect (.keyword .OF)
      return TypeReference.array false (dimensions.filterMap id) (← inner)) :=
    .behind fun _ => .bind hinner fun _ htype => .pure htype
  have hflows (dimensions : List (Option String)) : Flows (do
      let _ ← expect (.keyword .OF)
      return TypeReference.array false (dimensions.filterMap id) (← inner)) := inferInstance
  unfold staticArrayType
  dsimp only
  refine .behind fun found => .ite ?_ ?_
  · exact .behind fun _ => .behind fun _ => .behind fun dimensions => hrest dimensions
  · exact .behind fun dimensions => hrest dimensions

end

theorem ensures_typeWithin (depth : Nat) : (typeWithin depth).Ensures C (·.isWhole = true) := by
  induction depth with
  | zero => exact ensures_leafType
  | succ depth ih =>
    refine .behind (F := fun kind => by split <;> infer_instance) fun kind => ?_
    split
    · exact .behind fun _ => ensures_recordType ih
    · exact .behind fun _ => ensures_dynamicArrayType ih
    · exact .behind fun _ => ensures_staticArrayType ih
    · exact ensures_leafType

theorem ensures_typeReference : typeReference.Ensures C (·.isWhole = true) :=
  ⟨fun {s _ _} hs h => (ensures_typeWithin s.left).result hs ⟨h.run_eq, h.errors_eq⟩⟩

end Parser

end FourGL
