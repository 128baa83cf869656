import FourGL.Proofs.Tree.ExpressionSpans

/-!
# Visiting expressions

A visit comes to an expression and then to its parts, from left to right, but it passes over the
indices in the designator of a called function. An expression is found by its address, the numbers
of the parts that lead to it, and the order of a visit is the order of the addresses
(`expression_visit`).
-/

namespace FourGL

open FourGL.Parser FourGL.ParseState

/-! ## Addresses -/

namespace Expression

/-- How many of the parts, which come before the others, a visit passes over: the indices in the
designator of a called function. -/
def passedOver : Expression → Nat
  | call _ callee _ => callee.parts.length
  | _ => 0

/-- At the address stands `d`, where of each expression on the way that many parts are skipped. -/
inductive StandsPast (skipped : Expression → Nat) :
    Expression → List Nat → Expression → Prop where
  | root (e : Expression) : StandsPast skipped e [] e
  | part {e : Expression} (hpart : e.parts[i]? = some part) (hi : skipped e ≤ i)
      (h : StandsPast skipped part a d) : StandsPast skipped e (i :: a) d

/-- At the address `a` in `e` stands `d`. -/
abbrev Stands : Expression → List Nat → Expression → Prop := StandsPast fun _ => 0

/-- A visit of `e` comes to `d` at the address `a`. -/
abbrev Visits : Expression → List Nat → Expression → Prop := StandsPast passedOver

namespace StandsPast

variable {skipped : Expression → Nat} {e d : Expression}

theorem nil_iff : e.StandsPast skipped [] d ↔ d = e := by
  constructor
  · rintro ⟨⟩
    rfl
  · rintro rfl
    exact .root d

theorem cons_iff : e.StandsPast skipped (i :: a) d ↔
    skipped e ≤ i ∧ ∃ part, e.parts[i]? = some part ∧ part.StandsPast skipped a d := by
  constructor
  · rintro (_ | ⟨hpart, hi, h⟩)
    exact ⟨hi, _, hpart, h⟩
  · rintro ⟨hi, part, hpart, h⟩
    exact .part hpart hi h

theorem within (h : e.StandsPast skipped a d) : d.Within e := by
  induction h with
  | root e => exact .refl e
  | part hpart _ _ ih => exact .part (List.mem_of_getElem? hpart) ih

/-- The last step leads to one of the parts of what stands there before it. -/
theorem last (h : e.StandsPast skipped (a ++ [i]) d) :
    ∃ f : Expression, e.StandsPast skipped a f ∧ f.parts[i]? = some d := by
  induction a generalizing e with
  | nil =>
    obtain ⟨-, part, hpart, h⟩ := cons_iff.mp h
    obtain rfl := nil_iff.mp h
    exact ⟨e, .root e, hpart⟩
  | cons j a ih =>
    obtain ⟨hj, part, hpart, h⟩ := cons_iff.mp h
    obtain ⟨f, hf, hlast⟩ := ih h
    exact ⟨f, .part hpart hj hf, hlast⟩

theorem unique (h : e.StandsPast skipped a d) (h' : e.StandsPast skipped a d') : d = d' := by
  induction h with
  | root e => exact (nil_iff.mp h').symm
  | part hpart _ _ ih =>
    obtain ⟨-, part', hpart', h'⟩ := cons_iff.mp h'
    obtain rfl := Option.some.inj (hpart.symm.trans hpart')
    exact ih h'

end StandsPast

/-- What stands in an expression is missed by a visit if and only if the way to it leads into the
indices of a called function. -/
theorem Stands.missed_iff {e d : Expression} (h : e.Stands a d) :
    ¬ e.Visits a d ↔ ∃ b i c f, a = b ++ i :: c ∧ e.Stands b f ∧ i < f.passedOver := by
  induction h with
  | root e => exact ⟨fun h => absurd (.root e) h, fun ⟨b, i, c, f, h, _⟩ => by simp at h⟩
  | @part i part a d e hpart _ h ih =>
    constructor
    · intro hmissed
      by_cases hi : i < e.passedOver
      · exact ⟨[], i, a, e, rfl, .root e, hi⟩
      · obtain ⟨b, j, c, f, rfl, hf, hj⟩ :=
          ih.mp fun h => hmissed (.part hpart (Nat.le_of_not_lt hi) h)
        exact ⟨i :: b, j, c, f, rfl, .part hpart (Nat.zero_le i) hf, hj⟩
    · rintro ⟨b, j, c, f, ha, hf, hj⟩ hvisits
      obtain ⟨hi, part', hpart', hvisits⟩ := StandsPast.cons_iff.mp hvisits
      obtain rfl := Option.some.inj (hpart.symm.trans hpart')
      cases b with
      | nil =>
        obtain rfl := StandsPast.nil_iff.mp hf
        obtain ⟨rfl, -⟩ := List.cons.inj ha
        exact Nat.not_lt.mpr hi hj
      | cons k b =>
        obtain ⟨rfl, rfl⟩ := List.cons.inj ha
        obtain ⟨-, part', hpart', hf⟩ := StandsPast.cons_iff.mp hf
        obtain rfl := Option.some.inj (hpart.symm.trans hpart')
        exact ih.mpr ⟨b, j, c, f, rfl, hf, hj⟩ hvisits

end Expression

/-! ## Visits in the order of addresses -/

/-- What is visited stands at the addresses that `stands` tells, each of them once and in their
order, and as far below `depth` as its address is long. -/
def ListsBelow (depth : Nat) (stands : List Nat → Expression → Prop)
    (visits : List (Nat × Expression)) : Prop :=
  ∃ found : List (List Nat × Expression), found.Pairwise (·.1 < ·.1) ∧
    (∀ a d, (a, d) ∈ found ↔ stands a d) ∧
    visits = found.map fun f => (depth + f.1.length, f.2)

namespace ListsBelow

variable {stands stands' : List Nat → Expression → Prop}
    {visits visits' : List (Nat × Expression)}

theorem congr (h : ListsBelow depth stands visits) (hiff : ∀ a d, stands a d ↔ stands' a d) :
    ListsBelow depth stands' visits := by
  obtain ⟨found, hincreasing, hfound, hvisits⟩ := h
  exact ⟨found, hincreasing, fun a d => (hfound a d).trans (hiff a d), hvisits⟩

theorem nil (h : ∀ a d, ¬ stands a d) : ListsBelow depth stands [] :=
  ⟨[], .nil, fun a d => ⟨nofun, fun hstands => absurd hstands (h a d)⟩, rfl⟩

theorem single (e : Expression) : ListsBelow depth (fun a d => a = [] ∧ d = e) [(depth, e)] :=
  ⟨[([], e)], List.pairwise_singleton _ _, fun _ _ => by
    rw [List.mem_singleton, Prod.mk.injEq], rfl⟩

theorem append (h : ListsBelow depth stands visits) (h' : ListsBelow depth stands' visits')
    (hlt : ∀ a b d e, stands a d → stands' b e → a < b) :
    ListsBelow depth (fun a d => stands a d ∨ stands' a d) (visits ++ visits') := by
  obtain ⟨found, hincreasing, hfound, rfl⟩ := h
  obtain ⟨found', hincreasing', hfound', rfl⟩ := h'
  refine ⟨found ++ found', ?_, fun a d => ?_, List.map_append.symm⟩
  · refine List.pairwise_append.mpr ⟨hincreasing, hincreasing', fun f hf g hg => ?_⟩
    exact hlt _ _ _ _ ((hfound _ _).mp hf) ((hfound' _ _).mp hg)
  · exact List.mem_append.trans (or_congr (hfound a d) (hfound' a d))

/-- One step further down all addresses begin with the number of the part. -/
theorem below (h : ListsBelow (depth + 1) stands visits) (i : Nat) :
    ListsBelow depth (fun a d => ∃ b, a = i :: b ∧ stands b d) visits := by
  obtain ⟨found, hincreasing, hfound, rfl⟩ := h
  refine ⟨found.map fun f => (i :: f.1, f.2), ?_, fun a d => ?_, ?_⟩
  · exact List.pairwise_map.mpr (hincreasing.imp fun h => List.cons_lt_cons_iff.mpr
      (.inr ⟨rfl, h⟩))
  · rw [List.mem_map]
    constructor
    · rintro ⟨f, hf, heq⟩
      obtain ⟨rfl, rfl⟩ := Prod.mk.inj heq
      exact ⟨f.1, rfl, (hfound _ _).mp hf⟩
    · rintro ⟨b, rfl, hb⟩
      exact ⟨(b, d), (hfound b d).mpr hb, rfl⟩
  · rw [List.map_map]
    refine List.map_congr_left fun f _ => ?_
    rw [Function.comp_apply, List.length_cons, Nat.add_assoc, Nat.add_comm 1]

end ListsBelow

/-! ## Visits of the parts -/

theorem visitList_append (depth : Nat) (es fs : List Expression) :
    visitList depth (es ++ fs) = visitList depth es ++ visitList depth fs := by
  induction es with
  | nil => rw [visitList, List.nil_append, List.nil_append]
  | cons e es ih => rw [List.cons_append, visitList, visitList, ih, List.append_assoc]

theorem visitAccessors_eq (depth : Nat) (as : List Accessor) :
    visitAccessors depth as = visitList depth (as.flatMap Accessor.parts) := by
  induction as with
  | nil => rw [visitAccessors, List.flatMap_nil, visitList]
  | cons a as ih =>
    have ha : a.visit depth = visitList depth a.parts := by
      cases a <;> simp only [Accessor.visit, Accessor.parts, visitList]
    rw [visitAccessors, ha, ih, List.flatMap_cons, visitList_append]

theorem Designator.sizeOf_part (d : Designator) (h : part ∈ d.parts) :
    sizeOf part < sizeOf d := by
  obtain ⟨span, name, accessors⟩ := d
  obtain ⟨a, ha, hpart⟩ := List.mem_flatMap.mp h
  have haccessors : sizeOf a < sizeOf accessors := List.sizeOf_lt_of_mem ha
  rw [Designator.mk.sizeOf_spec]
  cases a with
  | index indices =>
    have hindices : sizeOf part < sizeOf indices := List.sizeOf_lt_of_mem hpart
    rw [Accessor.index.sizeOf_spec] at haccessors
    omega
  | member | allMembers => cases hpart

namespace Expression

/-- The expression comes first, and then the parts that are not passed over. -/
theorem visit_eq (depth : Nat) (e : Expression) :
    e.visit depth = (depth, e) :: visitList (depth + 1) (e.parts.drop e.passedOver) := by
  cases e with
  | name d =>
    cases d
    rw [visit, Designator.visit, visitAccessors_eq]
    rfl
  | call span callee arguments => rw [visit, parts, passedOver, List.drop_left]
  | literal | unary | binary | isNull | clipped | parenthesized | missing =>
    simp only [visit, parts, passedOver, List.drop_zero, visitList, List.append_nil]

theorem sizeOf_part {e : Expression} (h : part ∈ e.parts) : sizeOf part < sizeOf e := by
  cases e with
  | name d =>
    have hsize := d.sizeOf_part h
    rw [name.sizeOf_spec]
    omega
  | call span callee arguments =>
    rw [call.sizeOf_spec]
    rcases List.mem_append.mp h with h | h
    · have hsize := callee.sizeOf_part h
      omega
    · have hsize := List.sizeOf_lt_of_mem h
      omega
  | binary span left operator negated right =>
    rw [binary.sizeOf_spec]
    obtain rfl | rfl := List.mem_pair.mp h <;> omega
  | unary | isNull | clipped | parenthesized =>
    obtain rfl := List.mem_singleton.mp h
    simp only [unary.sizeOf_spec, isNull.sizeOf_spec, clipped.sizeOf_spec,
      parenthesized.sizeOf_spec]
    omega
  | literal | missing => cases h

end Expression

/-- The visits of some parts in a row, numbered from `k` on. -/
theorem listsBelow_visitList (depth : Nat) (es : List Expression)
    (hes : ∀ e ∈ es, ListsBelow (depth + 1) e.Visits (e.visit (depth + 1))) (k : Nat) :
    ListsBelow depth (fun a d => ∃ i b part, a = (k + i) :: b ∧ es[i]? = some part ∧
      part.Visits b d) (visitList (depth + 1) es) := by
  induction es generalizing k with
  | nil =>
    rw [visitList]
    exact .nil fun _ _ ⟨i, b, part, _, h, _⟩ => nomatch h
  | cons e es ih =>
    rw [visitList]
    obtain ⟨he, hes⟩ := List.forall_mem_cons.mp hes
    refine ((he.below k).append (ih hes (k + 1)) ?_).congr fun a d => ?_
    · rintro _ _ d d' ⟨b, rfl, -⟩ ⟨i, b', part, rfl, -⟩
      exact List.cons_lt_cons_iff.mpr (.inl (by omega))
    · constructor
      · rintro (⟨b, rfl, h⟩ | ⟨i, b, part, rfl, hpart, h⟩)
        · exact ⟨0, b, e, rfl, rfl, h⟩
        · exact ⟨i + 1, b, part, by rw [Nat.add_right_comm, Nat.add_assoc], hpart, h⟩
      · rintro ⟨i, b, part, rfl, hpart, h⟩
        cases i with
        | zero =>
          obtain rfl := Option.some.inj hpart
          exact .inl ⟨b, rfl, h⟩
        | succ i => exact .inr ⟨i, b, part, by rw [Nat.add_right_comm, Nat.add_assoc], hpart, h⟩

theorem listsBelow_visit (depth : Nat) (e : Expression) :
    ListsBelow depth e.Visits (e.visit depth) := by
  rw [Expression.visit_eq]
  have hparts := listsBelow_visitList depth (e.parts.drop e.passedOver)
    (fun part _ => listsBelow_visit (depth + 1) part) e.passedOver
  refine ((ListsBelow.single e).append hparts ?_).congr fun a d => ?_
  · rintro _ _ d d' ⟨rfl, -⟩ ⟨i, b, part, rfl, -⟩
    exact List.nil_lt_cons _ _
  · constructor
    · rintro (⟨rfl, rfl⟩ | ⟨i, b, part, rfl, hpart, h⟩)
      · exact .root d
      · exact .part (List.getElem?_drop.symm.trans hpart) (Nat.le_add_right _ _) h
    · intro h
      cases a with
      | nil => exact .inl ⟨rfl, Expression.StandsPast.nil_iff.mp h⟩
      | cons j a =>
        obtain ⟨hj, part, hpart, hbelow⟩ := Expression.StandsPast.cons_iff.mp h
        obtain ⟨i, rfl⟩ := Nat.exists_eq_add_of_le hj
        exact .inr ⟨i, a, part, rfl, List.getElem?_drop.trans hpart, hbelow⟩
termination_by sizeOf e
decreasing_by exact Expression.sizeOf_part (List.mem_of_mem_drop ‹_›)

/-! ## Expressions of a text -/

/-- The expression is read from some text, alone or in a module or in statements. -/
inductive Expression.Parsed : Expression → Prop where
  | alone (h : ((expression? maxNesting).run (.ofText mode text)).1 = some e) : Parsed e
  | expected (h : ((expectExpression maxNesting).run (.ofText mode text)).1 = e) : Parsed e
  | inModule {n : Node} (hreach : (parseModule text options).module.Reaches path n)
      (he : e ∈ n.kind.expressions) : Parsed e
  | inStatements {n m : Node} (hn : n ∈ (parseStatements text options).statements)
      (hreach : n.Reaches path m) (he : e ∈ m.kind.expressions) : Parsed e

/-- In all expressions of a text the parts stand one behind the other. -/
theorem Expression.Parsed.nests (h : e.Parsed) {d : Expression} (hd : d.Within e) : d.Nests := by
  cases h with
  | @alone mode text _ h =>
    have hrow := yieldsRow_expression? maxNesting _ (at_ofText mode text)
    unfold YieldsRowFrom at hrow
    rw [h] at hrow
    exact hrow.nests e (List.mem_singleton_self e) d hd
  | @expected mode text _ h =>
    subst h
    have hrow := yieldsRow_expectExpression maxNesting _ (at_ofText mode text)
    exact hrow.nests _ (List.mem_singleton_self _) d hd
  | @inModule text options path _ n hreach he =>
    obtain ⟨s, hnodesReadIn, hkind, -⟩ := nodesRead_parseModule text options
    exact (hnodesReadIn.inHeader_module hkind hreach).nests e he d hd
  | @inStatements text options path _ n m hn hreach he =>
    obtain ⟨s, hnodesReadIn, -⟩ := nodesRead_parseStatements text options
    exact (hnodesReadIn.nodesRead.inHeader (at_ofText options.mode text) hn hreach).nests e he d hd

/-- A visit comes to what stands in an expression once, in the order of the addresses and as deep as
the address is long, but it misses the indices in the designators of called functions, with all that
is inside them, and nothing else. In an expression that is read from a text, the parts of one
expression that are not empty begin in the order of their addresses. -/
theorem expression_visit (e : Expression) (depth : Nat) :
    (∃ found : List (List Nat × Expression), found.Pairwise (·.1 < ·.1) ∧
      (∀ a d, (a, d) ∈ found ↔ e.Visits a d) ∧
      e.visit depth = found.map fun f => (depth + f.1.length, f.2)) ∧
    (∀ a d, e.Stands a d →
      (¬ e.Visits a d ↔ ∃ b i c f, a = b ++ i :: c ∧ e.Stands b f ∧ i < f.passedOver)) ∧
    (e.Parsed → ∀ a i j x y, i < j → e.Stands (a ++ [i]) x → e.Stands (a ++ [j]) y →
      x.span.length ≠ 0 → y.span.length ≠ 0 → x.span.start < y.span.start) := by
  refine ⟨listsBelow_visit depth e, fun a d h => h.missed_iff, ?_⟩
  intro hparsed a i j x y hij hx hy hxne hyne
  obtain ⟨f, hf, hxpart⟩ := hx.last
  obtain ⟨f', hf', hypart⟩ := hy.last
  obtain rfl := hf.unique hf'
  obtain ⟨hi, rfl⟩ := List.getElem?_eq_some_iff.mp hxpart
  obtain ⟨hj, rfl⟩ := List.getElem?_eq_some_iff.mp hypart
  have hnests := hparsed.nests hf.within
  have hstop : f.parts[i].span.stop ≤ f.parts[j].span.start :=
    List.pairwise_iff_getElem.mp hnests.aligned.apart i j hi hj hij hxne hyne
  have hlength : f.parts[i].span.stop = f.parts[i].span.start + f.parts[i].span.length := rfl
  omega

/-- The index of a called element of an array is missed, the arguments are visited in their
order. -/
theorem expression_visit_call :
    ∃ e index x y : Expression, e.Parsed ∧ e.Stands [0] index ∧ ¬ e.Visits [0] index ∧
      e.Visits [1] x ∧ e.Visits [2] y ∧ x.span.start < y.span.start := by
  have hread : ((expression? maxNesting).run (.ofText .default "a[1](b, c)")).1.any (fun e =>
      e.passedOver = 1 ∧ e.parts.length = 3 ∧
      ∀ part ∈ e.parts, part.span.length = 1) = true := by
    decide +kernel
  obtain ⟨e, he, hshape⟩ := (Option.any_eq_true ..).mp hread
  obtain ⟨hpassed, hlength, hparts⟩ := of_decide_eq_true hshape
  obtain ⟨index, x, y, hpartsEq⟩ := List.length_eq_three.mp hlength
  rw [hpartsEq] at hparts
  simp only [List.forall_mem_cons] at hparts
  obtain ⟨-, hx, hy, -⟩ := hparts
  have hparsed : e.Parsed := .alone he
  have hindex : e.Stands [0] index := .part (by rw [hpartsEq]; rfl) (Nat.zero_le 0) (.root index)
  have hstandsX : e.Stands [1] x := .part (by rw [hpartsEq]; rfl) (Nat.zero_le 1) (.root x)
  have hstandsY : e.Stands [2] y := .part (by rw [hpartsEq]; rfl) (Nat.zero_le 2) (.root y)
  obtain ⟨-, hmissed, hordered⟩ := expression_visit e 0
  refine ⟨e, index, x, y, hparsed, hindex, ?_, ?_, ?_, ?_⟩
  · exact (hmissed _ _ hindex).mpr ⟨[], 0, [], e, rfl, .root e, by omega⟩
  · exact .part (by rw [hpartsEq]; rfl) (by omega) (.root x)
  · exact .part (by rw [hpartsEq]; rfl) (by omega) (.root y)
  · exact hordered hparsed [] 1 2 x y Nat.one_lt_two hstandsX hstandsY (by omega) (by omega)

end FourGL
