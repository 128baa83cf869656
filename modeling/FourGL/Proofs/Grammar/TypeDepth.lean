import FourGL.Proofs.Grammar.Payload

/-!
# How deep types are read

Types do not count for the limit of nesting. What bounds them is the text: a type begins with
RECORD, DYNAMIC or ARRAY if another type stands in it, so that it is at most as deep as such words
are left (`upToOpeners_typeReference`). The same holds of the types that a node declares
(`Reads.typesWithin`).
-/

namespace FourGL

open FourGL.Parser FourGL.ParseState

/-! ## Depth -/

mutual

/-- How many records and arrays the type has one inside the other. -/
def TypeReference.depth : TypeReference → Nat
  | .record fields => fieldsDepth fields + 1
  | .array _ _ element => element.depth + 1
  | .named .. | .like .. | .recordLike _ | .missing => 0

def fieldsDepth : List Variable → Nat
  | [] => 0
  | ⟨_, _, type⟩ :: fields => max type.depth (fieldsDepth fields)

end

theorem fieldsDepth_le_iff {vs : List Variable} :
    fieldsDepth vs ≤ limit ↔ ∀ v ∈ vs, v.type.depth ≤ limit := by
  induction vs with
  | nil => simp [fieldsDepth]
  | cons v vs ih =>
    obtain ⟨name, span, type⟩ := v
    simp [fieldsDepth, ih]

/-- The type of the declaration has at most so many levels. -/
def Declaration.TypeWithin (limit : Nat) (d : Declaration) : Prop :=
  ∀ type ∈ d.type?.toList, type.depth ≤ limit

/-! ## The words that open types -/

/-- A type that begins with the token can have another inside it. -/
def Kind.opensType : Kind → Bool
  | .keyword .RECORD | .keyword .DYNAMIC | .keyword .ARRAY => true
  | _ => false

namespace ParseState

/-- How many tokens are left with which a type can begin that has another inside it. -/
def openers (s : ParseState) : Nat := s.input.rest.countP (·.token.kind.opensType)

theorem openers_read (s : ParseState) :
    s.openers = s.read.openers + if (s.kindAt 1).opensType then 1 else 0 := by
  have hkind : s.kindAt 1 = (s.input.tokenAt 1).kind := rfl
  unfold openers
  rw [rest_read_eq]
  cases hrest : s.input.rest with
  | nil => rw [hkind, Lookahead.tokenAt, hrest]; rfl
  | cons l ls =>
    rw [hkind, show s.input.tokenAt 1 = l.token by simp [Lookahead.tokenAt, hrest],
      List.tail_cons, List.countP_cons]

theorem openers_read_le (s : ParseState) : s.read.openers ≤ s.openers :=
  openers_read s ▸ Nat.le_add_right ..

theorem Later.openers_le (h : Later s t) : t.openers ≤ s.openers := by
  obtain ⟨ts, htokensRead⟩ := h
  induction htokensRead with
  | refl => exact Nat.le_refl _
  | look _ hlook ih => rwa [openers, hlook.rest]
  | read _ ih => exact (openers_read_le _).trans ih
  | report _ _ _ _ ih | limit _ _ ih | rename _ _ ih => exact ih

end ParseState

/-! ## What the words that are left allow -/

namespace Parser

/-- `P` holds of what the parser yields where at most `n` words that open types are left. -/
structure UpToOpeners (n : Nat) (P : α → Prop) (p : Parser α) : Prop where
  result : ∀ s, s.openers ≤ n → P (p.run s).1

namespace UpToOpeners

theorem bind {P : α → Prop} {Q : β → Prop} {p : Parser α} {f : α → Parser β}
    [hflows : p.Flows]
    (hp : p.UpToOpeners n P) (hf : ∀ a, P a → (f a).UpToOpeners n Q) :
    (p >>= f).UpToOpeners n Q :=
  ⟨fun s hs => (hf _ (hp.result s hs)).result _ ((hflows.flows s).later.openers_le.trans hs)⟩

/-- Where the result of the first part does not matter. -/
theorem behind {Q : β → Prop} {p : Parser α} {f : α → Parser β} [p.Flows]
    (hf : ∀ a, (f a).UpToOpeners n Q) : (p >>= f).UpToOpeners n Q :=
  bind (P := fun _ => True) ⟨fun _ _ => trivial⟩ fun a _ => hf a

theorem pure {P : α → Prop} (h : P a) :
    (pure a : Parser α).UpToOpeners n P := ⟨fun _ _ => h⟩

theorem ite {P : α → Prop} {c : Prop} [Decidable c] {p q : Parser α} (hp : p.UpToOpeners n P)
    (hq : q.UpToOpeners n P) : (if c then p else q).UpToOpeners n P := by
  split
  · exact hp
  · exact hq

theorem of_run {P : α → Prop} {p : Parser α} (hp : p.UpToOpeners n P) (hrun : p.run s = (a, t))
    (hs : s.openers ≤ n) : P a := by
  have hresult := hp.result s hs
  rwa [hrun] at hresult

theorem singleton {P : α → Prop} {p : Parser α} (hp : p.UpToOpeners n P) :
    p.UpToOpeners n fun a => ∀ b ∈ (some a).toList, P b :=
  ⟨fun s hs => List.forall_mem_singleton.mpr (hp.result s hs)⟩

theorem map {P : β → Prop} {f : α → β} {p : Parser α} [p.Flows]
    (hp : p.UpToOpeners n fun a => P (f a)) :
    (f <$> p).UpToOpeners n P :=
  bind hp fun _ h => pure h

/-- What a loop starts with and its rounds keep holds in the end. -/
theorem loop {I : σ → Prop} {guard : σ → Parser (β ⊕ γ)}
    {body : σ → γ → Parser σ} {atEnd : β}
    [hguard : ∀ a, (guard a).Flows] [hflows : ∀ a g, (body a g).Flows] (ha : I a)
    (hbody : ∀ a g, I a → (body a g).UpToOpeners n I) :
    (loop atEnd guard body a).UpToOpeners n fun r => I r.1 := by
  constructor
  intro s hs
  change I (loopFrom atEnd guard body a s).1.1
  fun_induction loopFrom atEnd guard body a s with
  | case1 => exact ha
  | case2 => exact ha
  | case3 a s g t h _ _ _ r ih =>
    have hread : t.read.openers ≤ n :=
      (openers_read_le t).trans (((hguard a).of_run h).later.openers_le.trans hs)
    exact ih ((hbody a g ha).result _ hread) (((hflows a g).flows _).later.openers_le.trans hread)

theorem whileNext {I : σ → Prop} {guard : σ → Parser (Option γ)}
    {body : σ → γ → Parser σ} [∀ a, (guard a).Flows] [∀ a g, (body a g).Flows] (ha : I a)
    (hbody : ∀ a g, I a → (body a g).UpToOpeners n I) :
    (whileNext guard body a).UpToOpeners n I :=
  bind (loop ha hbody) fun _ h => pure h

/-- The items of a list are each read where no more of the words are left. -/
theorem commaTail {P : α → Prop} {item : Parser (Option α)} [item.Flows]
    (has : ∀ a ∈ as, P a)
    (hitem : item.UpToOpeners n fun found => ∀ a ∈ found.toList, P a) :
    (commaTail item as).UpToOpeners n fun as => ∀ a ∈ as, P a := by
  let I (state : List α × Bool) : Prop := ∀ a ∈ state.1, P a
  refine bind (whileNext (I := I) has fun state _ hstate => bind hitem fun found hfound => ?_)
    fun _ h => pure h
  cases found with
  | none => exact pure hstate
  | some a =>
    have ha : P a := hfound a (List.mem_singleton_self a)
    exact pure (List.forall_mem_append.mpr ⟨hstate, List.forall_mem_singleton.mpr ha⟩)

theorem commaList {P : α → Prop} {item : Parser (Option α)} [item.Flows]
    (hitem : item.UpToOpeners n fun found => ∀ a ∈ found.toList, P a) :
    (commaList item).UpToOpeners n fun as => ∀ a ∈ as, P a := by
  refine bind hitem fun found hfound => ?_
  cases found with
  | none => exact pure nofun
  | some a =>
    have ha : P a := hfound a (List.mem_singleton_self a)
    exact commaTail (List.forall_mem_singleton.mpr ha) hitem

end UpToOpeners

/-! ## Types -/

theorem upToOpeners_leafType : leafType.UpToOpeners n (·.depth = 0) := by
  refine .behind fun t => ?_
  dsimp only
  split
  · refine .ite (.behind fun _ => .behind fun _ => .pure rfl)
      (.ite ?_ (.ite ?_ (.ite ?_ (.ite ?_ ?_))))
    all_goals first
      | exact .behind fun _ => .behind fun _ => .pure rfl
      | exact .behind fun _ => .pure rfl
  · exact .behind fun _ => .behind fun _ => .pure rfl
  · exact .behind fun _ => .pure rfl

section

variable {inner : Parser TypeReference} [inner.Flows]
    (hinner : inner.UpToOpeners n (·.depth ≤ limit))
include hinner

theorem upToOpeners_variableGroup (first : String × Span) :
    (variableGroup inner first).UpToOpeners n fun vs => ∀ v ∈ vs, v.type.depth ≤ limit := by
  refine .behind fun names => .bind hinner fun type htype => .pure fun v hv => ?_
  obtain ⟨name, -, rfl⟩ := List.mem_map.mp hv
  exact htype

theorem upToOpeners_variableGroupsAfter (first : String × Span) :
    (variableGroupsAfter inner first).UpToOpeners n fun vs => ∀ v ∈ vs,
    v.type.depth ≤ limit := by
  let P (vs : List Variable) : Prop := ∀ v ∈ vs, v.type.depth ≤ limit
  unfold variableGroupsAfter
  refine .bind (upToOpeners_variableGroup hinner first) fun group hgroup =>
    .bind (.commaTail (P := P) (List.forall_mem_singleton.mpr hgroup) ?_) fun groups hgroups =>
      .pure fun v hv => ?_
  · refine .behind fun name => ?_
    cases name with
    | none => exact .pure nofun
    | some name =>
      exact .bind (upToOpeners_variableGroup hinner name) fun vs hvs =>
        .pure (List.forall_mem_singleton.mpr hvs)
  · obtain ⟨vs, hvs, hv⟩ := List.mem_flatten.mp hv
    exact hgroups vs hvs v hv

theorem upToOpeners_variableGroups :
    (variableGroups inner).UpToOpeners n fun vs => ∀ v ∈ vs, v.type.depth ≤ limit := by
  refine .behind fun name => ?_
  cases name with
  | none => exact .pure nofun
  | some name => exact upToOpeners_variableGroupsAfter hinner name

theorem upToOpeners_recordFields :
    (recordFields inner).UpToOpeners n fun vs => ∀ v ∈ vs, v.type.depth ≤ limit := by
  let P (vs : List Variable) : Prop := ∀ v ∈ vs, v.type.depth ≤ limit
  unfold recordFields
  dsimp only
  refine .bind (.loop (I := P) nofun fun fields _ hfields => ?_) fun r hfields => ?_
  · exact .behind fun t => .bind (upToOpeners_variableGroupsAfter hinner _) fun group hgroup =>
      .pure (List.forall_mem_append.mpr ⟨hfields, hgroup⟩)
  · exact .ite (.behind fun _ => .behind fun _ => .pure hfields) (.behind fun _ => .pure hfields)

theorem upToOpeners_recordType : (recordType inner).UpToOpeners n (·.depth ≤ limit + 1) :=
  .behind fun _ => .ite (.behind fun _ => .pure (Nat.zero_le _))
    (.bind (upToOpeners_recordFields hinner) fun _ hvs =>
      .pure (Nat.succ_le_succ (fieldsDepth_le_iff.mpr hvs)))

theorem upToOpeners_dynamicArrayType :
    (dynamicArrayType inner).UpToOpeners n (·.depth ≤ limit + 1) := by
  have hrest (dimension : Option String) : UpToOpeners n (·.depth ≤ limit + 1) (do
      let _ ← expect (.keyword .OF)
      return TypeReference.array true dimension.toList (← inner)) :=
    .behind fun _ => .bind hinner fun _ htype => .pure (Nat.succ_le_succ htype)
  unfold dynamicArrayType
  dsimp only
  refine .behind fun _ => .behind fun found => .ite ?_ ?_
  · exact .behind fun _ => .behind fun dimension => hrest dimension
  · exact .behind fun dimension => hrest dimension

theorem upToOpeners_staticArrayType :
    (staticArrayType inner).UpToOpeners n (·.depth ≤ limit + 1) := by
  have hrest (dimensions : List (Option String)) : UpToOpeners n (·.depth ≤ limit + 1) (do
      let _ ← expect (.keyword .OF)
      return TypeReference.array false (dimensions.filterMap id) (← inner)) :=
    .behind fun _ => .bind hinner fun _ htype => .pure (Nat.succ_le_succ htype)
  unfold staticArrayType
  dsimp only
  refine .behind fun found => .ite ?_ ?_
  · exact .behind fun _ => .behind fun _ => .behind fun dimensions => hrest dimensions
  · exact .behind fun dimensions => hrest dimensions

end

/-- Behind a word that opens a type there is one less of them. -/
theorem UpToOpeners.behind_opener {P : α → Prop} {p : Parser α}
    (hkind : (s.kindAt 1).opensType = true)
    (hs : s.openers ≤ n) (hp : ∀ m, n = m + 1 → p.UpToOpeners m P) :
    P ((next >>= fun _ => p).run s).1 := by
  rw [openers_read, if_pos hkind] at hs
  obtain ⟨m, rfl⟩ := Nat.exists_eq_add_of_le' (Nat.le_trans (Nat.le_add_left ..) hs)
  exact (hp m rfl).result s.read (Nat.le_of_succ_le_succ hs)

/-- A type has no more levels than words that open types are left. -/
theorem upToOpeners_typeReference (n : Nat) : typeReference.UpToOpeners n (·.depth ≤ n) := by
  -- The induction is on how many of these words are left: a type inside another has one less.
  constructor
  induction n using Nat.strongRecOn with
  | ind n ih =>
    intro s hs
    have hinner (m : Nat) (hm : n = m + 1) : typeReference.UpToOpeners m (·.depth ≤ m) :=
      ⟨ih m (hm ▸ Nat.lt_succ_self m)⟩
    obtain ⟨kind, t, hpeek⟩ : ∃ kind t, peekKind.run s = (kind, t) := ⟨_, _, rfl⟩
    have hkind : t.kindAt 1 = kind := kindAt_of_peekKind hpeek
    have ht : t.openers ≤ n := (peeks_peekKind.of_run hpeek).later.openers_le.trans hs
    have hafter {p : Parser TypeReference} (hopens : kind.opensType = true)
        (hp : ∀ m, n = m + 1 → p.UpToOpeners m (·.depth ≤ m + 1)) :
        ((next >>= fun _ => p).run t).1.depth ≤ n :=
      UpToOpeners.behind_opener (hkind ▸ hopens) ht fun m hm => hm ▸ hp m hm
    rw [typeReference_run, typeOf, run_bind, hpeek]
    dsimp only
    split
    · exact hafter rfl fun m hm => upToOpeners_recordType (hinner m hm)
    · exact hafter rfl fun m hm => upToOpeners_dynamicArrayType (hinner m hm)
    · exact hafter rfl fun m hm => upToOpeners_staticArrayType (hinner m hm)
    · exact (upToOpeners_leafType.result t ht).le.trans (Nat.zero_le n)

/-! ## Declarations -/

theorem upToOpeners_closeStatement {P : NodeKind → Prop} (o : Opening)
    {kind : NodeKind} (h : P kind) :
    (closeStatement o kind).UpToOpeners n fun node => P node.kind :=
  ⟨fun _ _ => (closeStatement_eq rfl).2.1 ▸ h⟩

theorem upToOpeners_clauseBody {P : NodeKind → Prop} {body : BodyParser}
    [∀ ctx region, (body ctx region).Flows] (ctx : Context) (o : Opening) {kind : NodeKind}
    (h : P kind) : (clauseBody body ctx o kind).UpToOpeners n fun node => P node.kind :=
  .behind fun _ => .behind fun _ => ⟨fun _ _ => (closeNode_eq rfl).2.1 ▸ h⟩

section

variable (o : Opening) (ctx : Context)

theorem upToOpeners_variablesStatement (word : Keyword) :
    (variablesStatement word ctx o).UpToOpeners n
    fun node => ∀ d ∈ node.kind.declarations, d.TypeWithin n := by
  refine .behind fun _ => .bind (upToOpeners_variableGroups (upToOpeners_typeReference n))
      fun vars hvars =>
    .behind fun _ => upToOpeners_closeStatement
      (P := fun kind => ∀ d ∈ kind.declarations, d.TypeWithin n)
      o fun d hd => ?_
  obtain ⟨v, hv, rfl⟩ := List.mem_map.mp hd
  exact List.forall_mem_singleton.mpr (hvars v hv)

theorem upToOpeners_constant (levels : Nat) : (constant levels ctx).UpToOpeners n fun found =>
    ∀ c ∈ found.toList, (Declaration.constant c).TypeWithin n := by
  let P (found : Option Constant) : Prop :=
    ∀ c ∈ found.toList, (Declaration.constant c).TypeWithin n
  have hvalue (name : String) (span : Span) (type : Option TypeReference)
      (htype : ∀ type' ∈ type.toList, type'.depth ≤ n) : UpToOpeners n P (do
      if ← expect (.mark .equal) then do
        let value ← some <$> expectExpression levels
        declareName ctx (.constant ⟨name, span, type, value⟩)
        return some ⟨name, span, type, value⟩
      else do
        let value ← pure none
        declareName ctx (.constant ⟨name, span, type, value⟩)
        return some ⟨name, span, type, value⟩) :=
    .behind fun _ => .ite
      (.behind fun _ => .behind fun _ => .pure (List.forall_mem_singleton.mpr htype))
      (.behind fun _ => .behind fun _ => .pure (List.forall_mem_singleton.mpr htype))
  unfold constant
  dsimp only
  refine .behind fun name => ?_
  cases name with
  | none => exact .pure nofun
  | some name =>
    refine .behind fun _ => .ite ?_ ?_
    · exact .bind (.pure nofun) (hvalue _ _)
    · exact .bind (P := fun type => ∀ type' ∈ type.toList, type'.depth ≤ n)
        (.map (upToOpeners_typeReference n).singleton) (hvalue _ _)

theorem upToOpeners_constantsStatement (levels : Nat) (word : Keyword) :
    (constantsStatement levels word ctx o).UpToOpeners n
      fun node => ∀ d ∈ node.kind.declarations, d.TypeWithin n := by
  refine .behind fun _ => .bind (.commaList (upToOpeners_constant ctx levels))
      fun constants hconstants =>
    upToOpeners_closeStatement (P := fun kind => ∀ d ∈ kind.declarations, d.TypeWithin n)
      o fun d hd => ?_
  obtain ⟨c, hc, rfl⟩ := List.mem_map.mp hd
  exact hconstants c hc

theorem upToOpeners_typesStatement (word : Keyword) : (typesStatement word ctx o).UpToOpeners n
    fun node => ∀ d ∈ node.kind.declarations, d.TypeWithin n := by
  have htype : (typeName ctx).UpToOpeners n fun found =>
      ∀ t ∈ found.toList, (Declaration.type t).TypeWithin n := by
    refine .behind fun name => ?_
    cases name with
    | none => exact .pure nofun
    | some name =>
      exact .bind (upToOpeners_typeReference n) fun type hdepth => .behind fun _ =>
        .pure (List.forall_mem_singleton.mpr (List.forall_mem_singleton.mpr hdepth))
  refine .behind fun _ => .bind (.commaList htype) fun types htypes =>
    upToOpeners_closeStatement (P := fun kind => ∀ d ∈ kind.declarations, d.TypeWithin n)
      o fun d hd => ?_
  obtain ⟨t, ht, rfl⟩ := List.mem_map.mp hd
  exact htypes t ht

variable {body : BodyParser} [∀ ctx region, (body ctx region).Flows]

theorem upToOpeners_caseClause (levels : Nat) (before : List Node) :
    (caseClause levels body ctx before o).UpToOpeners n (·.kind.declarations = []) := by
  let P (kind : NodeKind) : Prop := kind.declarations = []
  unfold caseClause
  dsimp only
  refine .ite (.behind fun _ => ?_) (.ite (.behind fun _ => ?_) ?_) <;>
  exact upToOpeners_clauseBody (P := P) ctx o rfl

theorem upToOpeners_menuClause (levels : Nat) :
    (menuClause levels body ctx o).UpToOpeners n (·.kind.declarations = []) :=
  .behind fun _ => upToOpeners_clauseBody (P := fun kind => kind.declarations = []) ctx o rfl

end

/-- The types that a node declares have no more levels than words that open types are left before
it. -/
theorem Reads.typesWithin (h : Reads o s n t) (hs : s.openers ≤ limit) :
    ∀ d ∈ n.kind.declarations, d.TypeWithin limit := by
  have hnothing (h : n.kind.declarations = []) :
      ∀ d ∈ n.kind.declarations, d.TypeWithin limit := by
    rw [h]
    exact nofun
  cases h with
  | @statement levels f word ctx hrun hform =>
    unfold formWith at hrun
    cases f with
    | vars => exact (upToOpeners_variablesStatement o ctx word).of_run hrun hs
    | constants => exact (upToOpeners_constantsStatement o ctx levels word).of_run hrun hs
    | types => exact (upToOpeners_typesStatement o ctx word).of_run hrun hs
    | _ => exact hnothing (declarations_of_form hform (by decide))
  | caseClause hrun => exact hnothing ((upToOpeners_caseClause o _ _ _).of_run hrun hs)
  | menuClause hrun => exact hnothing ((upToOpeners_menuClause o _ _).of_run hrun hs)
  | branch hkind hrun =>
    refine hnothing ?_
    rw [kind_of_branch hrun]
    obtain rfl | rfl := hkind <;> rfl

end Parser

end FourGL
