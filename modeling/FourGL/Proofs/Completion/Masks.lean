import FourGL.Completion

/-!
# Requests for some kinds of members

A request names the kinds of members it asks for. Keywords and marks are left out one way and the
names that providers offer in another, before candidates are told apart; yet in the end a request
for some kinds gets what a request for all of them gets, less the candidates of other kinds
(`completeAt_kinds`). For each built-in provider offers a single kind of member, and items that
stand for one candidate are of one kind.
-/

namespace FourGL

/-- Whether a request for these kinds asks for items like this one. -/
def MemberKinds.admits (s : MemberKinds) (a : Item) : Bool := s.contains a.kind.member

/-- Items of one kind of member are all asked for or all left out. -/
theorem MemberKinds.filter_admits (s : MemberKinds) {items : List Item}
    (h : ∀ a ∈ items, a.kind.member = k) :
    items.filter s.admits = if s.contains k then items else [] := by
  split
  next hk => exact List.filter_eq_self.mpr fun a ha => by rw [admits, h a ha, hk]
  next hk => exact List.filter_eq_nil_iff.mpr fun a ha => by rwa [admits, h a ha]

/-! ## Filtering candidates -/

namespace Candidates

theorem eq_of_items {c d : Candidates} (h : c.items = d.items) : c = d := by
  cases c
  cases d
  cases h
  rfl

section

variable {p : Item → Bool} (hp : ∀ {a b : Item}, a.same b = true → p a = p b)
include hp

/-- Whether an item that passes is there already is seen among those that pass. -/
theorem any_same_filter (items : List Item) {item : Item} (h : p item = true) :
    (items.filter p).any (·.same item) = items.any (·.same item) := by
  rw [List.any_filter]
  congr 1
  funext a
  cases hsame : a.same item with
  | false => exact Bool.and_false _
  | true => rw [hp hsame, h, Bool.and_self]

theorem filter_insert (c : Candidates) (item : Item) :
    (c.insert item).filter p = if p item then (c.filter p).insert item else c.filter p := by
  refine eq_of_items ?_
  rw [items_filter, items_insert]
  cases h : p item with
  | false =>
    rw [if_neg Bool.false_ne_true]
    split
    · rfl
    · rw [List.filter_append, List.filter_cons_of_neg (by simp [h]), List.filter_nil,
        List.append_nil, items_filter]
  | true =>
    rw [if_pos rfl, items_insert, items_filter, any_same_filter hp c.items h]
    split
    · rfl
    · rw [List.filter_append, List.filter_cons_of_pos h, List.filter_nil]

/-- Which items are filtered out makes no difference to how the others are told apart. -/
theorem filter_insertAll (c : Candidates) (items : List Item) :
    (c.insertAll items).filter p = (c.filter p).insertAll (items.filter p) := by
  induction items generalizing c with
  | nil => rfl
  | cons item items ih =>
    refine (ih (c.insert item)).trans ?_
    rw [filter_insert hp, List.filter_cons]
    split
    · rfl
    · rfl

end

theorem filter_startingWith (c : Candidates) (p : Item → Bool) (word : String) :
    (c.startingWith word).filter p = (c.filter p).startingWith word := by
  refine eq_of_items ?_
  simp only [startingWith, items_filter, List.filter_filter, Bool.and_comm]

end Candidates

/-! ## Providers of one kind -/

/-- The provider offers members of the kind `k` only. -/
structure Provider.Offers (p : Provider) (k : MemberKind) : Prop where
  kinds_eq : p.kinds = .ofList [k]
  member_eq : ∀ s, ∀ a ∈ p.items s, a.kind.member = k

namespace Provider

/-- Names that are declared in scopes give items of one kind. -/
theorem member_of_scopes (item : α → Item) (hitem : ∀ x, (item x).kind.member = k)
    (f : Scope → List α) (s : Surroundings) :
    ∀ a ∈ s.scopes.flatMap fun c => (f c).map item, a.kind.member = k := by
  intro a h
  obtain ⟨c, -, ha⟩ := List.mem_flatMap.mp h
  obtain ⟨x, -, rfl⟩ := List.mem_map.mp ha
  exact hitem x

theorem offers_vars : vars.Offers .vars where
  kinds_eq := rfl
  member_eq s a h := by
    obtain h | h := List.mem_append.mp h
    · obtain ⟨name, -, rfl⟩ := List.mem_map.mp h
      rfl
    · exact member_of_scopes .ofVariable (fun _ => rfl) (·.vars) s a h

theorem offers_functions : functions.Offers .functions where
  kinds_eq := rfl
  member_eq s a h := by
    obtain ⟨f, -, rfl⟩ := List.mem_map.mp h
    rfl

theorem offers_constants : constants.Offers .constants where
  kinds_eq := rfl
  member_eq := member_of_scopes .ofConstant (fun _ => rfl) (·.constants)

theorem offers_types : types.Offers .types where
  kinds_eq := rfl
  member_eq := member_of_scopes .ofTypeName (fun _ => rfl) (·.types)

theorem offers_cursors : cursors.Offers .cursors where
  kinds_eq := rfl
  member_eq := member_of_scopes .ofCursor (fun _ => rfl) (·.cursors)

end Provider

/-- Each provider that is always there offers one kind of member. -/
theorem Providers.offers_builtin {id : String} {p : Provider} (h : builtin.get? id = some p) :
    ∃ k, p.Offers k := by
  obtain ⟨⟨_, _⟩, hfind, rfl⟩ := Option.map_eq_some_iff.mp h
  have hmem := List.mem_of_find?_eq_some hfind
  simp only [builtin, List.mem_cons, List.not_mem_nil, or_false, Prod.mk.injEq] at hmem
  obtain ⟨-, rfl⟩ | ⟨-, rfl⟩ | ⟨-, rfl⟩ | ⟨-, rfl⟩ | ⟨-, rfl⟩ := hmem
  · exact ⟨_, Provider.offers_vars⟩
  · exact ⟨_, Provider.offers_functions⟩
  · exact ⟨_, Provider.offers_constants⟩
  · exact ⟨_, Provider.offers_types⟩
  · exact ⟨_, Provider.offers_cursors⟩

/-- A provider of one kind runs where the rule and the request both name that kind. -/
theorem Provider.Offers.isEmpty_inter {p : Provider} (h : p.Offers k) (s t : MemberKinds) :
    ((s.inter t).inter p.kinds).isEmpty = !(s.contains k && t.contains k) := by
  rw [Bool.eq_iff_iff, MemberKinds.isEmpty_iff, h.kinds_eq, Bool.not_eq_true']
  refine ⟨fun hempty => by simpa [MemberKinds.ofList] using hempty k, fun hk j => ?_⟩
  by_cases hj : j = k
  · rw [hj, MemberKinds.contains_inter, MemberKinds.contains_inter, hk, Bool.false_and]
  · simp [MemberKinds.ofList, hj]

/-! ## Requests -/

namespace CompletionRequest

variable (version : Version) (kinds : MemberKinds)

theorem tokenItems_kinds (p : Possibility) : tokenItems ⟨version, kinds⟩ p =
    (tokenItems ⟨version, .all⟩ p).filter kinds.admits := by
  have hmember : ∀ a ∈ tokenItems ⟨version, .all⟩ p, a.kind.member = .keywords := by
    intro a ha
    obtain ⟨offer, -, hitem⟩ := List.mem_filterMap.mp ha
    unfold Kind.item? at hitem
    split at hitem
    · obtain rfl := Option.some.inj hitem
      rfl
    · obtain rfl := Option.some.inj hitem
      rfl
    · cases hitem
  rw [kinds.filter_admits hmember]
  rfl

section

variable {providers : Providers}
  (hproviders : ∀ {id p}, providers.get? id = some p → ∃ k, p.Offers k) (s : Surroundings)
include hproviders

theorem providerItems_kinds (offer : ProviderOffer) :
    providerItems ⟨version, kinds⟩ providers s offer =
      (providerItems ⟨version, .all⟩ providers s offer).filter kinds.admits := by
  unfold providerItems
  dsimp only
  split
  · cases hget : providers.get? offer.provider with
    | none => rfl
    | some p =>
      obtain ⟨k, hoffers⟩ := hproviders hget
      dsimp only
      rw [hoffers.isEmpty_inter, hoffers.isEmpty_inter, MemberKinds.contains_all, Bool.and_true]
      cases offer.kinds.contains k with
      | false => rfl
      | true =>
        refine Eq.trans ?_ (kinds.filter_admits (hoffers.member_eq s)).symm
        cases kinds.contains k <;> rfl
  · rfl

theorem items_kinds (p : Possibility) : items ⟨version, kinds⟩ providers s p =
    (items ⟨version, .all⟩ providers s p).filter kinds.admits := by
  rw [items, items, List.filter_append, ← tokenItems_kinds, List.filter_flatMap]
  exact congrArg (_ ++ p.providers.flatMap ·)
    (funext fun offer => providerItems_kinds version kinds hproviders s offer)

theorem resolve_kinds (table : RuleTable) (trigger : Kind) (backward : List Kind) :
    resolve ⟨version, kinds⟩ table providers trigger backward s =
      (resolve ⟨version, .all⟩ table providers trigger backward s).filter kinds.admits := by
  have hsame {a b : Item} (h : a.same b = true) : kinds.admits a = kinds.admits b := by
    rw [MemberKinds.admits, MemberKinds.admits, ((a.same_iff b).mp h).2]
  unfold resolve
  dsimp only
  split
  · rw [Candidates.filter_insertAll hsame, items_kinds version kinds hproviders]
    rfl
  · rfl

end

/-- With the providers that are always there, a request for some kinds of members gets the
candidates that a request for all kinds gets, in the same order and with the same details, but only
those of the kinds it asks for. -/
theorem completeAt_kinds (table : RuleTable) (text : String) (offset : Nat) :
    completeAt ⟨version, kinds⟩ table .builtin text offset =
      (completeAt ⟨version, .all⟩ table .builtin text offset).filter
        fun a => kinds.contains a.kind.member := by
  unfold completeAt
  dsimp only
  rw [resolve_kinds version kinds Providers.offers_builtin]
  exact (Candidates.filter_startingWith _ _ _).symm

end CompletionRequest

end FourGL
