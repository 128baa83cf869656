import FourGL.Completion

/-!
# Rules of newer versions

Entries of a rule table, their possibilities, what these offer and the conditions they have may each
come with a version of their own. In an older version each kind of them is passed over in a way of
its own: an entry gives way to the one of the category, a possibility to the next one, a condition
holds. All of this comes to the same: the rules are read as if what is newer were not there
(`resolve_upTo`).
-/

namespace FourGL

/-! ## Deleting what is newer -/

/-- The possibility without the offers and conditions that are newer than `v`. -/
def Possibility.upTo (v : Version) (p : Possibility) : Possibility where
  version := p.version
  tokens := p.tokens.filter (·.version.availableIn v)
  providers := p.providers.filter (·.version.availableIn v)
  conditions := p.conditions.filter (·.version.availableIn v)

/-- The entry without what is newer than `v` in it. -/
def Entry.upTo (v : Version) (e : Entry) : Entry where
  trigger := e.trigger
  version := e.version
  possibilities := (e.possibilities.filter (·.version.availableIn v)).map (·.upTo v)

@[simp] theorem Possibility.version_upTo (v : Version) (p : Possibility) :
    (p.upTo v).version = p.version := rfl

@[simp] theorem Entry.version_upTo (v : Version) (e : Entry) : (e.upTo v).version = e.version := rfl

@[simp] theorem Entry.trigger_upTo (v : Version) (e : Entry) : (e.upTo v).trigger = e.trigger := rfl

/-- The table without anything that is newer than `v`. -/
def RuleTable.upTo (v : Version) (t : RuleTable) : RuleTable where
  version := t.version
  entries := (t.entries.filter (·.version.availableIn v)).map (·.upTo v)
  distinct := by
    rw [List.map_map]
    exact t.distinct.sublist (List.filter_sublist.map Entry.trigger)

/-! ## Choosing a possibility -/

/-- A condition that is newer holds anyway. -/
theorem Possibility.qualifies_upTo (p : Possibility) (backward : List Kind) (v : Version) :
    (p.upTo v).qualifies backward v = p.qualifies backward v := by
  have hconditions : (p.upTo v).conditions.all (·.holds backward v) =
      p.conditions.all (·.holds backward v) := by
    refine List.all_filter.trans (congrArg p.conditions.all (funext fun c => ?_))
    cases h : c.version.availableIn v <;> simp [Condition.holds, h]
  rw [qualifies, qualifies, hconditions, version_upTo]

/-- A possibility that is newer does not qualify. -/
theorem Entry.possibility?_upTo (e : Entry) (backward : List Kind) (v : Version) :
    (e.upTo v).possibility? backward v = (e.possibility? backward v).map (·.upTo v) := by
  unfold possibility? upTo
  rw [List.find?_map, List.find?_filter]
  refine congrArg (fun q => (e.possibilities.find? q).map _) (funext fun p => ?_)
  rw [Function.comp_apply, p.qualifies_upTo, Possibility.qualifies]
  cases p.version.availableIn v <;> simp [-List.all_eq_true]

namespace RuleTable

/-- An entry that is newer hides no other, since its trigger has no other. -/
theorem get?_upTo (t : RuleTable) (trigger : Trigger) (v : Version) :
    (t.upTo v).get? trigger =
      ((t.get? trigger).filter (·.version.availableIn v)).map (·.upTo v) := by
  obtain ⟨version, entries, distinct⟩ := t
  change ((entries.filter _).map _).find? _ = ((entries.find? _).filter _).map _
  rw [List.find?_map]
  refine congrArg (Option.map (Entry.upTo v)) ?_
  change (entries.filter _).find? (fun e => e.trigger == trigger) = _
  induction entries with
  | nil => rfl
  | cons e es ih =>
    obtain ⟨hnew, hdistinct⟩ := List.nodup_cons.mp distinct
    cases htrigger : e.trigger == trigger with
    | false =>
      rw [List.find?_cons_of_neg (by simp [htrigger]), ← ih hdistinct, List.filter_cons]
      split
      · exact List.find?_cons_of_neg (by simp [htrigger])
      · rfl
    | true =>
      rw [List.find?_cons_of_pos (by simp [htrigger]), List.filter_cons]
      split
      next h => rw [List.find?_cons_of_pos (by simp [htrigger]), Option.filter_some, if_pos h]
      next h =>
        rw [Option.filter_some, if_neg h, List.find?_eq_none]
        intro e' he' htrigger'
        refine hnew (List.mem_map.mpr ⟨e', (List.mem_filter.mp he').1, ?_⟩)
        exact (eq_of_beq htrigger').trans (eq_of_beq htrigger).symm

theorem lookup_upTo (t : RuleTable) (kind : Kind) (v : Version) :
    (t.upTo v).lookup kind v = (t.lookup kind v).map (·.upTo v) := by
  have hentries (triggers : List Trigger) : triggers.filterMap (t.upTo v).get? =
      ((triggers.filterMap t.get?).filter (·.version.availableIn v)).map (·.upTo v) := by
    rw [List.filter_filterMap, List.map_filterMap]
    exact congrArg (List.filterMap · triggers) (funext fun trigger => t.get?_upTo trigger v)
  unfold lookup
  rw [hentries, List.find?_map, List.find?_filter]
  refine congrArg (fun q => (List.find? q _).map _) (funext fun e => ?_)
  simp

end RuleTable

/-! ## Resolving -/

namespace CompletionRequest

/-- An offer that is newer adds nothing. -/
theorem items_upTo (r : CompletionRequest) (providers : Providers) (s : Surroundings)
    (p : Possibility) : r.items providers s (p.upTo r.version) = r.items providers s p := by
  have htokens : r.tokenItems (p.upTo r.version) = r.tokenItems p := by
    simp [tokenItems, Possibility.upTo, List.filter_filter]
  have hproviders : (p.upTo r.version).providers.flatMap (r.providerItems providers s) =
      p.providers.flatMap (r.providerItems providers s) := by
    have hnewer {offer : ProviderOffer} (h : offer.version.availableIn r.version = false) :
        r.providerItems providers s offer = [] := by simp [providerItems, h]
    change (p.providers.filter _).flatMap _ = _
    induction p.providers with
    | nil => rfl
    | cons offer offers ih =>
      rw [List.filter_cons]
      split
      · rw [List.flatMap_cons, List.flatMap_cons, ih]
      next h => rw [ih, List.flatMap_cons, hnewer (Bool.eq_false_iff.mpr h), List.nil_append]
  rw [items, items, htokens, hproviders]

/-- The candidates in a version are those of the table without what is newer. -/
theorem resolve_upTo (r : CompletionRequest) (table : RuleTable) (providers : Providers)
    (trigger : Kind) (backward : List Kind) (s : Surroundings) :
    r.resolve (table.upTo r.version) providers trigger backward s =
      r.resolve table providers trigger backward s := by
  unfold resolve
  rw [table.lookup_upTo]
  cases table.lookup trigger r.version with
  | none => rfl
  | some e =>
    rw [Option.map_some, Option.bind_some, Option.bind_some, e.possibility?_upTo]
    cases e.possibility? backward r.version with
    | none => rfl
    | some p => simp only [Option.map_some, r.items_upTo]

end CompletionRequest

end FourGL
