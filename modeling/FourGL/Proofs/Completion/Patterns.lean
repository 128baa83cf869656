import FourGL.Completion.Pattern
import Mathlib.Data.List.TakeWhile

/-!
# Ordered patterns

The targets of an ordered pattern are runs of guards, each but the last before a required kind. Each
required kind is looked for behind the place where the one before it was met. The pattern is found
if all of them are met and no guard stands on the way to the kind that it is before, the place of
that kind included; the last guards are on watch to the end (`found_ordered_iff`).
-/

namespace FourGL

/-- Guards and the required kind behind them. -/
structure Leg where
  guards : List Kind
  required : Kind

def Leg.targets (l : Leg) : List Target :=
  l.guards.map (⟨·, true⟩) ++ [⟨l.required, false⟩]

namespace Pattern

/-! ## Places -/

/-- The kind stands at the place, and at none before it from `first` on. -/
def FirstAt (k : Kind) (kinds : List Kind) (first place : Nat) : Prop :=
  first ≤ place ∧ kinds[place]? = some k ∧ ∀ p, first ≤ p → p < place →
    kinds[p]? ≠ some k

/-- None of the kinds `ks` stands at a place from `first` on before `stop`. -/
def Absent (ks kinds : List Kind) (first stop : Nat) : Prop :=
  ∀ p, first ≤ p → p < stop → ∀ k ∈ ks, kinds[p]? ≠ some k

theorem firstAt_zero : FirstAt k (kind :: kinds) 0 0 ↔ kind = k := by
  simp [FirstAt]

theorem firstAt_succ :
    FirstAt k (kind :: kinds) 0 (place + 1) ↔ kind ≠ k ∧ FirstAt k kinds 0 place := by
  constructor
  · rintro ⟨-, hplace, hbefore⟩
    refine ⟨fun heq => hbefore 0 (Nat.le_refl _) (Nat.succ_pos _) (by simp [heq]),
      Nat.zero_le _, hplace, ?_⟩
    exact fun p _ hp => hbefore (p + 1) (Nat.zero_le _) (Nat.succ_lt_succ hp)
  · rintro ⟨hne, -, hplace, hbefore⟩
    refine ⟨Nat.zero_le _, hplace, fun p _ hp => ?_⟩
    cases p with
    | zero => simpa using hne
    | succ p => exact hbefore p (Nat.zero_le _) (Nat.lt_of_succ_lt_succ hp)

theorem absent_succ :
    Absent ks (kind :: kinds) 0 (stop + 1) ↔ kind ∉ ks ∧ Absent ks kinds 0 stop := by
  constructor
  · intro h
    refine ⟨fun hmem => h 0 (Nat.le_refl _) (Nat.succ_pos _) kind hmem rfl, fun p _ hp => ?_⟩
    exact h (p + 1) (Nat.zero_le _) (Nat.succ_lt_succ hp)
  · rintro ⟨hnot, h⟩ p - hp k hk
    cases p with
    | zero =>
      rintro ⟨⟩
      exact hnot hk
    | succ p => exact h p (Nat.zero_le _) (Nat.lt_of_succ_lt_succ hp) k hk

theorem firstAt_drop : FirstAt k (kinds.drop first) 0 place ↔
    FirstAt k kinds first (first + place) := by
  simp only [FirstAt, List.getElem?_drop, Nat.zero_le, true_and, true_implies, Nat.le_add_right]
  refine and_congr_right fun _ => ⟨fun h p hfirst hp => ?_, fun h p hp => ?_⟩
  · obtain ⟨d, rfl⟩ := Nat.exists_eq_add_of_le hfirst
    exact h d (Nat.lt_of_add_lt_add_left hp)
  · exact h (first + p) (Nat.le_add_right _ _) (Nat.add_lt_add_left hp _)

theorem absent_drop : Absent ks (kinds.drop first) 0 stop ↔
    Absent ks kinds first (first + stop) := by
  simp only [Absent, List.getElem?_drop, Nat.zero_le, true_implies]
  refine ⟨fun h p hfirst hp => ?_, fun h p hp => ?_⟩
  · obtain ⟨d, rfl⟩ := Nat.exists_eq_add_of_le hfirst
    exact h d (Nat.lt_of_add_lt_add_left hp)
  · exact h (first + p) (Nat.le_add_right _ _) (Nat.add_lt_add_left hp _)

/-! ## Searching -/

/-- The targets of legs and of the guards behind them. -/
def targetsOf (legs : List Leg) (guards : List Kind) : List Target :=
  legs.flatMap Leg.targets ++ guards.map (⟨·, true⟩)

/-- Every list of targets consists of legs and the guards behind them. -/
theorem exists_targetsOf (targets : List Target) :
    ∃ legs guards, targetsOf legs guards = targets := by
  induction targets with
  | nil => exact ⟨[], [], rfl⟩
  | cons t targets ih =>
    obtain ⟨kind, isGuard⟩ := t
    obtain ⟨legs, guards, rfl⟩ := ih
    cases isGuard with
    | false => exact ⟨⟨[], kind⟩ :: legs, guards, rfl⟩
    | true =>
      cases legs with
      | nil => exact ⟨[], kind :: guards, rfl⟩
      | cons l legs => exact ⟨⟨kind :: l.guards, l.required⟩ :: legs, guards, rfl⟩

/-- Guards with nothing required behind them are never met. -/
theorem meets_guards (guards kinds : List Kind) :
    meets (guards.map (⟨·, true⟩)) kinds = true ↔ Absent guards kinds 0 kinds.length := by
  induction kinds with
  | nil => simp [meets, Absent]
  | cons kind kinds ih =>
    have htake : (guards.map (⟨·, true⟩ : Kind → Target)).takeWhile (·.isGuard) =
        guards.map (⟨·, true⟩) := List.takeWhile_eq_self_iff.mpr (by simp)
    have hdrop : (guards.map (⟨·, true⟩ : Kind → Target)).dropWhile (·.isGuard) = [] :=
      List.dropWhile_eq_nil_iff.mpr (by simp)
    rw [meets, htake, hdrop, List.length_cons, absent_succ, ← ih]
    by_cases hmem : kind ∈ guards <;> simp [hmem]

/-- One step of the search for the required kind of a leg. -/
theorem meets_leg_cons (l : Leg) (rest : List Target) (kind : Kind) (kinds : List Kind) :
    meets (l.targets ++ rest) (kind :: kinds) =
      if kind ∈ l.guards then false
      else if l.required = kind then meets rest kinds else meets (l.targets ++ rest) kinds := by
  have htargets : l.targets ++ rest = l.guards.map (⟨·, true⟩) ++
      (⟨l.required, false⟩ :: rest) :=
    List.append_assoc _ _ _
  have hguards : ∀ t ∈ l.guards.map (⟨·, true⟩ : Kind → Target),
      t.isGuard = true := by simp
  rw [meets, htargets, List.takeWhile_append_of_pos hguards, List.dropWhile_append_of_pos hguards]
  simp

/-- The search gets past a leg if its required kind is there and no guard stands up to its first
place. -/
theorem meets_leg (l : Leg) (rest : List Target) (kinds : List Kind) :
    meets (l.targets ++ rest) kinds = true ↔ ∃ place, FirstAt l.required kinds 0 place ∧
      Absent l.guards kinds 0 (place + 1) ∧ meets rest (kinds.drop (place + 1)) = true := by
  induction kinds with
  | nil => simp [meets, Leg.targets, FirstAt]
  | cons kind kinds ih =>
    rw [meets_leg_cons]
    constructor
    · intro h
      split_ifs at h with hguard hrequired
      · exact ⟨0, firstAt_zero.mpr hrequired.symm,
          absent_succ.mpr ⟨hguard, by simp [Absent]⟩, h⟩
      · obtain ⟨place, hfirst, habsent, hrest⟩ := ih.mp h
        exact ⟨place + 1, firstAt_succ.mpr ⟨Ne.symm hrequired, hfirst⟩,
          absent_succ.mpr ⟨hguard, habsent⟩, hrest⟩
    · rintro ⟨place, hfirst, habsent, hrest⟩
      obtain ⟨hguard, habsent⟩ := absent_succ.mp habsent
      rw [if_neg hguard]
      cases place with
      | zero =>
        rw [if_pos (firstAt_zero.mp hfirst).symm]
        exact hrest
      | succ place =>
        obtain ⟨hne, hfirst⟩ := firstAt_succ.mp hfirst
        rw [if_neg hne.symm]
        exact ih.mpr ⟨place, hfirst, habsent, hrest⟩

/-- The legs are gone through from a place on: the required kind of each is first met at a place,
the search goes on behind it, and no guard stands on the way or, behind the last leg, anywhere. -/
def GoesThrough (legs : List Leg) (guards kinds : List Kind) (first : Nat) : Prop :=
  ∃ begins : Nat → Nat, begins 0 = first ∧
    (∀ j l, legs[j]? = some l → ∃ place, FirstAt l.required kinds (begins j) place ∧
      begins (j + 1) = place + 1 ∧ Absent l.guards kinds (begins j) (begins (j + 1))) ∧
    Absent guards kinds (begins legs.length) kinds.length

theorem goesThrough_cons {l : Leg} {legs : List Leg} :
    GoesThrough (l :: legs) guards kinds first ↔
    ∃ place, FirstAt l.required kinds first place ∧ Absent l.guards kinds first (place + 1) ∧
      GoesThrough legs guards kinds (place + 1) := by
  constructor
  · rintro ⟨begins, rfl, hlegs, hguards⟩
    obtain ⟨place, hfirst, hbehind, habsent⟩ := hlegs 0 l rfl
    exact ⟨place, hfirst, hbehind ▸ habsent, fun j => begins (j + 1), hbehind,
      fun j m hm => hlegs (j + 1) m hm, hguards⟩
  · rintro ⟨place, hfirst, habsent, begins, hbehind, hlegs, hguards⟩
    refine ⟨fun j => j.casesOn first begins, rfl, fun j m hm => ?_, hguards⟩
    cases j with
    | zero =>
      obtain rfl := Option.some.inj hm
      refine ⟨place, hfirst, hbehind, ?_⟩
      change Absent l.guards kinds first (begins 0)
      rwa [hbehind]
    | succ j => exact hlegs j m hm

theorem goesThrough_nil :
    GoesThrough [] guards kinds first ↔ Absent guards kinds first kinds.length :=
  ⟨fun ⟨_, hfirst, _, h⟩ => hfirst ▸ h, fun h => ⟨fun _ => first, rfl, by simp, h⟩⟩

theorem meets_targetsOf (legs : List Leg) (guards kinds : List Kind) (first : Nat) :
    meets (targetsOf legs guards) (kinds.drop first) = true ↔
    GoesThrough legs guards kinds first := by
  induction legs generalizing first with
  | nil =>
    have hstop : Absent guards kinds first (first + (kinds.length - first)) ↔
        Absent guards kinds first kinds.length :=
      forall₂_congr fun p hp => imp_congr_left (by omega)
    rw [show targetsOf [] guards = guards.map (⟨·, true⟩) from rfl, meets_guards, absent_drop,
      List.length_drop, hstop, goesThrough_nil]
  | cons l legs ih =>
    rw [show targetsOf (l :: legs) guards = l.targets ++ targetsOf legs guards
        from List.append_assoc _ _ _,
      meets_leg, goesThrough_cons]
    constructor
    · rintro ⟨place, hfirst, habsent, hrest⟩
      rw [List.drop_drop, ← Nat.add_assoc] at hrest
      exact ⟨first + place, firstAt_drop.mp hfirst, absent_drop.mp habsent, (ih _).mp hrest⟩
    · rintro ⟨place, hfirst, habsent, hrest⟩
      obtain ⟨d, rfl⟩ := Nat.exists_eq_add_of_le hfirst.1
      refine ⟨d, firstAt_drop.mpr hfirst, absent_drop.mpr habsent, ?_⟩
      rw [List.drop_drop, ← Nat.add_assoc]
      exact (ih _).mpr hrest

/-- An ordered pattern is found if and only if its legs can be gone through from the nearest token
on: each required kind is met, where it is first met behind the one before it, without a guard on
the way. -/
theorem found_ordered_iff (targets : List Target) :
    ∃ legs guards, targetsOf legs guards = targets ∧
    ∀ backward, (ordered targets).found backward = true ↔
      GoesThrough legs guards backward 0 := by
  obtain ⟨legs, guards, rfl⟩ := exists_targetsOf targets
  exact ⟨legs, guards, rfl, fun backward => meets_targetsOf legs guards backward 0⟩

/-- A required kind that is a guard as well is not met: the search fails where it first stands. -/
example : (ordered [⟨.identifier, true⟩, ⟨.identifier, false⟩]).found
    [.number, .identifier] = false := rfl

end Pattern
end FourGL
