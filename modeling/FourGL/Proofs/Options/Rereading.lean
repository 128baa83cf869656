import FourGL.Options
import FourGL.Proofs.Completion.WrittenRules
import FourGL.Proofs.Version.Notation

/-!
# Reading versions and options again

A version is printed with two digits for its minor number, and one that was read has no more: so it
is read again from what is printed for it, however it was written before. For options this means
that those of a file may be written and read again without loss, whatever layout they are written in
(`version_reread`).
-/

namespace FourGL

namespace Json

/-- A record that has all its fields has the value of each. -/
theorem slots?_fields (fields : List (String × Json)) (hnodup : (fields.map Prod.fst).Nodup) :
    slots? (fields.map Prod.fst) .refused (record fields) =
      some (fields.map fun f => .given f.2) := by
  have hgiven : given (fields.map fun f => (f.1, some f.2)) = fields := by
    simp [given, List.flatMap_map]
  have hnames : (fields.map fun f => (f.1, some f.2)).map Prod.fst = fields.map Prod.fst := by
    simp
  have hvalues : List.Forall₂ (fun name v => (name, v) ∈ fields.map fun f => (f.1, some f.2))
      (fields.map Prod.fst) (fields.map fun f => some f.2) := by
    rw [List.forall₂_map_left_iff, List.forall₂_map_right_iff]
    exact List.forall₂_same.mpr fun f hf => List.mem_map_of_mem hf
  have hslots := slots?_record _ _ _ (hnames ▸ hnodup) (hnames ▸ List.Subset.refl _) hvalues
  rw [hgiven, List.map_map] at hslots
  exact hslots

namespace Slot

variable {read : Json → Option α}

theorem optional_ofOption {write : α → Json} {a : Option α}
    (hread : ∀ x ∈ a, read (write x) = some x) (hnull : ∀ x, write x ≠ .null) :
    (given (ofOption write a)).optional read = some a := by
  cases a with
  | none => rfl
  | some x =>
    have hgiven : (given (write x)).optional read = (read (write x)).map some := by
      unfold optional
      split
      next h => exact absurd (given.inj h) (hnull x)
      next h => rw [given.inj h]
      next h => cases h
      next h => cases h
    exact hgiven.trans (by rw [hread x rfl, Option.map_some])

/-- What a field yields is read from its value. -/
theorem exists_of_optional {s : Slot} (h : s.optional read = some (some x)) :
    ∃ v, read v = some x := by
  unfold optional at h
  split at h
  next => cases h
  next v _ =>
    obtain ⟨y, hread, hy⟩ := Option.map_eq_some_iff.mp h
    exact ⟨v, hread.trans hy⟩
  next => cases h
  next => cases h

end Slot

/-- A value without numbers is read from its line. -/
theorem ofText?_spaced {v : Json} (h : v.IsVerbal) : ofText? v.spaced = some v :=
  ofText?_of_reads (reads_spaced h) .nil (List.append_nil _).symm

end Json

namespace Options

open Json

/-! ## Written options -/

/-- What is written for each option. Those that are left out are null. -/
def fields (o : Options) : List (String × Json) :=
  [("languageVersion", ofOption (fun v => text v.render) o.languageVersion),
    ("verbatim", ofOption .bool o.verbatim), ("rulesFile", ofOption text o.rulesFile),
    ("productVersion", ofOption text o.productVersion),
    ("memberKinds", ofOption (list text) o.memberKinds)]

def toJson (o : Options) : Json := record o.fields

theorem isVerbal_toJson (o : Options) : o.toJson.IsVerbal := by
  obtain ⟨_ | _, _ | _, _ | _, _ | _, _ | _⟩ := o <;>
    simp [toJson, fields, ofOption, record, IsVerbal, FieldsVerbal, RuleDocument.isVerbal_text,
      RuleDocument.isVerbal_list RuleDocument.isVerbal_text]

theorem ofJson?_toJson {o : Options}
    (hversion : ∀ v ∈ o.languageVersion, Version.ofText? v.render = some v) :
    ofJson? o.toJson = some o := by
  have hslots : slots? ["languageVersion", "verbatim", "rulesFile", "productVersion", "memberKinds"]
      .refused o.toJson = some (o.fields.map fun f => .given f.2) :=
    slots?_fields o.fields (by simp [fields])
  have hlanguage : (Slot.given (ofOption (fun v => text v.render) o.languageVersion)).optional
      (fun v => (text? v).bind Version.ofText?) = some o.languageVersion :=
    Slot.optional_ofOption (fun v hv => by rw [text?_text, Option.bind_some, hversion v hv])
      fun _ => nofun
  have hverbatim : (Slot.given (ofOption .bool o.verbatim)).optional bool? = some o.verbatim :=
    Slot.optional_ofOption (fun _ _ => rfl) fun _ => nofun
  have htext (s : Option String) : (Slot.given (ofOption text s)).optional text? = some s :=
    Slot.optional_ofOption (fun _ _ => rfl) fun _ => nofun
  have hkinds : (Slot.given (ofOption (list text) o.memberKinds)).optional (listOf? text?) =
      some o.memberKinds :=
    Slot.optional_ofOption (fun _ _ => listOf?_list text?_text _) fun _ => nofun
  rw [ofJson?, hslots]
  simp [fields, hlanguage, hverbatim, htext, hkinds]

/-! ## Options that are read -/

theorem ofText_eq_ok {text : String} : ofText text = .ok o ↔
    ∃ j k, Json.ofText? text = some j ∧ ofJson? j = some o ∧ o.kinds = .ok k := by
  unfold ofText
  constructor
  · intro h
    split at h
    next => cases h
    next o' hread =>
      obtain ⟨j, hj, hread⟩ := Option.bind_eq_some_iff.mp hread
      cases hkinds : o'.kinds with
      | error e => simp [hkinds, Except.map] at h
      | ok k =>
        simp only [hkinds, Except.map, Except.ok.injEq] at h
        subst h
        exact ⟨j, k, hj, hread, hkinds⟩
  · rintro ⟨j, k, hj, hread, hkinds⟩
    simp [hj, hread, hkinds, Except.map]

/-- The version of options that are read was read itself. -/
theorem exists_versionText (h : ofJson? j = some o) (hv : o.languageVersion = some v) :
    ∃ text, Version.ofText? text = some v := by
  unfold ofJson? at h
  split at h
  next languageVersion _ _ _ _ _ =>
    simp only [Option.bind_eq_bind, Option.bind_eq_some_iff, Option.some.injEq] at h
    obtain ⟨version, hversion, _, _, _, _, _, _, _, _, rfl⟩ := h
    subst hv
    obtain ⟨j, hread⟩ := Slot.exists_of_optional hversion
    obtain ⟨text, -, htext⟩ := Option.bind_eq_some_iff.mp hread
    exact ⟨text, htext⟩
  next => cases h

/-- Versions that are read have a minor number of two digits at most. Every version with such a
minor number is read from what is printed for it, where major numbers go up to `maxPart`, and so
each version that was read is read again. What is written for options that were read is read as the
same options, in whatever layout it stands in a file. -/
theorem version_reread :
    (∀ text v, Version.ofText? text = some v → v.minor ≤ 99) ∧
      (∀ v : Version, v.major ≤ Version.maxPart → v.minor ≤ 99 →
        Version.ofText? v.render = some v) ∧
      (∀ text v, Version.ofText? text = some v → Version.ofText? v.render = some v) ∧
      ∀ text o, ofText text = .ok o → ∀ file, Json.ofText? file = some o.toJson →
        ofText file = .ok o := by
  have hbounds {text v} (h : Version.ofText? text = some v) :=
    ((Version.ofText?_eq_some_iff_writes text).mp h).bounds
  have hagain {text v} (h : Version.ofText? text = some v) : Version.ofText? v.render = some v :=
    Version.ofText?_render (hbounds h).1 (hbounds h).2
  refine ⟨fun _ _ h => (hbounds h).2, fun _ => Version.ofText?_render, fun _ _ => hagain, ?_⟩
  intro text o h file hfile
  obtain ⟨j, k, -, hread, hkinds⟩ := ofText_eq_ok.mp h
  refine ofText_eq_ok.mpr ⟨_, k, hfile, ofJson?_toJson fun v hv => ?_, hkinds⟩
  obtain ⟨written, hwritten⟩ := exists_versionText hread hv
  exact hagain hwritten

/-- A file with the version `2.5`, which is written again as `2.50`; the greatest version. -/
theorem version_reread_tens :
    let v : Version := ⟨2, 50⟩
    let o : Options := { languageVersion := some v }
    Version.ofText? "2.5" = some v ∧ v.minor ≤ 99 ∧ Version.ofText? v.render = some v ∧
      Version.ofText? (Version.render ⟨65535, 99⟩) = some ⟨65535, 99⟩ ∧
        ofText "\x7b\"languageVersion\": \"2.5\"\x7d" = .ok o ∧
          Json.ofText? o.toJson.spaced = some o.toJson ∧ ofText o.toJson.spaced = .ok o := by
  intro v o
  have hread : Version.ofText? "2.5" = some v := by decide
  have hline : (record [("languageVersion", text "2.5")]).spaced =
      "\x7b\"languageVersion\": \"2.5\"\x7d" := by decide
  have hopened : ofText "\x7b\"languageVersion\": \"2.5\"\x7d" = .ok o := by
    rw [ofText_eq_ok, ← hline]
    exact ⟨_, .all, ofText?_spaced (by simp [record, text, IsVerbal, FieldsVerbal]), rfl, rfl⟩
  have hwritten : Json.ofText? o.toJson.spaced = some o.toJson := ofText?_spaced o.isVerbal_toJson
  obtain ⟨hminor, hprinted, hagain, hoptions⟩ := version_reread
  exact ⟨hread, hminor _ v hread, hagain _ v hread, hprinted _ (by decide) (by decide), hopened,
    hwritten, hoptions _ o hopened _ hwritten⟩

end Options

end FourGL
