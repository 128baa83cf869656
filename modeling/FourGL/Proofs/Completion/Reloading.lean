import FourGL.Completion.Registry
import FourGL.Proofs.Completion.WrittenRules

/-!
# Reloading rules

A registry over a source in memory goes through a history of new documents and reloads. Whatever
these documents are, the table in use is the one of the last document that a reload could use, and
its version is the expected one (`table_in_use`).
-/

namespace FourGL

/-! ## Versions of documents -/

theorem Json.slots?_object {fields : List (Option String × Json)} {slots : List Slot}
    (h : slots? names others (.object fields) = some slots) :
    names.mapM (slot? fields) = some slots := by
  rw [slots?] at h
  split at h
  · exact h
  · cases h

theorem Json.slots?_array {items : List Json} {slots : List Slot}
    (h : slots? names others (.array items) = some slots) :
    items.length ≤ names.length ∧
      items.map .given ++ List.replicate (names.length - items.length) .beyond = slots := by
  rw [slots?] at h
  split at h
  next hle => exact ⟨hle, Option.some.inj h⟩
  next => cases h

namespace RuleDocument

open Json (Slot slots? slots?_object slots?_array text?)

/-- The slot of a field does not depend on which fields are read after it. -/
theorem slot_unique (hall : slots? (name :: names) others j = some (slot :: slots))
    (hone : slots? [name] others' j = some [slot']) : slot = slot' := by
  cases j with
  | object fields =>
    have hall := slots?_object hall
    rw [List.mapM_cons] at hall
    obtain ⟨_, hslot, hall⟩ := Option.bind_eq_some_iff.mp hall
    obtain ⟨_, _, hall⟩ := Option.bind_eq_some_iff.mp hall
    cases hall
    simpa [hslot] using slots?_object hone
  | array items =>
    obtain ⟨-, hall⟩ := slots?_array hall
    obtain ⟨hle, hone⟩ := slots?_array hone
    match items with
    | [] => simp_all [List.replicate]
    | [_] => simp_all
    | _ :: _ :: _ => simp at hle
  | null | bool | number | string => cases hall

/-- Reading the version alone finds no other version than reading the whole document. -/
theorem version_unique {d : RuleDocument} {document : String}
    (hdocument : ofText? document = some d)
    (hversion : versionOfText? document = some v) : d.version = v := by
  obtain ⟨j, hj, hd⟩ := Option.bind_eq_some_iff.mp hdocument
  rw [versionOfText?, hj, Option.bind_eq_bind, Option.bind_some] at hversion
  unfold ofJson? at hd
  split at hd
  next version entries hall =>
    obtain ⟨v', hv', hd⟩ := Option.bind_eq_some_iff.mp hd
    obtain ⟨_, _, hd⟩ := Option.bind_eq_some_iff.mp hd
    split at hversion
    next version' hone =>
      obtain rfl := slot_unique hall hone
      cases hd
      exact Option.some.inj (hv'.symm.trans hversion)
    next => cases hversion
  next => cases hd

theorem versionOfText?_render (d : RuleDocument) : versionOfText? d.render = some d.version := by
  rw [versionOfText?, ofText?_render_toJson]
  rfl

theorem addEntry_version (h : addEntry isProvider table e = .ok table') :
    table'.version = table.version := by
  change (e.1.resolve isProvider { entry := e.2 } >>= fun entry =>
    Resolution.ofOption _ _ (table.insert? entry)) = .ok table' at h
  cases hentry : e.1.resolve isProvider { entry := e.2 } with
  | error => simp [hentry, bind, Except.bind] at h
  | ok entry =>
    rw [hentry] at h
    change Resolution.ofOption _ _ (table.insert? entry) = .ok table' at h
    unfold RuleTable.insert? at h
    split at h <;> cases h
    rfl

/-- A table has the version of its document. -/
theorem resolve_version {d : RuleDocument} (h : d.resolve isProvider = .ok table) :
    table.version = d.version := by
  have hfold : ∀ (entries : List (Entry × Nat)) {table₀ : RuleTable},
      entries.foldlM (addEntry isProvider) table₀ = .ok table →
      table.version = table₀.version := by
    intro entries
    induction entries with
    | nil =>
      rintro table₀ ⟨⟩
      rfl
    | cons e entries ih =>
      intro table₀ h
      rw [List.foldlM_cons] at h
      cases hstep : addEntry isProvider table₀ e with
      | error => simp [hstep, bind, Except.bind] at h
      | ok table₁ =>
        rw [hstep] at h
        exact (ih h).trans (addEntry_version hstep)
  exact hfold _ h

end RuleDocument

/-! ## Tables of documents -/

theorem RuleTable.ofText_eq_ok {document : String}
    (h : ofText isProvider document = .ok table) :
    ∃ d, RuleDocument.ofText? document = some d ∧ d.resolve isProvider = .ok table := by
  unfold ofText at h
  split at h
  next => cases h
  next d hd =>
    refine ⟨d, hd, ?_⟩
    cases hresolve : d.resolve isProvider with
    | error => simp [hresolve, Except.mapError] at h
    | ok => simpa [hresolve, Except.mapError] using h

theorem RuleTable.ofText_ne_mismatch (document : String) :
    ofText isProvider document ≠ .error (.versionMismatch expected found) := by
  unfold ofText
  split
  next => nofun
  next d hd => cases hresolve : d.resolve isProvider <;> simp [Except.mapError]

theorem RuleTable.ofText_render (isProvider : String → Bool) (d : RuleDocument) :
    ofText isProvider d.render =
      (d.resolve isProvider).mapError fun (place, fault) => .invalid place fault := by
  rw [ofText, RuleDocument.ofText?_render]

theorem Bundled.isOk_resolve : (document.resolve Providers.builtin.ids.contains).isOk := by
  decide +kernel

/-- The bundled document can be used with the built-in providers. -/
theorem Bundled.resolve_document :
    ∃ table, document.resolve Providers.builtin.ids.contains = .ok table := by
  have h := isOk_resolve
  revert h
  generalize document.resolve Providers.builtin.ids.contains = result
  intro h
  cases result with
  | error => cases h
  | ok table => exact ⟨table, rfl⟩

/-! ## Single reloads -/

namespace RuleRegistry

/-- The document that a reload leaves where `document` was: the bundled one if there is a version
and it is not the expected one. -/
def settled (product document : String) : String :=
  match RuleDocument.versionOfText? document with
  | some found => if found = product then document else Bundled.text
  | none => document

theorem settled_of_ne {product document found : String}
    (hversion : RuleDocument.versionOfText? document = some found) (hne : found ≠ product) :
    settled product document = Bundled.text := by
  simp [settled, hversion, hne]

theorem settled_eq_self {product document : String}
    (h : ∀ found, RuleDocument.versionOfText? document = some found → found = product) :
    settled product document = document := by
  unfold settled
  split
  next found hfound => rw [if_pos (h found hfound)]
  next => rfl

/-- Whether a reload publishes a table. -/
def Reloads (r : RuleRegistry) : Prop := ∃ n, r.reload.1 = .ok n

section

variable {r : RuleRegistry} {document : String} {table : RuleTable}

theorem tableOf_memory (r : RuleRegistry) (document : String) : r.tableOf (.memory document) =
    match RuleDocument.versionOfText? document with
    | none => .error .malformed
    | some found =>
      if found = r.product then RuleTable.ofText r.providers.contains document
      else .error (.versionMismatch r.product found) := rfl

theorem tableOf_eq_ok (h : r.tableOf (.memory document) = .ok table) :
    RuleTable.ofText r.providers.contains document = .ok table ∧ table.version = r.product := by
  rw [tableOf_memory] at h
  split at h
  next => cases h
  next found hfound =>
    split at h
    next heq =>
      obtain ⟨d, hd, hresolve⟩ := RuleTable.ofText_eq_ok h
      exact ⟨h, (RuleDocument.resolve_version hresolve).trans
        ((RuleDocument.version_unique hd hfound).trans heq)⟩
    next => cases h

/-- A reload settles the document and publishes its table, if there is one. -/
theorem reload_memory (h : r.source = .memory document) : r.reload =
    match r.tableOf (.memory (settled r.product document)) with
    | .ok table =>
      (.ok table.size, { r with source := .memory (settled r.product document) }.publish table)
    | .error e => (.error e, { r with source := .memory (settled r.product document) }) := by
  unfold reload
  rw [h, tableOf_memory]
  cases hversion : RuleDocument.versionOfText? document with
  | none => simp [settled, tableOf_memory, hversion]
  | some found =>
    by_cases hfound : found = r.product
    · have hsettled : settled r.product document = document :=
        settled_eq_self fun v hv => by rwa [← Option.some.inj (hversion.symm.trans hv)]
      rw [hsettled, tableOf_memory, hversion]
      simp only [hfound, if_true]
      cases htable : RuleTable.ofText r.providers.contains document with
      | ok => simp
      | error e =>
        cases e with
        | versionMismatch => exact absurd htable (RuleTable.ofText_ne_mismatch document)
        | _ => simp
    · rw [settled_of_ne hversion hfound]
      cases htable : r.tableOf (.memory Bundled.text) <;>
        simp [hfound, RuleSource.restore, RuleSource.set, htable]

theorem reload_source (h : r.source = .memory document) :
    r.reload.2.source = .memory (settled r.product document) := by
  rw [reload_memory h]
  split <;> rfl

theorem reload_table_of_error (h : r.source = .memory document) (herror : r.reload.1 = .error e) :
    r.reload.2.table = r.table := by
  rw [reload_memory h] at herror ⊢
  split at herror
  next => cases herror
  next => rfl

/-- What a reload publishes is the table of the settled document, and has the expected version. -/
theorem Reloads.published (hreloads : r.Reloads) (h : r.source = .memory document) :
    RuleTable.ofText r.providers.contains (settled r.product document) = .ok r.reload.2.table ∧
      r.reload.2.table.version = r.product := by
  obtain ⟨n, hn⟩ := hreloads
  rw [reload_memory h] at hn ⊢
  split at hn
  next table htable => exact tableOf_eq_ok htable
  next => cases hn

end

/-! ## Histories -/

end RuleRegistry

/-- What is done with a registry: its source is given another document, or is read. -/
inductive RegistryAction where
  | set (document : String)
  | reload

namespace RuleRegistry

/-- The registry after an action. -/
def act (r : RuleRegistry) : RegistryAction → RuleRegistry
  | .set document => { r with source := r.source.set document }
  | .reload => r.reload.2

/-- The registry after a history. -/
def run (r : RuleRegistry) (as : List RegistryAction) : RuleRegistry := as.foldl act r

/-- No reload of the history publishes a table. -/
def NeverReloads (r : RuleRegistry) (as : List RegistryAction) : Prop :=
  ∀ before after, as = before ++ .reload :: after → ¬ (r.run before).Reloads

theorem neverReloads_cons : NeverReloads r (a :: as) ↔ (a = .reload → ¬ r.Reloads) ∧
    NeverReloads (r.act a) as := by
  constructor
  · intro h
    refine ⟨fun ha => h [] as (by rw [ha]; rfl), fun before after has => ?_⟩
    exact h (a :: before) after (by rw [has]; rfl)
  · rintro ⟨hfirst, hrest⟩ before after has
    cases before with
    | nil =>
      cases has
      exact hfirst rfl
    | cons b before =>
      cases has
      exact hrest before after rfl

/-- A registry over a document in memory, with the given version and providers. -/
structure OverMemory (product : String) (providers : List String) (r : RuleRegistry) : Prop where
  memory : ∃ document, r.source = .memory document
  product_eq : r.product = product
  providers_eq : r.providers = providers

namespace OverMemory

variable {r : RuleRegistry} {product : String} {providers : List String}

theorem act (h : OverMemory product providers r) (a : RegistryAction) :
    OverMemory product providers (r.act a) := by
  obtain ⟨⟨held, hsource⟩, hproduct, hproviders⟩ := h
  cases a with
  | set document =>
    refine ⟨⟨document, ?_⟩, hproduct, hproviders⟩
    change r.source.set document = _
    rw [hsource]
    rfl
  | reload =>
    change OverMemory product providers r.reload.2
    refine ⟨⟨_, reload_source hsource⟩, ?_, ?_⟩
    all_goals
      rw [reload_memory hsource]
      split <;> assumption

theorem run (h : OverMemory product providers r) (as : List RegistryAction) :
    OverMemory product providers (r.run as) := by
  induction as generalizing r with
  | nil => exact h
  | cons a as ih => exact ih (h.act a)

/-- The table in use stems from the last reload that published one. -/
theorem table_run (h : OverMemory product providers r) (as : List RegistryAction) :
    r.NeverReloads as ∧ (r.run as).table = r.table ∨ ∃ before after held,
      as = before ++ .reload :: after ∧ (r.run before).source = .memory held ∧
        (r.run before).Reloads ∧ (r.run (before ++ [.reload])).NeverReloads after ∧
          RuleTable.ofText providers.contains (settled product held) = .ok (r.run as).table ∧
            (r.run as).table.version = product := by
  induction as generalizing r with
  | nil => exact .inl ⟨by simp [NeverReloads], rfl⟩
  | cons a as ih =>
    obtain ⟨hnever, htable⟩ | ⟨before, after, held, rfl, hrest⟩ := ih (h.act a)
    case inr => exact .inr ⟨a :: before, after, held, rfl, hrest⟩
    cases a with
    | set => exact .inl ⟨neverReloads_cons.mpr ⟨nofun, hnever⟩, htable⟩
    | reload =>
      obtain ⟨⟨held, hsource⟩, rfl, rfl⟩ := h
      by_cases hreloads : r.Reloads
      · refine .inr ⟨[], as, held, rfl, hsource, hreloads, hnever, ?_⟩
        change _ = Except.ok ((r.act .reload).run as).table ∧
          ((r.act .reload).run as).table.version = _
        rw [htable]
        exact hreloads.published hsource
      · refine .inl ⟨neverReloads_cons.mpr ⟨fun _ => hreloads, hnever⟩, htable.trans ?_⟩
        cases hresult : r.reload.1 with
        | ok n => exact absurd ⟨n, hresult⟩ hreloads
        | error e => exact reload_table_of_error hsource hresult

end OverMemory

/-- After any history, the table in use is the one of the document that the last successful reload
read, under the expected version, or still the empty one. A failed reload changes no table. A reload
changes no document but one whose version is not the expected one, and that becomes the bundled
one; where the bundled one can be used, such a document is no obstacle. -/
theorem table_in_use (document product : String) (providers : List String)
    (as : List RegistryAction) :
    let r₀ : RuleRegistry := { source := .memory document, product, providers }
    let r := r₀.run as
    (r₀.NeverReloads as ∧ r.table = .empty "" ∨ ∃ before after held,
      as = before ++ .reload :: after ∧ (r₀.run before).source = .memory held ∧
        (r₀.run before).Reloads ∧ (r₀.run (before ++ [.reload])).NeverReloads after ∧
          RuleTable.ofText providers.contains (settled product held) = .ok r.table ∧
            r.table.version = product) ∧
    (∀ e, r.reload.1 = .error e → r.reload.2.table = r.table) ∧
    (∃ held, r.source = .memory held ∧
      ((∀ found, RuleDocument.versionOfText? held = some found → found = product) →
        r.reload.2.source = .memory held) ∧
      ∀ found, RuleDocument.versionOfText? held = some found → found ≠ product →
        r.reload.2.source = .memory Bundled.text) ∧
    (product = Bundled.document.version → providers = Providers.builtin.ids → ∀ held found,
      r.source = .memory held → RuleDocument.versionOfText? held = some found →
      found ≠ product →
        ∃ table, RuleTable.ofText providers.contains Bundled.text = .ok table ∧
          r.reload.1 = .ok table.size ∧ r.reload.2.table = table) := by
  intro r₀ r
  have hmemory₀ : OverMemory product providers r₀ := ⟨⟨document, rfl⟩, rfl, rfl⟩
  have hmemory : OverMemory product providers r := hmemory₀.run as
  obtain ⟨held, hsource⟩ := hmemory.memory
  have hleft := reload_source hsource
  rw [hmemory.product_eq] at hleft
  refine ⟨hmemory₀.table_run as, fun _ => reload_table_of_error hsource,
    ⟨held, hsource, ?_, ?_⟩, ?_⟩
  · intro hversion
    rw [hleft, settled_eq_self hversion]
  · intro found hversion hne
    rw [hleft, settled_of_ne hversion hne]
  · rintro hproduct rfl held found hsource hversion hne
    obtain ⟨table, htable⟩ := Bundled.resolve_document
    have hofText : RuleTable.ofText Providers.builtin.ids.contains Bundled.text = .ok table := by
      rw [Bundled.text, RuleTable.ofText_render, htable]
      rfl
    have htableOf : r.tableOf (.memory Bundled.text) = .ok table := by
      rw [tableOf_memory, Bundled.text, RuleDocument.versionOfText?_render, ← Bundled.text,
        hmemory.product_eq, hmemory.providers_eq]
      simp [hproduct, hofText]
    rw [reload_memory hsource, hmemory.product_eq, settled_of_ne hversion hne, htableOf]
    exact ⟨table, hofText, rfl, rfl⟩

/-- A document of version 0.9 gives way to the bundled rules. -/
theorem table_in_use_foreign :
    let r : RuleRegistry := { source := .memory (RuleDocument.render ⟨"0.9", []⟩) }
    RuleDocument.versionOfText? (RuleDocument.render ⟨"0.9", []⟩) = some "0.9" ∧
      ∃ table, RuleTable.ofText Providers.builtin.ids.contains Bundled.text = .ok table ∧
        r.reload.1 = .ok table.size ∧ r.reload.2.table = table := by
  intro r
  have hversion := RuleDocument.versionOfText?_render ⟨"0.9", []⟩
  obtain ⟨_, _, _, hrestores⟩ :=
    table_in_use (RuleDocument.render ⟨"0.9", []⟩) "1.0" Providers.builtin.ids []
  exact ⟨hversion, hrestores rfl rfl _ _ rfl hversion (by decide)⟩

end RuleRegistry

end FourGL
