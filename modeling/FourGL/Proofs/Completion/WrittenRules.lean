import FourGL.Completion.RuleDocument.Printer
import FourGL.Completion.RuleDocument.Reader
import FourGL.Proofs.Json.Written

/-!
# Reading written rule documents

A rule document is read back from what is written for it (`ofText?_render`): a field that is not
written is one that reads as its default, so nothing of a document is lost.
-/

namespace FourGL

namespace Json

/-! ## Records -/

/-- The fields that have a value. -/
def given (parts : List (String × Option Json)) : List (String × Json) :=
  parts.flatMap fun p => (p.2.map (p.1, ·)).toList

/-- What a record has for a field that may be left out. -/
def slotOf (v : Option Json) : Slot := v.elim .unnamed .given

theorem filter_given (parts : List (String × Option Json)) (name : String) :
    ((given parts).map fun f => (some f.1, f.2)).filter (·.1 == some name) =
      (given (parts.filter (·.1 == name))).map fun f => (some f.1, f.2) := by
  induction parts with
  | nil => rfl
  | cons p parts ih =>
    obtain ⟨key, v⟩ := p
    have hpart : ((v.map (key, ·)).toList.map fun f => (some f.1, f.2)).filter
      (·.1 == some name) =
        if key == name then (v.map (key, ·)).toList.map fun f => (some f.1, f.2) else [] := by
      cases v <;> cases h : key == name <;> simp_all
    rw [given, List.flatMap_cons, List.map_append, List.filter_append, hpart, List.filter_cons]
    split <;> simp_all [given]

theorem slot?_given {parts : List (String × Option Json)} (hnodup : (parts.map Prod.fst).Nodup)
    (hmem : (name, v) ∈ parts) :
    slot? ((given parts).map fun f => (some f.1, f.2)) name = some (slotOf v) := by
  have hone : parts.filter (·.1 == name) = [(name, v)] := by
    induction parts with
    | nil => cases hmem
    | cons p parts ih =>
      obtain ⟨hnew, hnodup⟩ := List.nodup_cons.mp hnodup
      obtain rfl | hmem := List.mem_cons.mp hmem
      · rw [List.filter_cons_of_pos (by simp), List.filter_eq_nil_iff.mpr fun q hq => ?_]
        intro hname
        exact hnew (List.mem_map.mpr ⟨q, hq, by simpa using hname⟩)
      · rw [List.filter_cons_of_neg fun hname => hnew (List.mem_map.mpr ⟨_, hmem, ?_⟩),
          ih hnodup hmem]
        exact (beq_iff_eq.mp hname).symm
  unfold slot?
  rw [filter_given, hone]
  cases v <;> rfl

/-- A record is read field by field, in whatever order its fields are written. -/
theorem slots?_record (parts : List (String × Option Json)) (names : List String)
    (values : List (Option Json)) (hnodup : (parts.map Prod.fst).Nodup)
    (hsubset : parts.map Prod.fst ⊆ names)
    (hvalues : List.Forall₂ (fun name v => (name, v) ∈ parts) names values) :
    slots? names .refused (record (given parts)) = some (values.map slotOf) := by
  have haccepts : ((given parts).map fun f => (some f.1, f.2)).all
      fun f => acceptsKey names .refused f.1 := by
    rw [List.all_map, List.all_eq_true]
    intro f hf
    obtain ⟨p, hp, hf⟩ := List.mem_flatMap.mp hf
    obtain ⟨v, -, rfl⟩ := Option.map_eq_some_iff.mp (Option.mem_toList.mp hf)
    simpa [acceptsKey] using hsubset (List.mem_map_of_mem hp)
  refine (if_pos haccepts).trans ?_
  clear hsubset haccepts
  induction hvalues with
  | nil => rfl
  | cons hmem _ ih => simp [slot?_given hnodup hmem, ih]

/-- A list that is left out if it is empty. -/
def ofList (f : α → Json) (items : List α) : Option Json :=
  if items.isEmpty then none else some (list f items)

/-- A flag that is left out if it is as usual. -/
def ofFlag (usual value : Bool) : Option Json := if value == usual then none else some (.bool value)

theorem listOf?_list {read : Json → Option α} {write : α → Json}
    (h : ∀ a, read (write a) = some a)
    (items : List α) : listOf? read (list write items) = some items := by
  change (items.map write).mapM read = some items
  induction items with
  | nil => rfl
  | cons a items ih => simp [h, ih]

theorem text?_text (s : String) : text? (text s) = some s := rfl

theorem required_text (s : String) : (slotOf (some (text s))).required text? = some s := rfl

theorem optional_text (v : Option String) : (slotOf (v.map text)).optional text? = some v := by
  cases v <;> rfl

theorem optional_list {read : Json → Option α} {write : α → Json}
    (h : ∀ a, read (write a) = some a)
    (v : Option (List α)) : (slotOf (v.map (list write))).optional (listOf? read) = some v := by
  cases v with
  | none => rfl
  | some items => exact congrArg (Option.map some) (listOf?_list h items)

theorem orElse_list {read : Json → Option α} {write : α → Json}
    (h : ∀ a, read (write a) = some a)
    (items : List α) : (slotOf (ofList write items)).orElse [] (listOf? read) = some items := by
  cases items with
  | nil => rfl
  | cons a items => exact listOf?_list h (a :: items)

theorem orElse_flag (usual value : Bool) :
    (slotOf (ofFlag usual value)).orElse usual bool? = some value := by
  cases usual <;> cases value <;> rfl

end Json

namespace RuleDocument

open Json

/-! ## Reading back -/

theorem Token.ofJson?_toJson (t : Token) : ofJson? t.toJson = some t := by
  obtain ⟨token, _ | minVersion⟩ := t <;> rfl

theorem Target.ofJson?_toJson (t : Target) : ofJson? t.toJson = some t := by
  obtain ⟨token, _ | _⟩ := t <;> rfl

theorem Provider.ofJson?_toJson (p : Provider) : ofJson? p.toJson = some p := by
  have hslots := slots?_record
    [("provider", some (text p.provider)), ("memberKinds", p.memberKinds.map (list text)),
      ("minVersion", p.minVersion.map text)]
    ["provider", "memberKinds", "minVersion"]
    [some (text p.provider), p.memberKinds.map (list text), p.minVersion.map text]
    (by simp) (by simp) (by simp)
  have hwritten : p.toJson = record (given [("provider", some (text p.provider)),
      ("memberKinds", p.memberKinds.map (list text)), ("minVersion", p.minVersion.map text)]) := by
    obtain ⟨_, _ | _, _ | _⟩ := p <;> rfl
  rw [ofJson?, hwritten, hslots]
  simp [required_text, optional_text, optional_list text?_text]

theorem SearchItem.ofJson?_toJson (s : SearchItem) : ofJson? s.toJson = some s := by
  have hslots := slots?_record
    [("token", s.token.map text), ("ordered", s.ordered.map (list Target.toJson)),
      ("mustMatch", ofFlag true s.mustMatch), ("minVersion", s.minVersion.map text)]
    ["token", "ordered", "mustMatch", "minVersion"]
    [s.token.map text, s.ordered.map (list Target.toJson), ofFlag true s.mustMatch,
      s.minVersion.map text]
    (by simp) (by simp) (by simp)
  have hwritten : s.toJson = record (given [("token", s.token.map text),
      ("ordered", s.ordered.map (list Target.toJson)), ("mustMatch", ofFlag true s.mustMatch),
      ("minVersion", s.minVersion.map text)]) := by
    obtain ⟨_ | _, _ | _, _ | _, _ | _⟩ := s <;> rfl
  rw [ofJson?, hwritten, hslots]
  simp [optional_text, optional_list Target.ofJson?_toJson, orElse_flag]

theorem Possibility.ofJson?_toJson (p : Possibility) : ofJson? p.toJson = some p := by
  have hslots := slots?_record
    [("minVersion", p.minVersion.map text),
      ("backwardSearch", ofList SearchItem.toJson p.backwardSearch),
      ("singleTokens", ofList Token.toJson p.singleTokens),
      ("setProviders", ofList Provider.toJson p.setProviders)]
    ["minVersion", "singleTokens", "setProviders", "backwardSearch"]
    [p.minVersion.map text, ofList Token.toJson p.singleTokens,
      ofList Provider.toJson p.setProviders, ofList SearchItem.toJson p.backwardSearch]
    (by simp) (by simp) (by simp)
  have hwritten : p.toJson = record (given [("minVersion", p.minVersion.map text),
      ("backwardSearch", ofList SearchItem.toJson p.backwardSearch),
      ("singleTokens", ofList Token.toJson p.singleTokens),
      ("setProviders", ofList Provider.toJson p.setProviders)]) := by
    obtain ⟨_ | _, _ | _, _ | _, _ | _⟩ := p <;> rfl
  rw [ofJson?, hwritten, hslots]
  simp [optional_text, orElse_list Token.ofJson?_toJson, orElse_list Provider.ofJson?_toJson,
    orElse_list SearchItem.ofJson?_toJson]

/-- The value that is written for an entry. -/
def Entry.toJson (e : Entry) : Json :=
  record (given [("token", e.token.map text), ("category", e.category.map text),
    ("minVersion", e.minVersion.map text),
      ("possibilities", ofList Possibility.toJson e.possibilities)])

theorem Entry.ofJson?_toJson (e : Entry) : ofJson? e.toJson = some e := by
  have hslots := slots?_record
    [("token", e.token.map text), ("category", e.category.map text),
      ("minVersion", e.minVersion.map text),
      ("possibilities", ofList Possibility.toJson e.possibilities)]
    ["token", "category", "minVersion", "possibilities"]
    [e.token.map text, e.category.map text, e.minVersion.map text,
      ofList Possibility.toJson e.possibilities]
    (by simp) (by simp) (by simp)
  rw [ofJson?, toJson, hslots]
  simp [optional_text, orElse_list Possibility.ofJson?_toJson]

/-- The value that is written for a document. -/
def toJson (d : RuleDocument) : Json :=
  record [("version", text d.version), ("entries", list Entry.toJson d.entries)]

theorem ofJson?_toJson (d : RuleDocument) : ofJson? d.toJson = some d := by
  have hlist := listOf?_list Entry.ofJson?_toJson d.entries
  change (text? (text d.version)).bind (fun version =>
    (listOf? Entry.ofJson? (list Entry.toJson d.entries)).bind fun entries =>
      some { version, entries }) = some d
  rw [hlist]
  rfl

/-! ## What is written -/

section

open Json (IsVerbal)

theorem isVerbal_list {write : α → Json} (h : ∀ a, (write a).IsVerbal) (items : List α) :
    (list write items).IsVerbal := by
  change Json.AllVerbal (items.map write)
  induction items with
  | nil => trivial
  | cons a items ih => exact ⟨h a, ih⟩

theorem isVerbal_text (s : String) : (text s).IsVerbal := trivial

theorem Token.isVerbal_toJson (t : Token) : t.toJson.IsVerbal := by
  obtain ⟨_, _ | _⟩ := t <;> simp [toJson, textField, record, text, IsVerbal, FieldsVerbal]

theorem Target.isVerbal_toJson (t : Target) : t.toJson.IsVerbal := by
  obtain ⟨_, _ | _⟩ := t <;> simp [toJson, flagField, record, text, IsVerbal, FieldsVerbal]

theorem Provider.isVerbal_toJson (p : Provider) : p.toJson.IsVerbal := by
  obtain ⟨_, _ | _, _ | _⟩ := p <;>
    simp [toJson, textField, record, IsVerbal, FieldsVerbal, isVerbal_text,
      isVerbal_list isVerbal_text]

theorem SearchItem.isVerbal_toJson (s : SearchItem) : s.toJson.IsVerbal := by
  obtain ⟨_ | _, _ | _, _ | _, _ | _⟩ := s <;>
    simp [toJson, textField, flagField, record, IsVerbal, FieldsVerbal, isVerbal_text,
      isVerbal_list Target.isVerbal_toJson]

theorem Possibility.isVerbal_toJson (p : Possibility) : p.toJson.IsVerbal := by
  obtain ⟨_ | _, _ | _, _ | _, _ | _⟩ := p <;>
    simp [toJson, textField, listField, record, IsVerbal, FieldsVerbal, isVerbal_text,
      isVerbal_list Token.isVerbal_toJson, isVerbal_list Provider.isVerbal_toJson,
      isVerbal_list SearchItem.isVerbal_toJson]

end

/-- A list is read from its items, a line each. -/
theorem reads_lines {margin tail : String} (hmargin : Blank ('\n' :: margin.toList))
    (htail : Blank tail.toList) {items : List String}
    (h : List.Forall₂ Reads vs (items.map String.toList)) :
    Reads (.array vs) ('[' :: ((lines margin items).toList ++ (tail.toList ++ [']']))) := by
  have hlines : List.Forall₂ Reads vs
      ((items.map fun item => "\n" ++ margin ++ item).map String.toList) := by
    rw [List.map_map, List.forall₂_map_right_iff]
    refine (List.forall₂_map_right_iff.mp h).imp fun v item hitem => ?_
    simpa using hitem.blank hmargin
  rw [lines, String.toList_intercalate]
  exact Reads.array .nil .nil htail hlines

theorem readsField_fieldText (name : String) (v : Option String) :
    List.Forall₂ ReadsField ((given [(name, v.map text)]).map fun f => (some f.1, f.2))
      ((fieldText name v).map String.toList) := by
  cases v with
  | none => exact .nil
  | some v =>
    refine .cons ⟨name, [], ' ' :: (quote v).toList, .nil, rfl,
      (Reads.text v).blank (by decide : Blank [' ']), ?_⟩ .nil
    simp [spaced, text, oneLine, quoteString]

theorem Entry.reads_render (e : Entry) : Reads e.toJson e.render.toList := by
  have hblank : Blank [' '] := by decide
  have hpossibilities : List.Forall₂ ReadsField
      ((given [("possibilities", ofList Possibility.toJson e.possibilities)]).map
        fun f => (some f.1, f.2))
      ((if e.possibilities.isEmpty then []
        else ["\"possibilities\": [" ++ lines "      " (e.possibilities.map (·.toJson.spaced)) ++
          "\n    ]"]).map String.toList) := by
    by_cases hempty : e.possibilities.isEmpty
    · simp [hempty, ofList, given]
    · have hitems : List.Forall₂ Reads (e.possibilities.map Possibility.toJson)
          ((e.possibilities.map (·.toJson.spaced)).map String.toList) := by
        rw [List.map_map, List.forall₂_map_left_iff, List.forall₂_map_right_iff]
        exact List.forall₂_same.mpr fun p _ => reads_spaced p.isVerbal_toJson
      have hmargin : Blank ('\n' :: "      ".toList) := by decide
      have hlines := reads_lines hmargin (by decide : Blank "\n    ".toList) hitems
      rw [if_neg hempty, ofList, if_neg hempty]
      refine .cons ⟨"possibilities", [], _, .nil, rfl, hlines.blank hblank, ?_⟩ .nil
      have hname : quote "possibilities" = "\"possibilities\"" := by decide
      simp [hname]
  have hfields := List.rel_append (readsField_fieldText "token" e.token)
    (List.rel_append (readsField_fieldText "category" e.category)
      (List.rel_append (readsField_fieldText "minVersion" e.minVersion) hpossibilities))
  have hobject := Reads.object hblank hblank hblank hfields
  simpa [toJson, render, record, given, String.toList_intercalate] using hobject

/-- What is written for a document is read as its value. -/
theorem ofText?_render_toJson (d : RuleDocument) : Json.ofText? d.render = some d.toJson := by
  have hentries : List.Forall₂ Reads (d.entries.map Entry.toJson)
      ((d.entries.map Entry.render).map String.toList) := by
    rw [List.map_map, List.forall₂_map_left_iff, List.forall₂_map_right_iff]
    exact List.forall₂_same.mpr fun e _ => e.reads_render
  have hblank : Blank [' '] := by decide
  have hmargin : Blank ['\n', ' ', ' '] := by decide
  have hindent : Blank ('\n' :: "    ".toList) := by decide
  have hlines := reads_lines hindent (by decide : Blank "\n  ".toList) hentries
  have hversion : ReadsField (some "version", text d.version) _ :=
    ⟨"version", [], _, .nil, rfl, (Reads.text d.version).blank hblank, rfl⟩
  have hlist : ReadsField (some "entries", list Entry.toJson d.entries) _ :=
    ⟨"entries", [], _, .nil, rfl, hlines.blank hblank, rfl⟩
  have hobject := Reads.object hmargin hmargin (by decide : Blank ['\n'])
    (.cons hversion (.cons hlist .nil))
  refine ofText?_of_reads hobject (by decide : Blank ['\n']) ?_
  have hname : quote "version" = "\"version\"" := by decide
  have hname' : quote "entries" = "\"entries\"" := by decide
  have hspaced : (text d.version).spaced = quote d.version := rfl
  unfold render
  simp only [String.toList_append, hspaced]
  simp [hname, hname', List.intercalate_cons_cons]

/-- A document is read back from what is written for it. -/
theorem ofText?_render (d : RuleDocument) : ofText? d.render = some d := by
  rw [ofText?, ofText?_render_toJson]
  exact ofJson?_toJson d

end RuleDocument

end FourGL
