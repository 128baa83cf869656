import FourGL.Json.Printer
import FourGL.Json.Reader
import Mathlib.Data.List.Forall2

/-!
# Reading what is written

Texts, truth values and null, and the arrays and objects of such values, are read back from what is
written for them, whatever blanks stand between the parts (`Reads.array`, `Reads.object`); so is
what is printed in one line (`reads_spaced`). Numbers are left out.
-/

namespace FourGL.Json

/-- Nothing but blanks. -/
def Blank (cs : List Char) : Prop := ∀ c ∈ cs, Reader.isBlank c = true

instance : Decidable (Blank cs) := List.decidableBAll _ cs

/-- Reading `cs` yields `a` and leaves `rest`. -/
def Finds (read : (cs : List Char) → Option (α × Shorter cs)) (cs : List Char) (a : α)
    (rest : List Char) : Prop :=
  ∃ h, read cs = some (a, ⟨rest, h⟩)

namespace Reader

theorem skip_append {ws : List Char} (h : Blank ws) (cs : List Char) : skip (ws ++ cs) = skip cs :=
  List.dropWhile_append_of_pos h

theorem skip_cons {c : Char} (h : isBlank c = false) (cs : List Char) : skip (c :: cs) = c :: cs :=
  List.dropWhile_cons_of_neg (by simp [h])

/-! ## Strings -/

/-- The four digits that stand for a control character have its number. -/
theorem controlEscape_digits : ∀ n < 0x20,
    (match (controlEscape (Char.ofNat n)).toList with
    | ['\\', 'u', a, b, c, d] => hexValue4? a b c d == some n
    | _ => false) = true := by
  decide +kernel

section

variable {cs rest : List Char} {ns : List Nat}

theorem finds_units_short (h : Finds units cs ns rest) {e c : Char} (he : shortEscape? e = some c) :
    Finds units ('\\' :: e :: cs) (c.toNat :: ns) rest := by
  obtain ⟨hlt, h⟩ := h
  refine ⟨by simp only [List.length_cons]; omega, ?_⟩
  rw [units]
  · simp [he, h]
  · rintro _ _ _ _ _ rfl
    cases he

/-- What is written for a character is read as its number. -/
theorem finds_units_escape (h : Finds units cs ns rest) (c : Char) :
    Finds units ((escapeChar c).toList ++ cs) (c.toNat :: ns) rest := by
  have hnumber {n : Nat} (hn : (c.toNat == n) = true) : c = Char.ofNat n := by
    rw [← beq_iff_eq.mp hn, Char.ofNat_toNat]
  unfold escapeChar
  split
  next hc => exact (beq_iff_eq.mp hc) ▸ finds_units_short h (e := '"') rfl
  split
  next hc => exact (beq_iff_eq.mp hc) ▸ finds_units_short h (e := '\\') rfl
  split
  next hc => exact (beq_iff_eq.mp hc) ▸ finds_units_short h (e := 'n') rfl
  split
  next hc => exact (beq_iff_eq.mp hc) ▸ finds_units_short h (e := 'r') rfl
  split
  next hc => exact (beq_iff_eq.mp hc) ▸ finds_units_short h (e := 't') rfl
  split
  next hc => exact (hnumber hc) ▸ finds_units_short h (e := 'b') rfl
  split
  next hc => exact (hnumber hc) ▸ finds_units_short h (e := 'f') rfl
  obtain ⟨hlt, h⟩ := h
  split
  next hc =>
    have hdigits := controlEscape_digits c.toNat hc
    rw [Char.ofNat_toNat] at hdigits
    split at hdigits
    next heq =>
      rw [heq]
      refine ⟨by simp only [List.cons_append, List.length_cons, List.nil_append]; omega, ?_⟩
      simp [units, beq_iff_eq.mp hdigits, h]
    next => cases hdigits
  next hquote hbackslash _ _ _ _ _ hc =>
    rw [String.toList_singleton, List.singleton_append]
    refine ⟨by simp only [List.length_cons]; omega, ?_⟩
    rw [units]
    · simp_all
    · rintro _ _ _ _ _ rfl
      simp at hbackslash
    · rintro _ _ rfl
      simp at hbackslash

theorem finds_units (s : List Char) (rest : List Char) :
    Finds units ((String.join (s.map escapeChar)).toList ++ '"' :: rest)
      (s.map Char.toNat) rest := by
  induction s with
  | nil =>
    change Finds units ('"' :: rest) [] rest
    exact ⟨by simp, by simp [units]⟩
  | cons c s ih =>
    rw [List.map_cons, String.join_cons, String.toList_append, List.append_assoc]
    exact finds_units_escape ih c

end

/-- No character is half of a surrogate pair. -/
theorem unitsText?_map_toNat (s : List Char) : unitsText? (s.map Char.toNat) = some s := by
  have hvalid (c : Char) : isHighSurrogate c.toNat = false ∧ isLowSurrogate c.toNat = false := by
    have hrange : c.toNat < 0xD800 ∨ 0xDFFF < c.toNat ∧ c.toNat < 0x110000 := c.valid
    simp only [isHighSurrogate, isLowSurrogate, Bool.and_eq_false_iff, decide_eq_false_iff_not]
    omega
  induction s with
  | nil => rfl
  | cons c s ih =>
    obtain ⟨hhigh, hlow⟩ := hvalid c
    cases s with
    | nil => simp [unitsText?, hhigh, hlow]
    | cons d s =>
      rw [List.map_cons] at ih
      simp [unitsText?, hhigh, hlow, ih]

/-- A text is read back from behind its opening quote. -/
theorem finds_stringBody (s : String) (rest : List Char) :
    Finds stringBody ((String.join (s.toList.map escapeChar)).toList ++ '"' :: rest)
      (some s) rest := by
  obtain ⟨hlt, h⟩ := finds_units s.toList rest
  exact ⟨hlt, by simp [stringBody, h, unitsText?_map_toNat]⟩

theorem quote_append (s : String) (cs : List Char) : (quote s).toList ++ cs =
    '"' :: ((String.join (s.toList.map escapeChar)).toList ++ '"' :: cs) := by
  simp [quote]

/-! ## Values and their parts -/

section

variable {cs tail rest : List Char}

theorem finds_word (h : skip cs = c :: tail) (hc : c ∉ ['"', '[', '\x7b', '-'] ∧
    c.isDigit = false)
    (hword : wordTail? c tail = some (v, n)) : Finds value cs v (tail.drop n) := by
  have hlt := length_lt_of_skip h
  refine ⟨by simp only [List.length_drop]; omega, ?_⟩
  rw [value]
  grind

theorem finds_string (h : skip cs = '"' :: tail) (hbody : Finds stringBody tail s rest) :
    Finds value cs (.string s) rest := by
  obtain ⟨hlt, hbody⟩ := hbody
  refine ⟨Nat.lt_trans hlt (length_lt_of_skip h), ?_⟩
  rw [value]
  grind

theorem finds_emptyArray (h : skip cs = '[' :: tail) (hclose : skip tail = ']' :: rest) :
    Finds value cs (.array []) rest := by
  refine ⟨Nat.lt_trans (length_lt_of_skip hclose) (length_lt_of_skip h), ?_⟩
  rw [value]
  grind

/-- No value begins with a closing bracket. -/
theorem not_finds_closing (h : skip cs = ']' :: tail) : ¬ Finds value cs v rest := by
  rintro ⟨hlt, hvalue⟩
  rw [value] at hvalue
  grind [wordTail?]

theorem finds_lastItem (h : Finds value cs v rest) (hclose : skip rest = ']' :: tail) :
    Finds items cs [v] tail := by
  obtain ⟨hlt, h⟩ := h
  refine ⟨Nat.lt_trans (length_lt_of_skip hclose) hlt, ?_⟩
  rw [items]
  grind

theorem finds_nextItem (h : Finds value cs v rest) (hcomma : skip rest = ',' :: tail)
    (hitems : Finds items tail vs rest') : Finds items cs (v :: vs) rest' := by
  obtain ⟨hlt, h⟩ := h
  obtain ⟨hlt', hitems⟩ := hitems
  refine ⟨Nat.lt_trans hlt' (Nat.lt_trans (length_lt_of_skip hcomma) hlt), ?_⟩
  rw [items]
  grind

theorem finds_array (h : skip cs = '[' :: tail) (hitems : Finds items tail vs rest) :
    Finds value cs (.array vs) rest := by
  obtain ⟨hlt, hitems⟩ := hitems
  have hopen (ds : List Char) : skip tail ≠ ']' :: ds := by
    intro hclose
    rw [items] at hitems
    cases hvalue : value tail with
    | none => simp [hvalue] at hitems
    | some r => exact not_finds_closing hclose ⟨r.2.2, hvalue⟩
  refine ⟨Nat.lt_trans hlt (length_lt_of_skip h), ?_⟩
  rw [value]
  grind

theorem finds_emptyObject (h : skip cs = '\x7b' :: tail) (hclose : skip tail = '\x7d' :: rest) :
    Finds value cs (.object []) rest := by
  refine ⟨Nat.lt_trans (length_lt_of_skip hclose) (length_lt_of_skip h), ?_⟩
  rw [value]
  grind

theorem finds_object (h : skip cs = '\x7b' :: tail) (hfields : Finds fields tail fs rest) :
    Finds value cs (.object fs) rest := by
  obtain ⟨hlt, hfields⟩ := hfields
  have hopen (ds : List Char) : skip tail ≠ '\x7d' :: ds := by
    intro hclose
    rw [fields] at hfields
    grind
  refine ⟨Nat.lt_trans hlt (length_lt_of_skip h), ?_⟩
  rw [value]
  grind

section

variable {tail₂ rest₃ tail₃ : List Char} (h : skip cs = '"' :: tail)
  (hkey : Finds stringBody tail key rest) (hcolon : skip rest = ':' :: tail₂)
  (hvalue : Finds value tail₂ v rest₃)
include h hkey hcolon hvalue

theorem finds_lastField (hclose : skip rest₃ = '\x7d' :: tail₃) :
    Finds fields cs [(key, v)] tail₃ := by
  obtain ⟨hlt, hkey⟩ := hkey
  obtain ⟨hlt₃, hvalue⟩ := hvalue
  have hlt₂ := Nat.lt_trans (length_lt_of_skip hcolon) (Nat.lt_trans hlt (length_lt_of_skip h))
  refine ⟨Nat.lt_trans (length_lt_of_skip hclose) (Nat.lt_trans hlt₃ hlt₂), ?_⟩
  rw [fields]
  grind

theorem finds_nextField (hcomma : skip rest₃ = ',' :: tail₃)
    (hfields : Finds fields tail₃ fs rest') :
    Finds fields cs ((key, v) :: fs) rest' := by
  obtain ⟨hlt, hkey⟩ := hkey
  obtain ⟨hlt₃, hvalue⟩ := hvalue
  obtain ⟨hlt', hfields⟩ := hfields
  have hlt₂ := Nat.lt_trans (length_lt_of_skip hcolon) (Nat.lt_trans hlt (length_lt_of_skip h))
  refine ⟨Nat.lt_trans hlt' (Nat.lt_trans (length_lt_of_skip hcomma)
    (Nat.lt_trans hlt₃ hlt₂)), ?_⟩
  rw [fields]
  grind

end

end

end Reader

/-! ## Written forms -/

open Reader (skip_append skip_cons)

theorem Blank.nil : Blank [] := nofun

theorem Blank.append (h : Blank vs) (h' : Blank ws) : Blank (vs ++ ws) :=
  List.forall_mem_append.mpr ⟨h, h'⟩

/-- The value is read from `cs`, whatever blanks stand before and whatever stands behind. -/
def Reads (v : Json) (cs : List Char) : Prop :=
  ∀ ws rest, Blank ws → Finds Reader.value (ws ++ (cs ++ rest)) v rest

/-- The field is read from `cs`: its key in quotes, a colon and its value. -/
def ReadsField (f : Option String × Json) (cs : List Char) : Prop :=
  ∃ key ws ds, Blank ws ∧ f.1 = some key ∧ Reads f.2 ds ∧
    cs = ws ++ ((quote key).toList ++ ':' :: ds)

theorem ReadsField.finds {f : Option String × Json} (h : ReadsField f cs) (hws : Blank ws)
    (rest : List Char) : ∃ tail rest' tail₂, Reader.skip (ws ++ (cs ++ rest)) = '"' :: tail ∧
      Finds Reader.stringBody tail f.1 rest' ∧ Reader.skip rest' = ':' :: tail₂ ∧
      Finds Reader.value tail₂ f.2 rest := by
  obtain ⟨key, ws', ds, hws', hkey, hvalue, rfl⟩ := h
  have hopen : ws ++ ((ws' ++ ((quote key).toList ++ ':' :: ds)) ++ rest) =
      ws ++ (ws' ++ '"' :: ((String.join (key.toList.map escapeChar)).toList ++
        '"' :: ':' :: (ds ++ rest))) := by
    rw [List.append_assoc, List.append_assoc, List.cons_append, Reader.quote_append]
  refine ⟨_, _, _, ?_, hkey ▸ Reader.finds_stringBody key _, skip_cons (by decide) _,
    hvalue [] rest .nil⟩
  rw [hopen, skip_append hws, skip_append hws', skip_cons (by decide)]
  rfl

namespace Reads

variable {ws ws₀ ws₁ : List Char}

theorem blank (h : Reads v cs) (hws : Blank ws) : Reads v (ws ++ cs) := fun ws' rest hws' => by
  rw [List.append_assoc, ← List.append_assoc]
  exact h (ws' ++ ws) rest (hws'.append hws)

theorem text (s : String) : Reads (.text s) (quote s).toList := fun ws rest hws => by
  rw [Reader.quote_append]
  exact Reader.finds_string (by rw [skip_append hws, skip_cons (by decide)])
    (Reader.finds_stringBody s rest)

theorem word {c : Char} {tail : List Char} {v : Json}
    (hc : c ∉ ['"', '[', '\x7b', '-'] ∧ c.isDigit = false ∧ Reader.isBlank c = false)
    (h : ∀ rest, Reader.wordTail? c (tail ++ rest) = some (v, tail.length)) :
    Reads v (c :: tail) := fun ws rest hws => by
  have hskip : Reader.skip (ws ++ (c :: tail ++ rest)) = c :: (tail ++ rest) := by
    rw [skip_append hws]
    exact skip_cons hc.2.2 _
  have hfinds := Reader.finds_word hskip ⟨hc.1, hc.2.1⟩ (h rest)
  rwa [List.drop_left] at hfinds

theorem null : Reads .null "null".toList := word (by decide) fun _ => rfl

theorem bool (b : Bool) : Reads (.bool b) (if b then "true" else "false").toList := by
  cases b with
  | true => exact word (by decide) fun _ => rfl
  | false => exact word (by decide) fun _ => rfl

section

variable (hws₀ : Blank ws₀) (hws : Blank ws) (hws₁ : Blank ws₁)
include hws₀ hws hws₁

/-- Items with commas between them, up to the closing bracket. -/
theorem items {v : Json} (h : List.Forall₂ Reads (v :: vs) css) (rest : List Char) :
    Finds Reader.items (ws₀ ++ ((',' :: ws).intercalate css ++ (ws₁ ++ ']' :: rest))) (v :: vs)
      rest := by
  induction vs generalizing v css ws₀ with
  | nil =>
    obtain ⟨cs, css, hv, hnil, rfl⟩ := List.forall₂_cons_left_iff.mp h
    obtain rfl := List.forall₂_nil_left_iff.mp hnil
    rw [List.intercalate_singleton]
    exact Reader.finds_lastItem (hv ws₀ _ hws₀)
      (by rw [skip_append hws₁, skip_cons (by decide)])
  | cons v' vs ih =>
    obtain ⟨cs, css, hv, htail, rfl⟩ := List.forall₂_cons_left_iff.mp h
    have hne : css ≠ [] := by
      rintro rfl
      cases htail
    rw [List.intercalate_cons_of_ne_nil hne, List.append_assoc, List.append_assoc, List.cons_append]
    exact Reader.finds_nextItem (hv ws₀ _ hws₀) (skip_cons (by decide) _) (ih hws htail)

/-- An array is read from its items, with commas between them and blanks anywhere. -/
theorem array (h : List.Forall₂ Reads vs css) :
    Reads (.array vs) ('[' :: (ws₀ ++ ((',' :: ws).intercalate css ++ (ws₁ ++ [']'])))) := by
  intro ws' rest hws'
  rw [List.cons_append, List.append_assoc, List.append_assoc, List.append_assoc,
    List.singleton_append]
  have hopen (tail : List Char) : Reader.skip (ws' ++ '[' :: tail) = '[' :: tail := by
    rw [skip_append hws', skip_cons (by decide)]
  cases vs with
  | nil =>
    obtain rfl := List.forall₂_nil_left_iff.mp h
    rw [List.intercalate_nil, List.nil_append]
    exact Reader.finds_emptyArray (hopen _)
      (by rw [skip_append hws₀, skip_append hws₁, skip_cons (by decide)])
  | cons v vs => exact Reader.finds_array (hopen _) (items hws₀ hws hws₁ h rest)

/-- Fields with commas between them, up to the closing brace. -/
theorem fields {f : Option String × Json} (h : List.Forall₂ ReadsField (f :: fs) css)
    (rest : List Char) :
    Finds Reader.fields (ws₀ ++ ((',' :: ws).intercalate css ++ (ws₁ ++ '\x7d' :: rest)))
      (f :: fs) rest := by
  induction fs generalizing f css ws₀ with
  | nil =>
    obtain ⟨cs, css, hf, hnil, rfl⟩ := List.forall₂_cons_left_iff.mp h
    obtain rfl := List.forall₂_nil_left_iff.mp hnil
    rw [List.intercalate_singleton]
    obtain ⟨_, _, _, hopen, hkey, hcolon, hvalue⟩ := hf.finds hws₀ (ws₁ ++ '\x7d' :: rest)
    exact Reader.finds_lastField hopen hkey hcolon hvalue
      (by rw [skip_append hws₁, skip_cons (by decide)])
  | cons f' fs ih =>
    obtain ⟨cs, css, hf, htail, rfl⟩ := List.forall₂_cons_left_iff.mp h
    have hne : css ≠ [] := by
      rintro rfl
      cases htail
    rw [List.intercalate_cons_of_ne_nil hne, List.append_assoc, List.append_assoc, List.cons_append]
    obtain ⟨_, _, _, hopen, hkey, hcolon, hvalue⟩ := hf.finds hws₀
      (',' :: (ws ++ ((',' :: ws).intercalate css ++ (ws₁ ++ '\x7d' :: rest))))
    exact Reader.finds_nextField hopen hkey hcolon hvalue (skip_cons (by decide) _) (ih hws htail)

/-- An object is read from its fields, with commas between them and blanks before and behind
each. -/
theorem object (h : List.Forall₂ ReadsField fs css) :
    Reads (.object fs)
      ('\x7b' :: (ws₀ ++ ((',' :: ws).intercalate css ++ (ws₁ ++ ['\x7d'])))) := by
  intro ws' rest hws'
  rw [List.cons_append, List.append_assoc, List.append_assoc, List.append_assoc,
    List.singleton_append]
  have hopen (tail : List Char) : Reader.skip (ws' ++ '\x7b' :: tail) = '\x7b' :: tail := by
    rw [skip_append hws', skip_cons (by decide)]
  cases fs with
  | nil =>
    obtain rfl := List.forall₂_nil_left_iff.mp h
    rw [List.intercalate_nil, List.nil_append]
    exact Reader.finds_emptyObject (hopen _)
      (by rw [skip_append hws₀, skip_append hws₁, skip_cons (by decide)])
  | cons f fs => exact Reader.finds_object (hopen _) (fields hws₀ hws hws₁ h rest)

end

end Reads

/-- A text that holds a value and blanks around it. -/
theorem ofText?_of_reads {text : String} (h : Reads v cs) (hws : Blank ws)
    (htext : text.toList = cs ++ ws) : ofText? text = some v := by
  have hfinds := h [] ws .nil
  rw [List.nil_append, ← htext] at hfinds
  obtain ⟨hlt, hvalue⟩ := hfinds
  have hskip : Reader.skip ws = [] := by
    have hskip := skip_append hws []
    rwa [List.append_nil] at hskip
  unfold ofText?
  rw [hvalue]
  simp [hskip]

/-! ## Values in one line -/

mutual

/-- Neither numbers nor strings without a text occur in the value. -/
def IsVerbal : Json → Prop
  | .null | .bool _ | .string (some _) => True
  | .number _ | .string none => False
  | .array items => AllVerbal items
  | .object fields => FieldsVerbal fields

def AllVerbal : List Json → Prop
  | [] => True
  | v :: vs => v.IsVerbal ∧ AllVerbal vs

def FieldsVerbal : List (Option String × Json) → Prop
  | [] => True
  | (key, v) :: fs => key.isSome ∧ v.IsVerbal ∧ FieldsVerbal fs

end

mutual

theorem reads_spaced : {v : Json} → v.IsVerbal → Reads v v.spaced.toList
  | .null, _ => .null
  | .bool b, _ => .bool b
  | .string (some s), _ => .text s
  | .array vs, h => by
    have hitems := Reads.array .nil (by decide : Blank [' ']) .nil (reads_items h)
    simpa [spaced, oneLine] using hitems
  | .object fs, h => by
    have hfields := Reads.object .nil (by decide : Blank [' ']) .nil (reads_fields h)
    simpa [spaced, oneLine] using hfields

theorem reads_items : {vs : List Json} → AllVerbal vs →
    List.Forall₂ Reads vs ((oneLineItems ", " ": " vs).map String.toList)
  | [], _ => .nil
  | _ :: _, h => .cons (reads_spaced h.1) (reads_items h.2)

theorem reads_fields : {fs : List (Option String × Json)} → FieldsVerbal fs →
    List.Forall₂ ReadsField fs ((oneLineFields ", " ": " fs).map String.toList)
  | [], _ => .nil
  | (some key, v) :: _, h =>
    .cons ⟨key, [], ' ' :: v.spaced.toList, .nil, rfl,
      (reads_spaced h.2.1).blank (by decide : Blank [' ']),
      by simp [quoteString, spaced]⟩ (reads_fields h.2.2)

end

end FourGL.Json
