import FourGL.Json

/-!
# Reading JSON

A strict reader: exactly one value, with blanks around it and between its parts and nothing else.
Every reader returns what is left of the text together with the proof that this is shorter.
-/

namespace FourGL.Json

/-- What is left of `cs` after something has been read from it. -/
abbrev Shorter (cs : List Char) := { rest : List Char // rest.length < cs.length }

namespace Reader

def isBlank (c : Char) : Bool := c == ' ' || c == '\n' || c == '\t' || c == '\r'

def skip (cs : List Char) : List Char := cs.dropWhile isBlank

theorem length_dropWhile_le (p : Char → Bool) (cs : List Char) :
    (cs.dropWhile p).length ≤ cs.length := by
  induction cs with
  | nil => exact Nat.le_refl _
  | cons c cs ih =>
    rw [List.dropWhile_cons]
    split
    · exact Nat.le_succ_of_le ih
    · exact Nat.le_refl _

theorem length_lt_of_skip {cs rest : List Char} {c : Char} (h : skip cs = c :: rest) :
    rest.length < cs.length := by
  have hle := length_dropWhile_le isBlank cs
  rw [show cs.dropWhile isBlank = c :: rest from h] at hle
  exact hle

/-! ## Strings -/

def hexValue? (c : Char) : Option Nat :=
  if c.isDigit then some (c.toNat - '0'.toNat)
  else if 'a' ≤ c ∧ c ≤ 'f' then some (c.toNat - 'a'.toNat + 10)
  else if 'A' ≤ c ∧ c ≤ 'F' then some (c.toNat - 'A'.toNat + 10)
  else none

def hexValue4? (a b c d : Char) : Option Nat := do
  let a ← hexValue? a
  let b ← hexValue? b
  let c ← hexValue? c
  let d ← hexValue? d
  some (((16 * a + b) * 16 + c) * 16 + d)

/-- What a letter behind a backslash stands for. -/
def shortEscape? : Char → Option Char
  | '"' => some '"'
  | '\\' => some '\\'
  | '/' => some '/'
  | 'b' => some '\x08'
  | 'f' => some '\x0C'
  | 'n' => some '\n'
  | 'r' => some '\r'
  | 't' => some '\t'
  | _ => none

/-- The code units of a string up to its closing quote, halves of surrogate pairs as they come. -/
def units : (cs : List Char) → Option (List Nat × Shorter cs)
  | [] => none
  | '\\' :: 'u' :: a :: b :: c :: d :: cs => do
    let n ← hexValue4? a b c d
    let (ns, rest) ← units cs
    some (n :: ns, ⟨rest, by have := rest.property; simp only [List.length_cons]; omega⟩)
  | '\\' :: c :: cs => do
    let e ← shortEscape? c
    let (ns, rest) ← units cs
    some (e.toNat :: ns, ⟨rest, by have := rest.property; simp only [List.length_cons]; omega⟩)
  | c :: cs =>
    if c = '"' then some ([], ⟨cs, by simp⟩)
    else if c.toNat < 0x20 ∨ c = '\\' then none
    else do
      let (ns, rest) ← units cs
      some (c.toNat :: ns,
        ⟨rest, by have := rest.property; simp only [List.length_cons]; omega⟩)

def isHighSurrogate (n : Nat) : Bool := 0xD800 ≤ n && n < 0xDC00

def isLowSurrogate (n : Nat) : Bool := 0xDC00 ≤ n && n < 0xE000

/-- The text of a sequence of code units; `none` if half of a surrogate pair stands alone. -/
def unitsText? : List Nat → Option (List Char)
  | [] => some []
  | [n] => if isHighSurrogate n || isLowSurrogate n then none else some [Char.ofNat n]
  | n :: m :: ns =>
    if isHighSurrogate n then
      if isLowSurrogate m then
        (unitsText? ns).map (Char.ofNat (0x10000 + (n - 0xD800) * 0x400 + (m - 0xDC00)) :: ·)
      else none
    else if isLowSurrogate n then none
    else (unitsText? (m :: ns)).map (Char.ofNat n :: ·)

/-- A string behind its opening quote. -/
def stringBody (cs : List Char) : Option (Option String × Shorter cs) :=
  (units cs).map fun (ns, rest) => ((unitsText? ns).map String.ofList, rest)

/-! ## Numbers and words -/

def digits (cs : List Char) : Nat := (cs.takeWhile Char.isDigit).length

/-- How many characters the fraction at the beginning of `cs` takes, none if there is no
fraction. -/
def fraction? : List Char → Option Nat
  | '.' :: cs => if digits cs = 0 then none else some (digits cs + 1)
  | _ => some 0

/-- How many characters the exponent at the beginning of `cs` takes, none if there is no
exponent. -/
def exponent? : List Char → Option Nat
  | c :: cs =>
    if c = 'e' ∨ c = 'E' then
      let sign := if cs.head? = some '+' ∨ cs.head? = some '-' then 1 else 0
      let n := digits (cs.drop sign)
      if n = 0 then none else some (1 + sign + n)
    else some 0
  | [] => some 0

/-- How many characters a number without a sign takes. No digit follows a leading zero. -/
def unsignedLength? (cs : List Char) : Option Nat := do
  let whole := digits cs
  if whole = 0 ∨ (cs.head? = some '0' ∧ 1 < whole) then none
  let fraction ← fraction? (cs.drop whole)
  let exponent ← exponent? (cs.drop (whole + fraction))
  some (whole + fraction + exponent)

/-- The number that starts with `c` and goes on in `cs`: how much of `cs` it takes. -/
def numberTail? (c : Char) (cs : List Char) : Option Nat :=
  if c = '-' then unsignedLength? cs else (unsignedLength? (c :: cs)).map (· - 1)

/-- The literal words, behind their first letter. -/
def wordTail? : Char → List Char → Option (Json × Nat)
  | 't', 'r' :: 'u' :: 'e' :: _ => some (.bool true, 3)
  | 'f', 'a' :: 'l' :: 's' :: 'e' :: _ => some (.bool false, 4)
  | 'n', 'u' :: 'l' :: 'l' :: _ => some (.null, 3)
  | _, _ => none

/-! ## Values -/

mutual

/-- The value at the beginning of `cs`. -/
def value (cs : List Char) : Option (Json × Shorter cs) :=
  match h : skip cs with
  | [] => none
  | c :: tail =>
    have hlt := length_lt_of_skip h
    if c = '"' then
      (stringBody tail).map fun (s, rest) => (.string s, ⟨rest, Nat.lt_trans rest.property hlt⟩)
    else if c = '[' then
      match h' : skip tail with
      | ']' :: rest => some (.array [], ⟨rest, Nat.lt_trans (length_lt_of_skip h') hlt⟩)
      | _ => (items tail).map fun (vs, rest) =>
        (.array vs, ⟨rest, Nat.lt_trans rest.property hlt⟩)
    else if c = '\x7b' then
      match h' : skip tail with
      | '\x7d' :: rest => some (.object [], ⟨rest, Nat.lt_trans (length_lt_of_skip h') hlt⟩)
      | _ => (fields tail).map fun (fs, rest) =>
        (.object fs, ⟨rest, Nat.lt_trans rest.property hlt⟩)
    else if c = '-' ∨ c.isDigit then
      (numberTail? c tail).map fun n =>
        (.number (String.ofList (c :: tail.take n)),
          ⟨tail.drop n, by simp only [List.length_drop]; omega⟩)
    else
      (wordTail? c tail).map fun (v, n) =>
        (v, ⟨tail.drop n, by simp only [List.length_drop]; omega⟩)
termination_by (cs.length, 0)

/-- One or more values up to the closing bracket. -/
def items (cs : List Char) : Option (List Json × Shorter cs) :=
  match value cs with
  | none => none
  | some (v, ⟨rest, hrest⟩) =>
    match h : skip rest with
    | ',' :: tail =>
      have hlt := Nat.lt_trans (length_lt_of_skip h) hrest
      (items tail).map fun (vs, rest) => (v :: vs, ⟨rest, Nat.lt_trans rest.property hlt⟩)
    | ']' :: tail => some ([v], ⟨tail, Nat.lt_trans (length_lt_of_skip h) hrest⟩)
    | _ => none
termination_by (cs.length, 1)

/-- One or more fields up to the closing brace. -/
def fields (cs : List Char) : Option (List (Option String × Json) × Shorter cs) :=
  match h₁ : skip cs with
  | '"' :: tail =>
    have hlt₁ := length_lt_of_skip h₁
    match stringBody tail with
    | none => none
    | some (key, ⟨rest, hrest⟩) =>
      match h₂ : skip rest with
      | ':' :: tail₂ =>
        have hlt₂ := Nat.lt_trans (length_lt_of_skip h₂) (Nat.lt_trans hrest hlt₁)
        match value tail₂ with
        | none => none
        | some (v, ⟨rest₃, hrest₃⟩) =>
          match h₃ : skip rest₃ with
          | ',' :: tail₃ =>
            have hlt₃ := Nat.lt_trans (length_lt_of_skip h₃) (Nat.lt_trans hrest₃ hlt₂)
            (fields tail₃).map fun (fs, rest) =>
              ((key, v) :: fs, ⟨rest, Nat.lt_trans rest.property hlt₃⟩)
          | '\x7d' :: tail₃ =>
            some ([(key, v)],
              ⟨tail₃, Nat.lt_trans (length_lt_of_skip h₃) (Nat.lt_trans hrest₃ hlt₂)⟩)
          | _ => none
      | _ => none
  | _ => none
termination_by (cs.length, 1)

end

end Reader

/-- The value that `text` holds, if it holds exactly one. -/
def ofText? (text : String) : Option Json :=
  match Reader.value text.toList with
  | some (v, rest) => if (Reader.skip rest).isEmpty then some v else none
  | none => none

end FourGL.Json
