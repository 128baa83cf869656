import FourGL.Text.Blank

/-!
# Language versions

A version is a major and a minor number, written `major.minor` with a minor part of two digits.
A construct of the language is available from its own version on.
-/

namespace FourGL

structure Version where
  major : Nat
  minor : Nat
deriving DecidableEq

namespace Version

/-- The oldest version; whatever names no version of its own is available from here on. -/
def baseline : Version := ⟨2, 10⟩

/-- The newest version, assumed where none is given. -/
def latest : Version := ⟨4, 0⟩

/-- Versions compare by their major number first. -/
protected def ble (a b : Version) : Bool :=
  a.major < b.major || (a.major == b.major && a.minor ≤ b.minor)

instance : LE Version where
  le a b := a.ble b = true

instance (a b : Version) : Decidable (a ≤ b) := inferInstanceAs (Decidable (a.ble b = true))

theorem le_iff (a b : Version) : a ≤ b ↔ a.major < b.major ∨
    (a.major = b.major ∧ a.minor ≤ b.minor) := by
  show a.ble b = true ↔ _
  simp [Version.ble]

theorem le_trans {a b c : Version} (hab : a ≤ b) (hbc : b ≤ c) : a ≤ c := by
  rw [le_iff] at *; omega

/-- Whether what came with version `v` can be used when `active` is in force. -/
def availableIn (v active : Version) : Bool := v ≤ active

/-- A number of at most two digits, padded to two. -/
def twoDigits (n : Nat) : String := if n < 10 then s!"0{n}" else s!"{n}"

def render (v : Version) : String := s!"{v.major}.{twoDigits v.minor}"

/-- The value of a digit string, `none` when it is empty or holds anything else. -/
def digitsValue? (cs : List Char) : Option Nat :=
  if cs.isEmpty || !cs.all Char.isDigit then none
  else some (cs.foldl (fun n c => 10 * n + (c.toNat - '0'.toNat)) 0)

/-- The largest number that a part of a version may have. -/
def maxPart : Nat := 65535

/-- One part of a version: digits, which a plus sign may precede. -/
def part? (cs : List Char) : Option Nat :=
  let digits := match cs with
    | '+' :: cs => cs
    | cs => cs
  (digitsValue? digits).bind fun n => if n ≤ maxPart then some n else none

/-- Reads `major` or `major.minor`, with spaces around it. The minor part has one or two characters;
of one digit it counts tens, so that `2.5` is `2.50`. -/
def ofText? (text : String) : Option Version :=
  let cs := (trim text).toList
  let major := cs.takeWhile (· != '.')
  let minor := match cs.dropWhile (· != '.') with
    | [] => ['0']
    | _ :: minor => minor
  if minor.isEmpty || 2 < minor.length then none
  else (part? major).bind fun major =>
    (part? minor).map fun n => ⟨major, if minor.length = 1 then 10 * n else n⟩

/-- What is said about a text that is no version. -/
def complaint (text : String) : String :=
  s!"invalid language version '{text}' (expected major.minor, e.g. 3.20)"

end Version

end FourGL
