/-!
# Lines of a text

A line ends with a line feed, which still belongs to it; the next line starts right behind. Places
and offsets are exchanged with the outside as words of 32 bits.
-/

namespace FourGL

/-- A zero-based line and the offset from that line's start. -/
structure LineColumn where
  line : UInt32
  column : UInt32
deriving DecidableEq

/-- The offsets at which the lines of a text start, ascending; the first line starts at 0. -/
structure LineMap where
  starts : List Nat
deriving DecidableEq

namespace LineMap

/-- The offsets right behind each line feed of `cs`, whose first character has offset `pos`. -/
def startsAfter : Nat → List Char → List Nat
  | _, [] => []
  | pos, c :: cs =>
    if c = '\n' then (pos + 1) :: startsAfter (pos + 1) cs else startsAfter (pos + 1) cs

def ofText (text : String) : LineMap := ⟨0 :: startsAfter 0 text.toList⟩

/-- The line that holds the offset `pos`: the last one that starts at or before it. -/
def lineOf (m : LineMap) (pos : UInt32) : UInt32 :=
  .ofNat (m.starts.countP (· ≤ pos.toNat) - 1)

/-- The offset at which a line starts; a line past the end counts as the last one. -/
def startOf (m : LineMap) (line : UInt32) : UInt32 :=
  .ofNat ((m.starts[line.toNat]?).getD (m.starts.getLastD 0))

def lineColumnOf (m : LineMap) (pos : UInt32) : LineColumn :=
  let line := m.lineOf pos
  ⟨line, pos - m.startOf line⟩

/-- The offset of a place. The sum is not checked: it begins again from zero where a word ends. -/
def offsetOf (m : LineMap) (place : LineColumn) : UInt32 :=
  m.startOf place.line + place.column

end LineMap

/-- How many bytes the first `pos` characters of `text` take in UTF-8. -/
def byteOffset (text : String) (pos : Nat) : Nat :=
  (text.toList.take pos).foldr (fun c n => c.utf8Size + n) 0

end FourGL
