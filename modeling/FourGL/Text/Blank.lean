/-!
# Blanks, line breaks and letter case

The classes of characters that separate words, and comparison of names without regard to case.
-/

namespace FourGL

/-- The Unicode property White_Space. -/
def isSpace (c : Char) : Bool :=
  (9 ≤ c.toNat && c.toNat ≤ 13) || c.toNat == 0x20 || c.toNat == 0x85 || c.toNat == 0xA0 ||
    c.toNat == 0x1680 || (0x2000 ≤ c.toNat && c.toNat ≤ 0x200A) || c.toNat == 0x2028 ||
    c.toNat == 0x2029 || c.toNat == 0x202F || c.toNat == 0x205F || c.toNat == 0x3000

/-- Line feed, carriage return and the Unicode line and paragraph separators end a line. -/
def isLineBreak (c : Char) : Bool :=
  c == '\n' || c == '\r' || c.toNat == 0x2028 || c.toNat == 0x2029

/-- A blank inside a line: any space that does not end the line, of the ASCII ones space, tab,
vertical tab and form feed. A byte order mark counts as one. -/
def isBlank (c : Char) : Bool :=
  c == ' ' || c == '\t' || c.toNat == 0x0B || c.toNat == 0x0C || c.toNat == 0xFEFF ||
    (!isLineBreak c && 0x80 ≤ c.toNat && isSpace c)

/-- `text` without the spaces at either end. -/
def trim (text : String) : String :=
  String.ofList ((text.toList.dropWhile isSpace).reverse.dropWhile isSpace).reverse

/-- Names are the same when they differ at most in the case of ASCII letters. -/
def sameName (a b : String) : Bool := a.toLower == b.toLower

theorem sameName_iff (a b : String) : sameName a b = true ↔ a.toLower = b.toLower := by
  simp [sameName]

end FourGL
