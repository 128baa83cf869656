import FourGL.Json

/-!
# Writing JSON

Three layouts: all in one line, with or without blanks, and one item or field a line with an
indentation of two blanks a level. Only control characters, quotes and backslashes are escaped.
-/

namespace FourGL.Json

/-- A control character by its number. -/
def controlEscape (c : Char) : String :=
  let digits := Nat.toDigits 16 c.toNat
  "\\u" ++ String.ofList (List.replicate (4 - digits.length) '0' ++ digits)

def escapeChar (c : Char) : String :=
  if c == '"' then "\\\""
  else if c == '\\' then "\\\\"
  else if c == '\n' then "\\n"
  else if c == '\r' then "\\r"
  else if c == '\t' then "\\t"
  else if c.toNat == 8 then "\\b"
  else if c.toNat == 12 then "\\f"
  else if c.toNat < 0x20 then controlEscape c
  else String.singleton c

def quote (s : String) : String := "\"" ++ String.join (s.toList.map escapeChar) ++ "\""

/-- A string without a text is written as the replacement character. -/
def quoteString : Option String → String
  | some s => quote s
  | none => quote "\uFFFD"

mutual

/-- All in one line, with the given separators of items and of keys from values. -/
def oneLine (comma colon : String) : Json → String
  | .null => "null"
  | .bool b => if b then "true" else "false"
  | .number digits => digits
  | .string s => quoteString s
  | .array items => "[" ++ comma.intercalate (oneLineItems comma colon items) ++ "]"
  | .object fields => "\x7b" ++ comma.intercalate (oneLineFields comma colon fields) ++ "\x7d"

def oneLineItems (comma colon : String) : List Json → List String
  | [] => []
  | v :: vs => oneLine comma colon v :: oneLineItems comma colon vs

def oneLineFields (comma colon : String) : List (Option String × Json) → List String
  | [] => []
  | (k, v) :: fs =>
    (quoteString k ++ colon ++ oneLine comma colon v) :: oneLineFields comma colon fs

end

/-- All in one line without blanks. -/
def compact (v : Json) : String := oneLine "," ":" v

/-- All in one line with a blank behind each comma and colon. -/
def spaced (v : Json) : String := oneLine ", " ": " v

/-- The beginning of a line at a level. -/
def newLine (level : Nat) : String := "\n" ++ String.ofList (List.replicate (2 * level) ' ')

/-- Lines between brackets that stand at `level`. -/
def bracketed (level : Nat) (opening closing : String) : List String → String
  | [] => opening ++ closing
  | ls => opening ++ ",".intercalate ls ++ newLine level ++ closing

mutual

/-- One item or field a line; the value itself stands at `level`. -/
def prettyAt (level : Nat) : Json → String
  | .null => "null"
  | .bool b => if b then "true" else "false"
  | .number digits => digits
  | .string s => quoteString s
  | .array items => bracketed level "[" "]" (prettyItems (level + 1) items)
  | .object fields => bracketed level "\x7b" "\x7d" (prettyFields (level + 1) fields)

def prettyItems (level : Nat) : List Json → List String
  | [] => []
  | v :: vs => (newLine level ++ prettyAt level v) :: prettyItems level vs

def prettyFields (level : Nat) : List (Option String × Json) → List String
  | [] => []
  | (k, v) :: fs => (newLine level ++ quoteString k ++ ": " ++ prettyAt level v) ::
      prettyFields level fs

end

def pretty (v : Json) : String := prettyAt 0 v

mutual

/-- The value with the fields of every object in ascending order of their keys. -/
def sortKeys : Json → Json
  | .array items => .array (sortItems items)
  | .object fields => .object ((sortFields fields).mergeSort fun a b =>
    decide (a.1.getD "" ≤ b.1.getD ""))
  | .null => .null
  | .bool b => .bool b
  | .number digits => .number digits
  | .string s => .string s

def sortItems : List Json → List Json
  | [] => []
  | v :: vs => sortKeys v :: sortItems vs

def sortFields : List (Option String × Json) → List (Option String × Json)
  | [] => []
  | (k, v) :: fs => (k, sortKeys v) :: sortFields fs

end

end FourGL.Json
