/-!
# JSON values
-/

namespace FourGL

/-- A JSON value. A number is kept as it is written. A string is `none` when its escapes leave half
of a surrogate pair alone, so that no text corresponds to it. -/
inductive Json where
  | null
  | bool (b : Bool)
  | number (digits : String)
  | string (text : Option String)
  | array (items : List Json)
  | object (fields : List (Option String × Json))
deriving Inhabited

namespace Json

def text (s : String) : Json := .string (some s)

def nat (n : Nat) : Json := .number (toString n)

/-- An object with the given fields, in their order. -/
def record (fields : List (String × Json)) : Json := .object (fields.map fun (k, v) => (some k, v))

/-- The value, or null where there is none. -/
def ofOption (f : α → Json) : Option α → Json
  | some a => f a
  | none => .null

def list (f : α → Json) (as : List α) : Json := .array (as.map f)

/-- The value of a field, the first if there are several. -/
def get? : Json → String → Option Json
  | .object fields, key => (fields.find? (·.1 == some key)).map (·.2)
  | _, _ => none

def text? : Json → Option String
  | .string s => s
  | _ => none

def bool? : Json → Option Bool
  | .bool b => some b
  | _ => none

def items? : Json → Option (List Json)
  | .array items => some items
  | _ => none

def nat? : Json → Option Nat
  | .number digits => digits.toNat?
  | _ => none

end Json

end FourGL
