import FourGL.Json

/-!
# Records in JSON

A record is written as an object with named fields, or as an array with the values of its fields in
their fixed order.
-/

namespace FourGL.Json

/-- What a written record has for one of its fields. -/
inductive Slot where
  | given (v : Json)
  /-- The object has no field of this name. -/
  | unnamed
  /-- The array ends before this field. -/
  | beyond

namespace Slot

/-- A field that must be there. -/
def required (read : Json → Option α) : Slot → Option α
  | given v => read v
  | unnamed | beyond => none

/-- A field that an object may leave out, or give as null. -/
def optional (read : Json → Option α) : Slot → Option (Option α)
  | given .null => some none
  | given v => (read v).map some
  | unnamed => some none
  | beyond => none

/-- A field that may be left out but is not null. -/
def orElse (default : α) (read : Json → Option α) : Slot → Option α
  | given v => read v
  | unnamed | beyond => some default

end Slot

/-- Whether an object may have fields besides those that are read. -/
inductive OtherFields where
  | refused
  | ignored
deriving DecidableEq

/-- The one value of the field `name`; `none` if it is given twice. -/
def slot? (fields : List (Option String × Json)) (name : String) : Option Slot :=
  match fields.filter (·.1 == some name) with
  | [] => some .unnamed
  | [(_, v)] => some (.given v)
  | _ => none

/-- Whether the key of a field is a text, and one of `names` unless others are ignored. -/
def acceptsKey (names : List String) (others : OtherFields) : Option String → Bool
  | none => false
  | some key => others == .ignored || names.contains key

/-- The values of a record's fields, in the order of `names`. -/
def slots? (names : List String) (others : OtherFields) : Json → Option (List Slot)
  | .object fields =>
    if fields.all fun f => acceptsKey names others f.1 then names.mapM (slot? fields) else none
  | .array items =>
    if items.length ≤ names.length then
      some (items.map .given ++ List.replicate (names.length - items.length) .beyond)
    else none
  | _ => none

/-- The items of an array, each read on its own. -/
def listOf? (read : Json → Option α) : Json → Option (List α)
  | .array items => items.mapM read
  | _ => none

end FourGL.Json
