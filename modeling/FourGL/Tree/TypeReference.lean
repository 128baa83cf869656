import FourGL.Text.Span

/-!
# Types as they are written in declarations
-/

namespace FourGL

mutual

inductive TypeReference where
  /-- The name of a type and its sizes: `INTEGER`, `CHAR(10)`, `DATETIME YEAR TO SECOND`. -/
  | named (name : String) (arguments : List String)
  /-- The type of a column of a table. -/
  | like (table column : String)
  | record (fields : List Variable)
  /-- A record with a field for each column of a table. -/
  | recordLike (table : String)
  | array (isDynamic : Bool) (dimensions : List String) (element : TypeReference)
  /-- A type that could not be read. -/
  | missing

/-- A name with its type: a variable, or a field of a record. -/
structure Variable where
  name : String
  span : Span
  type : TypeReference

end

mutual

/-- The type as source text in one line. -/
def TypeReference.render : TypeReference → String
  | .named name arguments =>
    if arguments.isEmpty then name else name ++ "(" ++ ",".intercalate arguments ++ ")"
  | .like table column => s!"like {table}.{column}"
  | .record fields => "record " ++ renderFields fields ++ "end record"
  | .recordLike table => s!"record like {table}.*"
  | .array isDynamic dimensions element =>
    let shape :=
      if isDynamic then
        match dimensions with
        | [] => "dynamic array"
        | dimension :: _ => s!"dynamic array with dimension {dimension}"
      else "array[" ++ ",".intercalate dimensions ++ "]"
    shape ++ " of " ++ element.render
  | .missing => "?"

/-- Each field with a comma behind it. -/
def renderFields : List Variable → String
  | [] => ""
  | ⟨name, _, type⟩ :: fields => name ++ " " ++ type.render ++ ", " ++ renderFields fields

end

end FourGL
