import FourGL.Grammar.Parser

/-!
# Reading types

Records and arrays hold types again; `inner` reads those. Each of them starts with a keyword of its
own, so types nest at most as deep as there are tokens left.
-/

namespace FourGL

/-- Built-in types that take nothing behind their name. -/
def Keyword.isPlainType : Keyword → Bool
  | .INTEGER | .INT | .SMALLINT | .TINYINT | .BIGINT | .STRING | .DATE | .BOOLEAN | .TEXT
  | .BYTE => true
  | _ => false

/-- Built-in types that may have sizes in parentheses behind their name. -/
def Keyword.isSizedType : Keyword → Bool
  | .CHAR | .VARCHAR | .DECIMAL | .MONEY | .FLOAT => true
  | _ => false

/-- The units of time that bound a DATETIME or an INTERVAL. -/
def Keyword.isTimeUnit : Keyword → Bool
  | .YEAR | .MONTH | .DAY | .HOUR | .MINUTE | .SECOND | .FRACTION => true
  | _ => false

namespace Parser

/-- Reads the text of a number, or reports that one should follow. -/
def expectNumber : Parser (Option String) := do
  if ← expect .number then return some (← last).text else return none

/-- Reads sizes in parentheses, if they follow. -/
def sizes : Parser (List String) := do
  if ← optional (.mark .openParen) then
    let numbers ← commaList expectNumber
    let _ ← expect (.mark .closeParen)
    return numbers
  else
    return []

/-- Reads a table and a column of it, where an asterisk stands for all columns. -/
def tableColumn : Parser (String × String) := do
  let table := (← expectNameText).getD ""
  if ← expect (.mark .dot) then
    if ← optional (.mark .asterisk) then
      return (table, "*")
    else
      return (table, (← expectNameText).getD "")
  else
    return (table, "")

/-- The unit of time at the next token. -/
def timeUnit? : Parser (Option Keyword) := do
  match ← peekKind with
  | .keyword k => if k.isTimeUnit then return some k else return none
  | _ => return none

/-- Reads a unit of time, which is next, and the number of digits in parentheses behind it. -/
def timeUnit (unit : Keyword) : Parser String := do
  let _ ← next
  if ← optional (.mark .openParen) then
    let precision ← expectNumber
    let _ ← expect (.mark .closeParen)
    return unit.text ++ precision.elim "" fun n => "(" ++ n ++ ")"
  else
    return unit.text

/-- Reads the units of time that a DATETIME or an INTERVAL goes from and to, if there are any. -/
def timeRange : Parser (List String) := do
  match ← timeUnit? with
  | none => return []
  | some first =>
    let first ← timeUnit first
    if ← expect (.keyword .TO) then
      match ← timeUnit? with
      | some second => return [first, ← timeUnit second]
      | none =>
        reportNext .expected [Keyword.SECOND.text]
        return [first]
    else
      return [first]

/-- Reads the rest of a name whose parts are joined by dots. -/
def dottedName (first : String) : Parser String :=
  whileNext (fun _ => when (nextBeforeName (.mark .dot)))
    (fun name _ => do return name ++ "." ++ (← next).text) first

/-- Reads a type that holds no other type, or reports that a type should follow. -/
def leafType : Parser TypeReference := do
  let t ← peek
  let named (k : Keyword) (arguments : Parser (List String)) : Parser TypeReference := do
    let _ ← next
    return .named k.text (← arguments)
  let ownType : Parser TypeReference := do
    let _ ← next
    return .named (← dottedName t.text) []
  match t.kind with
  | .keyword k =>
    if k = .LIKE then
      let _ ← next
      let (table, column) ← tableColumn
      return .like table column
    else if k.isSizedType then named k sizes
    else if k = .DATETIME ∨ k = .INTERVAL then named k timeRange
    else if k.isPlainType then named k (pure [])
    else if k.isReserved then
      reportNext .typeExpected []
      return .missing
    else ownType
  | .identifier => ownType
  | _ =>
    reportNext .typeExpected []
    return .missing

/-- Reads the rest of a group of names that share a type, and the type. -/
def variableGroup (inner : Parser TypeReference) (first : String × Span) :
    Parser (List Variable) := do
  let names ← whileNext (fun _ => when (nextBeforeName (.mark .comma)))
    (fun names _ => do
      let t ← next
      return names ++ [(t.text, t.span)])
    [first]
  let type ← inner
  return names.map fun (name, span) => ⟨name, span, type⟩

/-- Reads groups of names behind the first name of the first group. -/
def variableGroupsAfter (inner : Parser TypeReference) (first : String × Span) :
    Parser (List Variable) := do
  let group ← variableGroup inner first
  let another : Parser (Option (List Variable)) := do
    match ← expectName with
    | some name => return some (← variableGroup inner name)
    | none => return none
  return (← commaTail another [group]).flatten

/-- Reads groups of names that share a type: `a, b INTEGER, c STRING`. -/
def variableGroups (inner : Parser TypeReference) : Parser (List Variable) := do
  match ← expectName with
  | some first => variableGroupsAfter inner first
  | none => return []

/-- Whether a field follows in a record; if not, whether its END does. -/
def fieldFollows : Parser (Bool ⊕ Unit) := do
  if ← nextAre (.keyword .END) (.keyword .RECORD) then return .inl true
  else if (← peekKind).canBeName then return .inr ()
  else return .inl false

/-- Reads the fields of a record and its END RECORD. -/
def recordFields (inner : Parser TypeReference) : Parser (List Variable) := do
  let group (fields : List Variable) (_ : Unit) : Parser (List Variable) := do
    let t ← last
    return fields ++ (← variableGroupsAfter inner (t.text, t.span))
  let (fields, closed) ← loop false (fun _ => fieldFollows) group []
  if closed then
    let _ ← next
    let _ ← next
  else
    reportNext .expected ["end record"]
  return fields

/-- Reads a record behind its keyword. -/
def recordType (inner : Parser TypeReference) : Parser TypeReference := do
  if ← optional (.keyword .LIKE) then
    return .recordLike (← tableColumn).1
  else
    return .record (← recordFields inner)

/-- Reads `ARRAY [WITH DIMENSION n] OF type` behind DYNAMIC. -/
def dynamicArrayType (inner : Parser TypeReference) : Parser TypeReference := do
  let _ ← expect (.keyword .ARRAY)
  let dimension ←
    if ← optional (.keyword .WITH) then do
      let _ ← expect (.keyword .DIMENSION)
      expectNumber
    else pure none
  let _ ← expect (.keyword .OF)
  return .array true dimension.toList (← inner)

/-- Reads `[n, m] OF type` behind ARRAY. A size that is missing does not end the list of them. -/
def staticArrayType (inner : Parser TypeReference) : Parser TypeReference := do
  let dimensions ←
    if ← expect (.mark .openBracket) then do
      let dimensions ← commaList (do return some (← expectNumber))
      let _ ← expect (.mark .closeBracket)
      pure dimensions
    else pure []
  let _ ← expect (.keyword .OF)
  return .array false (dimensions.filterMap id) (← inner)

/-- Reads a type that nests at most `depth` deep. -/
def typeWithin : (depth : Nat) → Parser TypeReference
  | 0 => leafType
  | depth + 1 => do
    match ← peekKind with
    | .keyword .RECORD =>
      let _ ← next
      recordType (typeWithin depth)
    | .keyword .DYNAMIC =>
      let _ ← next
      dynamicArrayType (typeWithin depth)
    | .keyword .ARRAY =>
      let _ ← next
      staticArrayType (typeWithin depth)
    | _ => leafType

/-- Reads a type, or reports that one should follow. -/
def typeReference : Parser TypeReference :=
  ⟨fun s => (typeWithin s.left).run s, fun s => (typeWithin s.left).left_le s⟩

end Parser

end FourGL
