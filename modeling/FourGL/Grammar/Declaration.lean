import FourGL.Grammar.Body
import FourGL.Grammar.Expression
import FourGL.Grammar.TypeReference

/-!
# Declarations

DEFINE, CONSTANT and TYPE. A name that its owner has declared already is reported and keeps its
first meaning.
-/

namespace FourGL.Parser

/-- Declares a name for the owner of the context, if there is one. -/
def declareName (ctx : Context) (d : Declaration) : Parser Unit := do
  match ctx.vars with
  | none => return ()
  | some owner =>
    match (← getNames).declare? owner d with
    | some names => setNames names
    | none => report .alreadyDefined [d.name] d.span

/-- Declares names one after the other. -/
def declareAll (ctx : Context) : List Declaration → Parser Unit
  | [] => return ()
  | d :: ds => do
    declareName ctx d
    declareAll ctx ds

/-- The access modifier that a form starts with; behind it the form's own word is read as well. -/
def accessOf (word : Keyword) : Parser Access := do
  match word with
  | .PUBLIC =>
    let _ ← next
    return .publicAccess
  | .PRIVATE =>
    let _ ← next
    return .privateAccess
  | _ => return .unstated

/-- `[PUBLIC | PRIVATE] DEFINE a, b type {, c type}` -/
def variablesStatement (word : Keyword) (ctx : Context) (o : Opening) : Parser Node := do
  let access ← accessOf word
  let vars ← variableGroups typeReference
  declareAll ctx (vars.map .variable)
  closeStatement o (.vars access vars)

/-- Reads one constant: `name [type] = value`. -/
def constant (levels : Nat) (ctx : Context) : Parser (Option Constant) := do
  match ← expectName with
  | none => return none
  | some (name, span) =>
    let type ← if ← nextIs (.mark .equal) then pure none else some <$> typeReference
    let value ← if ← expect (.mark .equal) then some <$> expectExpression levels else pure none
    let c : Constant := ⟨name, span, type, value⟩
    declareName ctx (.constant c)
    return some c

/-- `[PUBLIC | PRIVATE] CONSTANT name [type] = value {, ...}` -/
def constantsStatement (levels : Nat) (word : Keyword) (ctx : Context) (o : Opening) :
    Parser Node := do
  let access ← accessOf word
  let constants ← commaList (constant levels ctx)
  closeStatement o (.constants access constants)

/-- Reads one type and its name. -/
def typeName (ctx : Context) : Parser (Option TypeName) := do
  match ← expectName with
  | none => return none
  | some (name, span) =>
    let t : TypeName := ⟨name, span, ← typeReference⟩
    declareName ctx (.type t)
    return some t

/-- `[PUBLIC | PRIVATE] TYPE name type {, ...}` -/
def typesStatement (word : Keyword) (ctx : Context) (o : Opening) : Parser Node := do
  let access ← accessOf word
  let types ← commaList (typeName ctx)
  closeStatement o (.types access types)

end FourGL.Parser
