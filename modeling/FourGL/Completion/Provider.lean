import FourGL.Completion.Item
import FourGL.Tree.Node

/-!
# Providers

A provider offers the declared names that can be seen from a place in a module.
-/

namespace FourGL

namespace NodeKind

/-- MAIN and functions are routines. -/
def isRoutine : NodeKind → Bool
  | main .. | function .. => true
  | _ => false

/-- What a routine declares itself. -/
def routineScope? : NodeKind → Option Scope
  | main scope => some scope
  | function _ _ _ _ scope _ => some scope
  | _ => none

/-- The parameters of a function; any other node has none. -/
def parameters : NodeKind → List String
  | function _ _ _ parameters _ _ => parameters
  | _ => []

/-- What a module declares, its own names before those of its GLOBALS blocks. -/
def moduleScopes : NodeKind → List Scope
  | module own shared _ _ => [own, shared]
  | _ => []

/-- The functions of a module. -/
def functions : NodeKind → List Signature
  | module _ _ functions _ => functions
  | _ => []

end NodeKind

/-- A place in a module, or in no module at all. -/
structure Surroundings where
  module : Option Node
  position : Nat

namespace Surroundings

/-- The routine around the place: the last one to start at or before it, unless the place is behind
its end. A routine that is not complete has no end. -/
def routine? (s : Surroundings) : Option Node := do
  let m ← s.module
  let r ← (m.children.filter fun n => n.kind.isRoutine && n.start ≤ s.position).getLast?
  if s.position ≤ r.stop || !r.extent.isComplete then some r else none

/-- The scopes that can be seen from the place, the innermost first. -/
def scopes (s : Surroundings) : List Scope :=
  (s.routine?.bind (·.kind.routineScope?)).toList ++
    (s.module.map (·.kind.moduleScopes)).getD []

/-- The parameters of the function around the place. -/
def parameters (s : Surroundings) : List String :=
  (s.routine?.map (·.kind.parameters)).getD []

/-- The functions of the module. -/
def functions (s : Surroundings) : List Signature :=
  (s.module.map (·.kind.functions)).getD []

end Surroundings

/-! ## Items for declared names -/

namespace Item

def ofParameter (name : String) : Item := ⟨name, .variable, some "parameter"⟩

def ofVariable (v : Variable) : Item := ⟨v.name, .variable, some v.type.render⟩

def ofSignature (f : Signature) : Item :=
  ⟨f.name, .function, some (s!"function {f.name}(" ++ ", ".intercalate f.parameters ++ ")")⟩

def ofConstant (c : Constant) : Item := ⟨c.name, .constant, c.value.map (·.render)⟩

def ofTypeName (t : TypeName) : Item := ⟨t.name, .type, some t.type.render⟩

def ofCursor (c : Cursor) : Item :=
  ⟨c.name, .cursor, some (match c.kind with
    | .prepared => "prepared statement"
    | .declared => "cursor")⟩

end Item

structure Provider where
  /-- What the provider has to offer. -/
  kinds : MemberKinds
  items : Surroundings → List Item

namespace Provider

/-- Parameters, then the variables of every scope. -/
def vars : Provider where
  kinds := .ofList [.vars]
  items s := s.parameters.map .ofParameter ++ s.scopes.flatMap fun c => c.vars.map .ofVariable

def functions : Provider where
  kinds := .ofList [.functions]
  items s := s.functions.map .ofSignature

def constants : Provider where
  kinds := .ofList [.constants]
  items s := s.scopes.flatMap fun c => c.constants.map .ofConstant

def types : Provider where
  kinds := .ofList [.types]
  items s := s.scopes.flatMap fun c => c.types.map .ofTypeName

def cursors : Provider where
  kinds := .ofList [.cursors]
  items s := s.scopes.flatMap fun c => c.cursors.map .ofCursor

end Provider

/-- Providers by the name under which rules refer to them. -/
abbrev Providers := List (String × Provider)

namespace Providers

/-- The providers with one more; it replaces an earlier one of the same name. -/
def register (ps : Providers) (id : String) (p : Provider) : Providers :=
  ps.filter (·.1 != id) ++ [(id, p)]

def get? (ps : Providers) (id : String) : Option Provider := (ps.find? (·.1 == id)).map (·.2)

def ids (ps : Providers) : List String := ps.map (·.1)

/-- The providers that are always there. -/
def builtin : Providers :=
  [("variables", .vars), ("functions", .functions), ("constants", .constants),
   ("types", .types), ("cursors", .cursors)]

end Providers

end FourGL
