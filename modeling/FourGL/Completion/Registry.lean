import FourGL.Completion.Bundled
import FourGL.Completion.Provider
import FourGL.Completion.RuleDocument.Reader
import FourGL.Completion.RuleDocument.Resolution

/-!
# Keeping the rules up to date

A registry holds the table that is in use and the source of the document that it was made from.
Reloading either publishes the table of a whole document or leaves the table in use alone. A
document of another version than the product expects is replaced, in its source, by the bundled one.
-/

namespace FourGL

/-- Why a rule document cannot be used. -/
inductive RuleError where
  | unreadable (path : String)
  | malformed
  | invalid (place : RulePlace) (fault : RuleFault)
  | versionMismatch (expected found : String)
deriving DecidableEq

def RuleError.message : RuleError → String
  | unreadable path => s!"failed to access rule document '{path}'"
  | malformed => "malformed rule document"
  | invalid place fault => s!"{place.render}: {fault.message}"
  | versionMismatch expected found =>
    s!"rule document version '{found}' does not match the expected version '{expected}'"

/-- The table of the document that `text` holds. -/
def RuleTable.ofText (isProvider : String → Bool) (text : String) : Except RuleError RuleTable :=
  match RuleDocument.ofText? text with
  | none => .error .malformed
  | some d => (d.resolve isProvider).mapError fun (place, fault) => .invalid place fault

/-- Where a rule document is kept: in memory, or in a file that may not be there. -/
inductive RuleSource where
  | memory (text : String)
  | file (path : String) (content : Option String)
deriving DecidableEq

namespace RuleSource

def bundled : RuleSource := .memory Bundled.text

def load : RuleSource → Except RuleError String
  | memory text => .ok text
  | file _ (some content) => .ok content
  | file path none => .error (.unreadable path)

/-- The source with another document. -/
def set (text : String) : RuleSource → RuleSource
  | memory _ => memory text
  | file path _ => file path (some text)

/-- The source with the bundled document. -/
def restore (s : RuleSource) : RuleSource := s.set Bundled.text

def describe : RuleSource → String
  | memory _ => "memory"
  | file path _ => path

end RuleSource

structure RuleRegistry where
  source : RuleSource := .bundled
  /-- The version of documents that can be used. -/
  product : String := "1.0"
  /-- The providers that documents may name. -/
  providers : List String := Providers.builtin.ids
  table : RuleTable := .empty ""
  /-- How many tables have been published. -/
  generation : Nat := 0

namespace RuleRegistry

/-- The table of a source's document, which must have the expected version. -/
def tableOf (r : RuleRegistry) (source : RuleSource) : Except RuleError RuleTable := do
  let text ← source.load
  match RuleDocument.versionOfText? text with
  | none => .error .malformed
  | some found =>
    if found = r.product then RuleTable.ofText r.providers.contains text
    else .error (.versionMismatch r.product found)

/-- The registry with another table in use. -/
def publish (r : RuleRegistry) (table : RuleTable) : RuleRegistry :=
  { r with table, generation := r.generation + 1 }

/-- Publishes the table of the source's document, or of the bundled one if the version is wrong. -/
def reload (r : RuleRegistry) : Except RuleError Nat × RuleRegistry :=
  let (table, source) := match r.tableOf r.source with
    | .error (.versionMismatch ..) => (r.tableOf r.source.restore, r.source.restore)
    | result => (result, r.source)
  match table with
  | .ok table => (.ok table.size, { r with source }.publish table)
  | .error e => (.error e, { r with source })

end RuleRegistry

end FourGL
