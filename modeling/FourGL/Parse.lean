import FourGL.Grammar.Member

/-!
# Parsing whole texts

A module, or statements that stand alone. Parsing always yields a tree; what is wrong with the text
is told by the diagnostics.
-/

namespace FourGL

structure ParseOptions where
  version : Version := .latest
  /-- Keep blanks and comments as trivia. -/
  verbatim : Bool := false
  /-- The file that diagnostics name. -/
  file : Option String := none

def ParseOptions.mode (o : ParseOptions) : ScanMode := if o.verbatim then .verbatim else .default

/-- Diagnostics in the file that the options name. -/
def ParseOptions.placed (o : ParseOptions) (ds : List Diagnostic) : List Diagnostic :=
  match o.file with
  | some file => ds.map (·.inFile file)
  | none => ds

namespace Parser

/-- Reads all members of a module and then the end of the text. -/
def moduleNode (version : Version) : Parser Node := do
  let (children, _) ← bodyAt maxNesting (.root version)
    { productions := Production.members, unexpected := .unexpectedMember }
  let _ ← next
  let names ← getNames
  let length ← ask (·.input.length)
  let isComplete := (← errorCount) == 0
  return ⟨⟨0, length, 0, isComplete⟩,
    .module names.module.scope names.globals names.functions names.imports, children⟩

/-- Reads statements up to the end of the text. -/
def snippet (version : Version) : Parser (List Node) := do
  return (← bodyAt maxNesting (.snippet version) {}).1

end Parser

structure ModuleResult where
  module : Node
  diagnostics : List Diagnostic
  trivia : List Token

structure SnippetResult where
  statements : List Node
  diagnostics : List Diagnostic
  trivia : List Token
  /-- What the statements declare. -/
  scope : Scope

/-- Parses a module. -/
def parseModule (text : String) (options : ParseOptions) : ModuleResult :=
  let (module, s) := (Parser.moduleNode options.version).run (.ofText options.mode text)
  { module, diagnostics := options.placed s.diagnostics, trivia := s.input.trivia }

/-- Parses statements as they stand in a function. -/
def parseStatements (text : String) (options : ParseOptions) : SnippetResult :=
  let (statements, s) := (Parser.snippet options.version).run (.ofText options.mode text)
  { statements
    diagnostics := options.placed s.diagnostics
    trivia := s.input.trivia
    scope := s.names.snippet.scope }

end FourGL
