import FourGL.CommandLine.Arguments
import FourGL.Completion
import FourGL.Completion.Registry
import FourGL.Json.Printer
import FourGL.Options
import FourGL.Text.LineMap
import FourGL.Text.Quoted
import FourGL.Tree.Encoding

/-!
# The command line

Four commands: the tree of a file, the diagnostics of files, the tokens of a file and the candidates
at a place of a file. Each reads the files it needs and ends with an exit code and an output.
-/

namespace FourGL

/-- What a run of the program ends with. -/
structure Outcome where
  exitCode : Nat := 0
  output : String := ""
  /-- What is said beside the output, a line each. -/
  remarks : List String := []
  /-- A last line beside the output that sums up. -/
  summary : Option String := none

namespace Outcome

def failure (message : String) : Outcome where
  exitCode := 1
  remarks := ["Error: " ++ message]

end Outcome

namespace CommandLine

def lines (ls : List String) : String := String.join (ls.map (· ++ "\n"))

/-- JSON as it is put out. -/
def jsonOutput (j : Json) : String := j.pretty ++ "\n"

/-- A failure that the diagnostics call for. -/
def exitCode (ds : List Diagnostic) : Nat := if ds.any Diagnostic.isError then 1 else 0

def unreadable (file : String) : String := s!"failed to read '{file}'"

end CommandLine

open CommandLine

def Diagnostic.toJson (d : Diagnostic) : Json :=
  .record
    [("file", .ofOption .text d.file), ("span", .ofOption Span.toJson d.span),
     ("message", .text d.message), ("code", .nat d.code), ("severity", .text d.severity.name)]

namespace CommandLine

/-! ## Trees -/

/-- The place of an offset, counted from one. -/
def placeText (m : LineMap) (pos : Nat) : String :=
  let p := m.lineColumnOf (.ofNat pos)
  s!"{p.line.toNat + 1}:{p.column.toNat + 1}"

mutual

/-- A line for each node, indented by its depth, with the places where it starts and ends. -/
def outline (m : LineMap) (depth : Nat) : Node → List String
  | ⟨extent, kind, children⟩ =>
    (String.ofList (List.replicate (2 * depth) ' ') ++ kind.name ++ " " ++
      placeText m extent.start ++ "-" ++ placeText m extent.stop ++
      (if extent.isComplete then "" else " (incomplete)")) :: outlines m (depth + 1) children

def outlines (m : LineMap) (depth : Nat) : List Node → List String
  | [] => []
  | n :: ns => outline m depth n ++ outlines m depth ns

end

/-- The output for trees and the diagnostics found with them. -/
def treeOutcome (json : Bool) (text : String) (nodes : List Node) (fields : List (String × Json))
    (ds : List Diagnostic) : Outcome where
  exitCode := exitCode ds
  output :=
    if json then
      jsonOutput (Json.sortKeys (.record (("diagnostics", .list (·.toJson) ds) :: fields)))
    else lines (outlines (.ofText text) 0 nodes)
  remarks := if json then [] else ds.map Diagnostic.render

/-- The tree of a module, or of statements that stand alone. -/
def parse (o : Options) (json snippet : Bool) (file text : String) : Outcome :=
  if snippet then
    let r := parseStatements text (o.parsing file)
    treeOutcome json text r.statements
      [("statements", .list (·.toJson) r.statements)] r.diagnostics
  else
    let r := parseModule text (o.parsing file)
    treeOutcome json text [r.module]
      [("module", r.module.toJson), ("trivia", .nat r.trivia.length)] r.diagnostics

/-! ## Diagnostics -/

/-- What is found in a file: its diagnostics, or none if it cannot be read. -/
structure FileReport where
  file : String
  diagnostics : Option (List Diagnostic)

namespace FileReport

def of (o : Options) (file : String) (text : Option String) : FileReport where
  file
  diagnostics := text.map fun text => (parseModule text (o.parsing file)).diagnostics

/-- The diagnostics of the file, as far as they are known. -/
def known (r : FileReport) : List Diagnostic := r.diagnostics.getD []

/-- Whether the file cannot be read or has errors. -/
def isFailure (r : FileReport) : Bool :=
  match r.diagnostics with
  | some ds => ds.any Diagnostic.isError
  | none => true

def toJson (r : FileReport) : Json :=
  .record (("file", .text r.file) ::
    (if r.diagnostics.isNone then [("error", .text (unreadable r.file))] else []) ++
      [("diagnostics", .list (·.toJson) r.known)])

def remarks (r : FileReport) : List String :=
  match r.diagnostics with
  | some ds => ds.map Diagnostic.render
  | none => ["Error: " ++ unreadable r.file]

end FileReport

/-- A number of things, with the ending of the plural unless it is one. -/
def counted (n : Nat) (thing : String) : String := s!"{n} {thing}" ++ if n = 1 then "" else "s"

def summary (reports : List FileReport) : String :=
  "Checked " ++ counted reports.length "file" ++ ": " ++
    counted (Diagnostic.errorCount (reports.flatMap (·.known))) "error" ++ " in " ++
    counted (reports.countP (·.isFailure)) "file" ++ "."

def check (json : Bool) (reports : List FileReport) : Outcome where
  exitCode := if reports.any (·.isFailure) then 1 else 0
  output := if json then jsonOutput (.list (·.toJson) reports) else ""
  remarks := if json then [] else reports.flatMap (·.remarks)
  summary := if json then none else some (summary reports)

/-! ## Tokens -/

def tokenJson (t : Token) : Json :=
  .record
    [("kind", .text t.kind.text), ("category", .text t.category.name), ("start", .nat t.start),
     ("end", .nat t.stop), ("text", .text t.text)]

def tokenLine (m : LineMap) (t : Token) : String :=
  placeText m t.start ++ "\t" ++ t.category.name ++ "\t" ++ quoted t.text

def tokens (json verbatim : Bool) (file text : String) : Outcome :=
  let mode : ScanMode := if verbatim then .verbatim else .default
  let ts := FourGL.tokens mode text
  let ds := scanIssues mode text
  { exitCode := exitCode ds
    output :=
      if json then jsonOutput (.list tokenJson ts) else lines (ts.map (tokenLine (.ofText text)))
    remarks := if json then [] else ds.map fun d => (d.inFile file).render }

/-! ## Candidates -/

def Position.offsetIn (text : String) : Position → Nat
  | .offset n => n
  | .lineColumn line column =>
    ((LineMap.ofText text).offsetOf ⟨.ofNat (line - 1), .ofNat (column - 1)⟩).toNat

def itemJson (a : Item) : Json :=
  .record ([("label", .text a.label), ("kind", .text a.kind.name)] ++
    (a.detail.map fun d => ("detail", .text d)).toList)

def itemLine (a : Item) : String :=
  "\t".intercalate ([a.label, a.kind.name.capitalize] ++ a.detail.toList)

def candidates (json : Bool) (c : Candidates) : Outcome where
  output := if json then jsonOutput (.list itemJson c.items) else lines (c.items.map itemLine)

section
variable [Monad m] (fs : FileSystem m)

/-- The rules to use: those in a file if the options name one, else the bundled ones. A file with
rules of another version is overwritten. -/
def loadRules (o : Options) : m (Except RuleError RuleTable) := do
  let source ← match o.rulesFile with
    | none => pure RuleSource.bundled
    | some path => pure (RuleSource.file path (← fs.read path))
  let (result, registry) := RuleRegistry.reload { source, product := o.product }
  if registry.source ≠ source then
    match registry.source with
    | .file path (some content) => fs.write path content
    | _ => pure ()
  return result.map fun _ => registry.table

/-- The candidates at an offset of a text. -/
def completions (o : Options) (json : Bool) (text : String) (offset : Nat) : m Outcome := do
  match o.kinds with
  | .error e => return .failure e.message
  | .ok kinds =>
    match ← loadRules fs o with
    | .error _ => return .failure "failed to load completion rules"
    | .ok table =>
      let request : CompletionRequest := { version := o.version, kinds }
      return candidates json (request.completeAt table .builtin text offset)

/-- Goes on with the text of a file, which has to be there. -/
def withText (file : String) (f : String → m Outcome) : m Outcome := do
  match ← fs.read file with
  | some text => f text
  | none => return .failure (unreadable file)

/-- Carries out a command. -/
def Command.run (o : Options) (json : Bool) : Command → m Outcome
  | .parse file verbatim snippet =>
    withText fs file fun text =>
      return FourGL.CommandLine.parse (if verbatim then { o with verbatim := some true } else o)
        json snippet file text
  | .check files => do
    let reports ← files.mapM fun file => return FileReport.of o file (← fs.read file)
    return FourGL.CommandLine.check json reports
  | .tokens file verbatim =>
    withText fs file fun text => return FourGL.CommandLine.tokens json verbatim file text
  | .complete file position kinds rules =>
    let o := if kinds.isEmpty then o else { o with memberKinds := some kinds }
    let o := if rules.isNone then o else { o with rulesFile := rules }
    withText fs file fun text => completions fs o json text (position.offsetIn text)

end

/-- How the program is called. -/
def usage : List String :=
  ["fglc - parse, check and complete 4GL sources", "",
   "Usage: fglc [OPTIONS] <COMMAND>", "",
   "Commands:",
   "  parse <FILE> [--verbatim] [--snippet]",
   "  check <FILE>...",
   "  tokens <FILE> [--verbatim]",
   "  complete <FILE> (--offset N | --line L --column C) [--kinds K,...] [--rules FILE]", "",
   "Options:",
   "  -p, --project <FILE>",
   "      --language-version <VERSION>",
   "      --json",
   "  -h, --help",
   "  -V, --version"]

/-- Runs the program with the words of a command line in the directory `dir`. -/
def run [Monad m] (fs : FileSystem m) (dir : String) (words : List String) : m Outcome := do
  match Invocation.ofWords words with
  | .error (.usage e) => return { exitCode := 2, remarks := ["error: " ++ e.message] }
  | .error .help => return { output := lines usage }
  | .error .version => return { output := lines ["fglc 0.1.0"] }
  | .ok i =>
    match ← Options.load fs i.project dir with
    | .error e => return .failure e.message
    | .ok (o, _) => i.command.run fs (o.merge { languageVersion := i.languageVersion }) i.json

end CommandLine

end FourGL
