import FourGL.Completion.MemberKind
import FourGL.Files
import FourGL.Json.Reader
import FourGL.Json.Slot
import FourGL.Parse

/-!
# Options

Options are read from a file and may be overridden one by one. Each has a default.
-/

namespace FourGL

/-- The options that are set; those left out have their defaults. -/
structure Options where
  languageVersion : Option Version := none
  /-- Whether blanks and comments are kept. -/
  verbatim : Option Bool := none
  /-- The file with the completion rules. -/
  rulesFile : Option String := none
  /-- The version that the completion rules must have. -/
  productVersion : Option String := none
  /-- Names of the kinds of members that completion offers. -/
  memberKinds : Option (List String) := none
deriving DecidableEq

inductive OptionsError where
  | unreadable (path : String)
  /-- The text is no JSON record of options; it stands in a file, or was given as it is. -/
  | malformed (path : Option String)
  | unknownMemberKind (name : String)
deriving DecidableEq

def OptionsError.message : OptionsError → String
  | unreadable path => s!"failed to read options file '{path}'"
  | malformed (some path) => s!"invalid options file '{path}'"
  | malformed none => "invalid options"
  | unknownMemberKind name => s!"unknown member kind '{name}' in 'memberKinds'"

namespace Options

def version (o : Options) : Version := o.languageVersion.getD .latest

def keepsTrivia (o : Options) : Bool := o.verbatim.getD false

def product (o : Options) : String := o.productVersion.getD "1.0"

/-- The kinds of members to offer, all if none are named. -/
def kinds (o : Options) : Except OptionsError MemberKinds :=
  match o.memberKinds with
  | none => .ok .all
  | some names => (MemberKinds.ofNames names).mapError .unknownMemberKind

/-- How to parse the text of a file. -/
def parsing (o : Options) (file : String) : ParseOptions where
  version := o.version
  verbatim := o.keepsTrivia
  file := some file

/-- The options with those set that `overrides` sets. -/
def merge (o overrides : Options) : Options where
  languageVersion := overrides.languageVersion.orElse fun _ => o.languageVersion
  verbatim := overrides.verbatim.orElse fun _ => o.verbatim
  rulesFile := overrides.rulesFile.orElse fun _ => o.rulesFile
  productVersion := overrides.productVersion.orElse fun _ => o.productVersion
  memberKinds := overrides.memberKinds.orElse fun _ => o.memberKinds

/-! ## Reading -/

open Json (text? bool? listOf? slots?)

def ofJson? (j : Json) : Option Options :=
  match slots?
    ["languageVersion", "verbatim", "rulesFile", "productVersion", "memberKinds"] .refused j with
  | some [languageVersion, verbatim, rulesFile, productVersion, memberKinds] => do
    let languageVersion ← languageVersion.optional fun v => (text? v).bind Version.ofText?
    let verbatim ← verbatim.optional bool?
    let rulesFile ← rulesFile.optional text?
    let productVersion ← productVersion.optional text?
    let memberKinds ← memberKinds.optional (listOf? text?)
    some { languageVersion, verbatim, rulesFile, productVersion, memberKinds }
  | _ => none

/-- The options that a text holds. All kinds of members must be known. -/
def ofText (text : String) : Except OptionsError Options :=
  match (Json.ofText? text).bind ofJson? with
  | none => .error (.malformed none)
  | some o => o.kinds.map fun _ => o

/-- The options in the text of a file. The path of the rules starts from the file's directory. -/
def ofFileText (path text : String) : Except OptionsError Options :=
  match ofText text with
  | .error (.malformed _) => .error (.malformed (some path))
  | .error e => .error e
  | .ok o => .ok { o with rulesFile := o.rulesFile.map (Path.join ((Path.parent? path).getD "")) }

/-- The name of the options file that is looked for. -/
def fileName : String := "fglconfig.json"

section
variable [Monad m]

/-- The options file in `dir` or in the nearest directory around it. -/
def find (fs : FileSystem m) (dir : String) : m (Option String) :=
  ((Path.ancestors dir).map (Path.join · fileName)).findM? fs.isFile

/-- The options in a file. -/
def ofFile (fs : FileSystem m) (path : String) : m (Except OptionsError Options) := do
  match ← fs.read path with
  | none => return .error (.unreadable path)
  | some text => return ofFileText path text

/-- The options in `chosen` if a file is chosen, else in the file found from `dir`, else the
defaults; with the file that they are from. -/
def load (fs : FileSystem m) (chosen : Option String) (dir : String) :
    m (Except OptionsError (Options × Option String)) := do
  let path ← match chosen with
    | some path => pure (some path)
    | none => find fs dir
  match path with
  | none => return .ok ({}, none)
  | some path => return (← ofFile fs path).map fun o => (o, some path)

end

end Options

end FourGL
