import FourGL.Version

/-!
# Arguments

The words of a command line are read one after the other. What comes first decides: a word that is
wrong ends the reading, and so does a switch that asks for help or for the version of the program.
-/

namespace FourGL.CommandLine

/-- What the program is told to do. -/
inductive Action where
  | parse | check | tokens | complete
deriving DecidableEq

namespace Action

def name : Action → String
  | parse => "parse"
  | check => "check"
  | tokens => "tokens"
  | complete => "complete"

def all : List Action := [parse, check, tokens, complete]

def ofName? (name : String) : Option Action := all.find? (·.name == name)

end Action

inductive Switch where
  | project | languageVersion | json | verbatim | snippet | offset | line | column | kinds | rules
  | help | version
deriving DecidableEq

namespace Switch

def name : Switch → String
  | project => "project"
  | languageVersion => "language-version"
  | json => "json"
  | verbatim => "verbatim"
  | snippet => "snippet"
  | offset => "offset"
  | line => "line"
  | column => "column"
  | kinds => "kinds"
  | rules => "rules"
  | help => "help"
  | version => "version"

/-- The letter that stands for the switch behind a single hyphen. -/
def letter? : Switch → Option Char
  | project => some 'p'
  | help => some 'h'
  | version => some 'V'
  | _ => none

def takesValue : Switch → Bool
  | project | languageVersion | offset | line | column | kinds | rules => true
  | _ => false

/-- The switches that may stand before the action or behind it. -/
def common : List Switch := [project, languageVersion, json, help]

/-- The switches that may stand behind the action, or before any. -/
def allowed : Option Action → List Switch
  | none => version :: common
  | some .parse => verbatim :: snippet :: common
  | some .check => common
  | some .tokens => verbatim :: common
  | some .complete => [offset, line, column, kinds, rules] ++ common

end Switch

inductive UsageError where
  | unknown (word : String)
  | missingValue (switch : Switch)
  | unexpectedValue (switch : Switch)
  | invalidValue (value : String)
  | repeated (switch : Switch)
  | missingAction
  | missingFile
  | missingPosition
deriving DecidableEq

def UsageError.message : UsageError → String
  | unknown word => s!"unexpected argument '{word}'"
  | missingValue switch => s!"a value is required for '--{switch.name}'"
  | unexpectedValue switch => s!"no value is expected for '--{switch.name}'"
  | invalidValue value => s!"invalid value '{value}'"
  | repeated switch => s!"'--{switch.name}' cannot be used multiple times"
  | missingAction => "a command is required"
  | missingFile => "a file is required"
  | missingPosition => "a cursor position is required: --offset or --line and --column"

/-- Why the program does nothing but answer. -/
inductive Halt where
  | usage (e : UsageError)
  | help
  | version
deriving DecidableEq

/-! ## Values -/

/-- The largest position that can be asked for. -/
def maxPosition : Nat := 4294967295

/-- A number with or without a sign; below zero there is none. -/
def position? (text : String) : Option Nat :=
  let (isNegative, digits) := match text.toList with
    | '+' :: cs => (false, cs)
    | '-' :: cs => (true, cs)
    | cs => (false, cs)
  (Version.digitsValue? digits).bind fun n =>
    if n ≤ maxPosition && !(isNegative && n != 0) then some n else none

/-- The pieces between commas. -/
def commaSeparated : List Char → List (List Char)
  | [] => [[]]
  | c :: cs =>
    if c = ',' then [] :: commaSeparated cs
    else match commaSeparated cs with
      | s :: ss => (c :: s) :: ss
      | [] => [[c]]

/-- What the switches and words of a command line say. -/
structure Settings where
  project : Option String := none
  languageVersion : Option Version := none
  json : Bool := false
  verbatim : Bool := false
  snippet : Bool := false
  offset : Option Nat := none
  line : Option Nat := none
  column : Option Nat := none
  kinds : List String := []
  rules : Option String := none
  files : List String := []

namespace Settings

/-- Puts a value in an empty place. -/
def fill (switch : Switch) (place : Option α) (value : String) (read : String → Option α) :
    Except Halt (Option α) :=
  match place, read value with
  | some _, _ => .error (.usage (.repeated switch))
  | none, none => .error (.usage (.invalidValue value))
  | none, some a => .ok (some a)

/-- A path has at least one character. -/
def path? (text : String) : Option String := if text.isEmpty then none else some text

/-- The settings with the value of a switch. -/
def withValue (s : Settings) (switch : Switch) (value : String) : Except Halt Settings :=
  match switch with
  | .project => return { s with project := ← fill switch s.project value path? }
  | .languageVersion =>
    return { s with languageVersion := ← fill switch s.languageVersion value Version.ofText? }
  | .offset => return { s with offset := ← fill switch s.offset value position? }
  | .line => return { s with line := ← fill switch s.line value position? }
  | .column => return { s with column := ← fill switch s.column value position? }
  | .rules => return { s with rules := ← fill switch s.rules value path? }
  | .kinds =>
    return { s with kinds := s.kinds ++ (commaSeparated value.toList).map String.ofList }
  | _ => .error (.usage (.unexpectedValue switch))

/-- The settings with a switch that takes no value. -/
def withFlag (s : Settings) (switch : Switch) : Except Halt Settings :=
  let once (isSet : Bool) (s : Settings) : Except Halt Settings :=
    if isSet then .error (.usage (.repeated switch)) else .ok s
  match switch with
  | .json => once s.json { s with json := true }
  | .verbatim => once s.verbatim { s with verbatim := true }
  | .snippet => once s.snippet { s with snippet := true }
  | .help => .error .help
  | .version => .error .version
  | _ => .error (.usage (.missingValue switch))

/-- The settings with one more file; only the action `check` takes several. -/
def withFile (s : Settings) (action : Action) (file : String) : Except Halt Settings :=
  if file.isEmpty then .error (.usage (.invalidValue file))
  else if action ≠ .check ∧ s.files ≠ [] then .error (.usage (.unknown file))
  else .ok { s with files := s.files ++ [file] }

end Settings

/-! ## Words -/

/-- What the word `help` asks for. -/
inductive HelpRequest where
  | general
  /-- Help on an action, or on help itself. -/
  | on (topic : String)

namespace HelpRequest

def topics : List String := Action.all.map Action.name ++ ["help"]

/-- Reads the word behind `help`: one topic at most. -/
def step (h : HelpRequest) (word : String) : Except Halt HelpRequest :=
  match h with
  | general => if topics.contains word then .ok (.on word) else .error (.usage (.unknown word))
  | on _ => .error (.usage (.unknown word))

end HelpRequest

/-- How far a command line has been read. -/
structure Reading where
  action : Option Action := none
  /-- What stands before the action. -/
  before : Settings := {}
  /-- What stands behind it. -/
  behind : Settings := {}
  /-- A switch whose value comes next. -/
  pending : Option Switch := none
  /-- Whether no more switches follow. -/
  noSwitches : Bool := false
  /-- What help is asked for; everything behind it belongs to the request. -/
  help : Option HelpRequest := none

namespace Reading

/-- Changes the settings on this side of the action. -/
def update (r : Reading) (f : Settings → Except Halt Settings) : Except Halt Reading :=
  if r.action.isNone then return { r with before := ← f r.before }
  else return { r with behind := ← f r.behind }

/-- Reads a switch, with the value that is attached to it. -/
def readSwitch (r : Reading) (word : String) (switch : Option Switch) (value : Option String) :
    Except Halt Reading :=
  match switch with
  | none => .error (.usage (.unknown word))
  | some switch =>
    if switch.takesValue then
      match value with
      | some value => r.update (·.withValue switch value)
      | none => .ok { r with pending := some switch }
    else if value.isSome then .error (.usage (.unexpectedValue switch))
    else r.update (·.withFlag switch)

/-- Reads a switch by its name, behind two hyphens. A value may follow an equals sign. -/
def readLong (r : Reading) (word : String) (cs : List Char) : Except Halt Reading :=
  let name := String.ofList (cs.takeWhile (· != '='))
  let value := match cs.dropWhile (· != '=') with
    | _ :: value => some (String.ofList value)
    | [] => none
  r.readSwitch word ((Switch.allowed r.action).find? (·.name == name)) value

/-- Reads a switch by its letter, behind one hyphen. A value may follow at once, or an equals sign
between them. -/
def readShort (r : Reading) (word : String) (letter : Char) (cs : List Char) :
    Except Halt Reading :=
  match (Switch.allowed r.action).find? (·.letter? == some letter) with
  | some switch =>
    let value := match cs with
      | [] => none
      | '=' :: value => some (String.ofList value)
      | value => some (String.ofList value)
    r.readSwitch word switch (if switch.takesValue then value else none)
  | none => .error (.usage (.unknown word))

/-- Reads a word that is no switch: the action, or a file. -/
def readOperand (r : Reading) (word : String) : Except Halt Reading :=
  match r.action with
  | some action => r.update (·.withFile action word)
  | none =>
    if r.noSwitches then .error (.usage (.unknown word))
    else match Action.ofName? word with
      | some action => .ok { r with action }
      | none =>
        if word == "help" then .ok { r with help := some .general }
        else .error (.usage (.unknown word))

/-- Reads one word. A hyphen alone is an ordinary word; two of them end the switches. -/
def step (r : Reading) (word : String) : Except Halt Reading :=
  match r.help with
  | some request => return { r with help := some (← request.step word) }
  | none =>
    if r.noSwitches then r.readOperand word
    else match r.pending, word.toList with
      | some switch, '-' :: _ :: _ => .error (.usage (.missingValue switch))
      | some switch, _ => { r with pending := none }.update (·.withValue switch word)
      | none, ['-', '-'] => .ok { r with noSwitches := true }
      | none, '-' :: '-' :: cs => r.readLong word cs
      | none, '-' :: c :: cs => r.readShort word c cs
      | none, _ => r.readOperand word

end Reading

/-! ## Commands -/

inductive Position where
  | offset (n : Nat)
  /-- Counted from one. -/
  | lineColumn (line column : Nat)
deriving DecidableEq

inductive Command where
  | parse (file : String) (verbatim snippet : Bool)
  | check (files : List String)
  | tokens (file : String) (verbatim : Bool)
  | complete (file : String) (position : Position) (kinds : List String) (rules : Option String)

structure Invocation where
  project : Option String
  languageVersion : Option Version
  json : Bool
  command : Command

namespace Settings

/-- A position is an offset, or a line and a column, and not both. -/
def position (s : Settings) : Except Halt Position :=
  match s.offset, s.line, s.column with
  | some n, none, none => .ok (.offset n)
  | none, some line, some column => .ok (.lineColumn line column)
  | _, _, _ => .error (.usage .missingPosition)

def command (s : Settings) (action : Action) : Except Halt Command :=
  match s.files with
  | [] => .error (.usage .missingFile)
  | file :: _ =>
    match action with
    | .parse => .ok (.parse file s.verbatim s.snippet)
    | .check => .ok (.check s.files)
    | .tokens => .ok (.tokens file s.verbatim)
    | .complete => return .complete file (← s.position) s.kinds s.rules

end Settings

/-- What a command line that has been read to its end asks for. A switch behind the action counts
for more than the same switch before it. -/
def Reading.finish (r : Reading) : Except Halt Invocation :=
  match r.help, r.pending, r.action with
  | some _, _, _ => .error .help
  | none, some switch, _ => .error (.usage (.missingValue switch))
  | none, none, none => .error (.usage .missingAction)
  | none, none, some action => do
    let command ← r.behind.command action
    return {
      project := r.behind.project.orElse fun _ => r.before.project
      languageVersion := r.behind.languageVersion.orElse fun _ => r.before.languageVersion
      json := r.behind.json || r.before.json
      command }

/-- Reads the words of a command line. -/
def Invocation.ofWords (words : List String) : Except Halt Invocation := do
  (← words.foldlM Reading.step {}).finish

end FourGL.CommandLine
