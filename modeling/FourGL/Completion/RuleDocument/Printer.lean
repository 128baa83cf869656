import FourGL.Completion.RuleDocument
import FourGL.Json.Printer

/-!
# Writing rule documents

One possibility a line. What is left at its default is not written.
-/

namespace FourGL.RuleDocument

open Json (record text list)

/-- A field for a value that is there. -/
def textField (name : String) (value : Option String) : List (String × Json) :=
  (value.map fun v => (name, text v)).toList

/-- A field for a list that is not empty. -/
def listField (name : String) (f : α → Json) (items : List α) : List (String × Json) :=
  if items.isEmpty then [] else [(name, list f items)]

/-- A field for a flag that is not as usual. -/
def flagField (name : String) (usual value : Bool) : List (String × Json) :=
  if value == usual then [] else [(name, .bool value)]

def Token.toJson (t : Token) : Json :=
  record (("token", text t.token) :: textField "minVersion" t.minVersion)

def Provider.toJson (p : Provider) : Json :=
  record (("provider", text p.provider) ::
    (p.memberKinds.map fun names => ("memberKinds", list text names)).toList ++
      textField "minVersion" p.minVersion)

def Target.toJson (t : Target) : Json :=
  record (("token", text t.token) :: flagField "failIfMatch" false t.failIfMatch)

def SearchItem.toJson (s : SearchItem) : Json :=
  record (textField "token" s.token ++
    (s.ordered.map fun targets => ("ordered", list Target.toJson targets)).toList ++
      flagField "mustMatch" true s.mustMatch ++ textField "minVersion" s.minVersion)

def Possibility.toJson (p : Possibility) : Json :=
  record (textField "minVersion" p.minVersion ++
    listField "backwardSearch" SearchItem.toJson p.backwardSearch ++
      listField "singleTokens" Token.toJson p.singleTokens ++
        listField "setProviders" Provider.toJson p.setProviders)

/-- A field with a text, as it stands in a line. -/
def fieldText (name : String) (value : Option String) : List String :=
  (value.map fun v => (text name).spaced ++ ": " ++ (text v).spaced).toList

/-- Items a line each, with commas behind all but the last. -/
def lines (margin : String) (items : List String) : String :=
  ",".intercalate (items.map fun item => "\n" ++ margin ++ item)

def Entry.render (e : Entry) : String :=
  let possibilities :=
    if e.possibilities.isEmpty then []
    else ["\"possibilities\": [" ++ lines "      "
      (e.possibilities.map (·.toJson.spaced)) ++ "\n    ]"]
  "\x7b " ++ ", ".intercalate (fieldText "token" e.token ++ fieldText "category" e.category ++
    fieldText "minVersion" e.minVersion ++ possibilities) ++ " \x7d"

def render (d : RuleDocument) : String :=
  "\x7b\n  \"version\": " ++ (text d.version).spaced ++ ",\n  \"entries\": [" ++
    lines "    " (d.entries.map Entry.render) ++ "\n  ]\n\x7d\n"

end FourGL.RuleDocument
