import FourGL.Completion.RuleDocument.Printer

/-!
# The bundled rules

The rule document that is used where no other is given, and that replaces one of another version.
-/

namespace FourGL.Bundled

open RuleDocument

/-! ## What is offered -/

/-- Words that are offered in every version. -/
def words (names : List String) : List Token := names.map fun token => { token }

/-- A word that is offered from a version on. -/
def since (minVersion token : String) : Token := { token, minVersion := some minVersion }

/-- The words that statements begin with. -/
def statements : List Token :=
  words
    ["let", "call", "if", "while", "for", "foreach", "case", "display", "message", "error",
     "return", "exit", "continue", "prepare", "declare", "open", "close", "fetch", "execute",
     "initialize", "run", "sleep", "define", "constant", "whenever", "menu", "try"] ++
  [since "2.20" "type"]

/-- The words that types begin with. -/
def types : List Token :=
  words
    ["integer", "smallint", "bigint", "decimal", "float", "string", "char", "varchar", "date",
     "datetime"] ++
  [since "3.00" "boolean", { token := "record" }]

def providers (names : List String) : List Provider := names.map fun provider => { provider }

/-- What an expression may begin with. -/
def operands : List Provider := providers ["variables", "constants", "functions"]

/-! ## Where it is offered -/

/-- The token before the trigger is `token`. -/
def after (token : String) : SearchItem := { token := some token }

/-- The token before the trigger is not `token`. -/
def notAfter (token : String) : SearchItem := { token := some token, mustMatch := false }

/-- FETCH stands before the trigger, with neither INTO nor END in between. -/
def afterFetch : SearchItem where
  ordered := some [⟨"into", true⟩, ⟨"end", true⟩, ⟨"fetch", false⟩]

/-- The one possibility to offer these words anywhere. -/
def onlyWords (tokens : List Token) : List Possibility := [{ singleTokens := tokens }]

/-- The one possibility to offer what these providers have. -/
def only (setProviders : List Provider) : List Possibility := [{ setProviders }]

/-- The one possibility to offer cursors, behind FETCH. -/
def fetched : List Possibility :=
  [{ backwardSearch := [after "fetch"], setProviders := providers ["cursors"] }]

/-- What stands for a whole condition behind IF and WHILE. -/
def condition : Possibility where
  backwardSearch := [notAfter "end"]
  singleTokens := words ["not"]
  setProviders := operands

def on (token : String) (possibilities : List Possibility) : Entry :=
  { token := some token, possibilities }

def onSince (minVersion token : String) (possibilities : List Possibility) : Entry :=
  { token := some token, minVersion := some minVersion, possibilities }

def onCategory (category : String) (possibilities : List Possibility) : Entry :=
  { category := some category, possibilities }

/-! ## The document -/

/-- Members of a module, and statements behind what opens a block. -/
def openings : List Entry :=
  [on "eof" (onlyWords
     ([since "2.30" "import"] ++ words ["schema", "database", "globals", "define", "constant"] ++
       [since "2.20" "type"] ++ words ["main", "function", "public", "private"])),
   on "main"
     [{ backwardSearch := [notAfter "end"], singleTokens := statements },
      { singleTokens := words ["function", "public", "private"] }],
   on "then" (onlyWords statements),
   on "else" (onlyWords statements),
   on "otherwise" (onlyWords statements),
   onSince "2.10" "try" [{ backwardSearch := [notAfter "end"], singleTokens := statements }],
   onSince "2.10" "catch" (onlyWords statements)]

/-- Behind the words that name blocks. -/
def blocks : List Entry :=
  [on "end" (onlyWords (words
     ["if", "while", "for", "foreach", "case", "try", "menu", "function", "main", "globals",
      "record"])),
   on "exit" (onlyWords (words ["for", "while", "foreach", "menu", "case", "program"])),
   on "continue" (onlyWords (words ["for", "while", "foreach", "menu"])),
   on "if" [condition, { singleTokens := statements }],
   on "while" [condition, { backwardSearch := [after "end"], singleTokens := statements }],
   on "for"
     [{ backwardSearch := [after "cursor"], setProviders := providers ["cursors"] },
      { backwardSearch := [after "end"], singleTokens := statements },
      { backwardSearch := [notAfter "exit", notAfter "continue"]
        setProviders := providers ["variables"] }],
   on "foreach"
     [{ backwardSearch := [notAfter "end", notAfter "exit", notAfter "continue"]
        setProviders := [{ provider := "cursors", memberKinds := some ["cursors"] }] }],
   on "case"
     [{ backwardSearch := [notAfter "end"]
        singleTokens := words ["when"]
        setProviders := operands }],
   on "when" (only operands)]

/-- Inside of statements. -/
def statementParts : List Entry :=
  [on "let" (only (providers ["variables"])),
   on "initialize" (only (providers ["variables"])),
   on "call" (only (providers ["functions"])),
   on "returning" (only (providers ["variables"])),
   on "into" (only (providers ["variables"])),
   on "using" (only (providers ["variables", "constants"])),
   on "open" (only (providers ["cursors"])),
   on "close" (only (providers ["cursors"])),
   on "free" (only (providers ["cursors"])),
   on "execute" (only (providers ["cursors"])),
   on "fetch"
     [{ singleTokens := words ["next", "previous", "first", "last"]
        setProviders := providers ["cursors"] }],
   on "next" (fetched ++ onlyWords (words ["option"])),
   on "previous" fetched,
   on "first" fetched,
   on "last" fetched,
   on "show" (onlyWords (words ["option"])),
   on "hide" (onlyWords (words ["option"])),
   on "cursor" (onlyWords (words ["for", "from", "with"])),
   on "with" [{ backwardSearch := [after "cursor"], singleTokens := words ["hold"] }],
   on "whenever" (onlyWords (words ["error", "any", "not", "warning", "sqlerror"])),
   on "to" [{ backwardSearch := [notAfter "null"], setProviders := operands }],
   on "step" (only (providers ["variables", "constants"]))]

/-- Inside of declarations. -/
def declarationParts : List Entry :=
  [on "dynamic" (onlyWords (words ["array"])),
   on "array" (onlyWords (words ["of"])),
   on "of" [{ singleTokens := types, setProviders := providers ["types"] }],
   onSince "2.30" "import" (onlyWords (words ["fgl", "java"])),
   on "public" (onlyWords (declared ++ words ["function"])),
   on "private" (onlyWords (declared ++ words ["function"]))]
where
  /-- The words that declarations begin with. -/
  declared : List Token := words ["define", "constant"] ++ [since "2.20" "type"]

/-- Behind names and inside of expressions. -/
def names : List Entry :=
  [onCategory "identifier"
     [{ backwardSearch := [after "define"]
        singleTokens := types ++ words ["dynamic", "like"]
        setProviders := providers ["types"] },
      { backwardSearch := [after "let"], singleTokens := words ["="] },
      { backwardSearch := [after "declare"], singleTokens := words ["cursor", "scroll"] },
      { backwardSearch := [after "prepare"], singleTokens := words ["from"] },
      { backwardSearch := [afterFetch], singleTokens := words ["into"] },
      { backwardSearch := [after "for", notAfter "exit"], singleTokens := words ["="] }],
   onCategory "operator" (only operands),
   on "(" (only operands),
   on "," (only (providers ["variables", "constants"]))]

/-- The rules, by the places they are for. -/
def document : RuleDocument where
  version := "1.0"
  entries := openings ++ blocks ++ statementParts ++ declarationParts ++ names

/-- The bundled document as it is written. -/
def text : String := document.render

end FourGL.Bundled
