import FourGL.Completion.Rule
import FourGL.Completion.RuleDocument

/-!
# Resolving rule documents

The names of a document are looked up one by one, and the first that is wrong makes the whole
document useless. The result is a table with an entry for each entry of the document.
-/

namespace FourGL

/-- The lists of a possibility. -/
inductive RulePart where
  | singleTokens | setProviders | backwardSearch
deriving DecidableEq

def RulePart.name : RulePart → String
  | singleTokens => "singleTokens"
  | setProviders => "setProviders"
  | backwardSearch => "backwardSearch"

/-- A place in a rule document: an entry, one of its possibilities, or an item of one of its
lists. -/
structure RulePlace where
  entry : Nat
  possibility : Option Nat := none
  item : Option (RulePart × Nat) := none
deriving DecidableEq

def RulePlace.render (p : RulePlace) : String :=
  let possibility := match p.possibility with
    | some i => s!".possibilities[{i}]"
    | none => ""
  let item := match p.item with
    | some (part, i) => s!".{part.name}[{i}]"
    | none => ""
  s!"entries[{p.entry}]" ++ possibility ++ item

/-- What may be wrong at a place of a rule document. -/
inductive RuleFault where
  | missingTrigger
  | ambiguousTrigger
  | unknownToken (name : String)
  | unknownCategory (name : String)
  | unknownProvider (name : String)
  | unknownMemberKind (name : String)
  | duplicateTrigger (trigger : Trigger)
  | invalidVersion (text : String)
  | invalidPattern
deriving DecidableEq

def RuleFault.message : RuleFault → String
  | missingTrigger => "entry must name a 'token' or a 'category'"
  | ambiguousTrigger => "entry names both a 'token' and a 'category'"
  | unknownToken name => s!"unknown token '{name}'"
  | unknownCategory name => s!"unknown token category '{name}'"
  | unknownProvider name => s!"unknown provider '{name}'"
  | unknownMemberKind name => s!"unknown member kind '{name}'"
  | duplicateTrigger trigger => s!"duplicate entry for {trigger.render}"
  | invalidVersion text => Version.complaint text
  | invalidPattern => "search item must have either a 'token' or a non-empty 'ordered' list"

namespace RuleDocument

/-- A fault at a place stops the resolution. -/
abbrev Resolution := Except (RulePlace × RuleFault)

namespace Resolution

def fail (place : RulePlace) (fault : RuleFault) : Resolution α := .error (place, fault)

/-- The value, or the fault where there is none. -/
def ofOption (place : RulePlace) (fault : RuleFault) : Option α → Resolution α
  | some a => .ok a
  | none => fail place fault

/-- Resolves the items of a list one after the other, each with its index. -/
def each (f : Nat → α → Resolution β) (as : List α) : Resolution (List β) :=
  as.zipIdx.mapM fun (a, i) => f i a

def kindOf (place : RulePlace) (name : String) : Resolution Kind :=
  ofOption place (.unknownToken name) (Kind.ofRuleName? name)

/-- Without a version, a rule is there from the baseline on. -/
def versionOf (place : RulePlace) : Option String → Resolution Version
  | none => .ok .baseline
  | some text => ofOption place (.invalidVersion text) (Version.ofText? text)

def kindsOf (place : RulePlace) : Option (List String) → Resolution MemberKinds
  | none => .ok .all
  | some names =>
    match MemberKinds.ofNames names with
    | .ok kinds => .ok kinds
    | .error name => fail place (.unknownMemberKind name)

end Resolution

open Resolution

def Token.resolve (place : RulePlace) (t : Token) : Resolution TokenOffer := do
  let kind ← kindOf place t.token
  let version ← versionOf place t.minVersion
  return { kind, version }

def Provider.resolve (isProvider : String → Bool) (place : RulePlace) (p : Provider) :
    Resolution ProviderOffer := do
  unless isProvider p.provider do fail place (.unknownProvider p.provider)
  let kinds ← kindsOf place p.memberKinds
  let version ← versionOf place p.minVersion
  return { provider := p.provider, kinds, version }

def SearchItem.pattern (place : RulePlace) (s : SearchItem) : Resolution Pattern :=
  match s.token, s.ordered with
  | some name, none => return .nearest (← kindOf place name)
  | none, some (t :: ts) =>
    return .ordered (← (t :: ts).mapM fun t =>
      return ⟨← kindOf place t.token, t.failIfMatch⟩)
  | _, _ => fail place .invalidPattern

def SearchItem.resolve (place : RulePlace) (s : SearchItem) : Resolution Condition := do
  let pattern ← s.pattern place
  let version ← versionOf place s.minVersion
  return { pattern, expected := s.mustMatch, version }

def Possibility.resolve (isProvider : String → Bool) (place : RulePlace) (p : Possibility) :
    Resolution FourGL.Possibility := do
  let version ← versionOf place p.minVersion
  let tokens ← each (fun i => Token.resolve { place with item := some (.singleTokens, i) })
    p.singleTokens
  let providers ← each
    (fun i => Provider.resolve isProvider { place with item := some (.setProviders, i) })
    p.setProviders
  let conditions ← each
    (fun i => SearchItem.resolve { place with item := some (.backwardSearch, i) })
    p.backwardSearch
  return { version, tokens, providers, conditions }

/-- An entry names a token or a category, and not both. -/
def Entry.trigger (place : RulePlace) (e : Entry) : Resolution Trigger :=
  match e.token, e.category with
  | some _, some _ => fail place .ambiguousTrigger
  | none, none => fail place .missingTrigger
  | some name, none => return .token (← kindOf place name)
  | none, some name =>
    return .category (← ofOption place (.unknownCategory name) (Category.ofName? name))

def Entry.resolve (isProvider : String → Bool) (place : RulePlace) (e : Entry) :
    Resolution FourGL.Entry := do
  let trigger ← e.trigger place
  let possibilities ← each
    (fun i => Possibility.resolve isProvider { place with possibility := some i }) e.possibilities
  let version ← versionOf place e.minVersion
  return { trigger, version, possibilities }

/-- Resolves an entry and adds it to a table, in which its trigger must be new. -/
def addEntry (isProvider : String → Bool) (table : RuleTable) (e : Entry × Nat) :
    Resolution RuleTable := do
  let place := { entry := e.2 }
  let entry ← e.1.resolve isProvider place
  ofOption place (.duplicateTrigger entry.trigger) (table.insert? entry)

/-- The table of a document whose providers are those that `isProvider` knows. -/
def resolve (isProvider : String → Bool) (d : RuleDocument) : Resolution RuleTable :=
  d.entries.zipIdx.foldlM (addEntry isProvider) (.empty d.version)

end RuleDocument

end FourGL
