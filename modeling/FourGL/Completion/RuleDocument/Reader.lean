import FourGL.Completion.RuleDocument
import FourGL.Json.Reader
import FourGL.Json.Slot

/-!
# Reading rule documents

A document is JSON. Its records have no fields but their own, save that the version can be read
without regard to what else there is.
-/

namespace FourGL.RuleDocument

open Json (text? bool? listOf? slots?)

def Token.ofJson? (j : Json) : Option Token :=
  match slots? ["token", "minVersion"] .refused j with
  | some [token, minVersion] => do
    let token ← token.required text?
    let minVersion ← minVersion.optional text?
    some { token, minVersion }
  | _ => none

def Provider.ofJson? (j : Json) : Option Provider :=
  match slots? ["provider", "memberKinds", "minVersion"] .refused j with
  | some [provider, memberKinds, minVersion] => do
    let provider ← provider.required text?
    let memberKinds ← memberKinds.optional (listOf? text?)
    let minVersion ← minVersion.optional text?
    some { provider, memberKinds, minVersion }
  | _ => none

def Target.ofJson? (j : Json) : Option Target :=
  match slots? ["token", "failIfMatch"] .refused j with
  | some [token, failIfMatch] => do
    let token ← token.required text?
    let failIfMatch ← failIfMatch.orElse false bool?
    some { token, failIfMatch }
  | _ => none

def SearchItem.ofJson? (j : Json) : Option SearchItem :=
  match slots? ["token", "ordered", "mustMatch", "minVersion"] .refused j with
  | some [token, ordered, mustMatch, minVersion] => do
    let token ← token.optional text?
    let ordered ← ordered.optional (listOf? Target.ofJson?)
    let mustMatch ← mustMatch.orElse true bool?
    let minVersion ← minVersion.optional text?
    some { token, ordered, mustMatch, minVersion }
  | _ => none

def Possibility.ofJson? (j : Json) : Option Possibility :=
  match slots? ["minVersion", "singleTokens", "setProviders", "backwardSearch"] .refused j with
  | some [minVersion, singleTokens, setProviders, backwardSearch] => do
    let minVersion ← minVersion.optional text?
    let singleTokens ← singleTokens.orElse [] (listOf? Token.ofJson?)
    let setProviders ← setProviders.orElse [] (listOf? Provider.ofJson?)
    let backwardSearch ← backwardSearch.orElse [] (listOf? SearchItem.ofJson?)
    some { minVersion, singleTokens, setProviders, backwardSearch }
  | _ => none

def Entry.ofJson? (j : Json) : Option Entry :=
  match slots? ["token", "category", "minVersion", "possibilities"] .refused j with
  | some [token, category, minVersion, possibilities] => do
    let token ← token.optional text?
    let category ← category.optional text?
    let minVersion ← minVersion.optional text?
    let possibilities ← possibilities.orElse [] (listOf? Possibility.ofJson?)
    some { token, category, minVersion, possibilities }
  | _ => none

def ofJson? (j : Json) : Option RuleDocument :=
  match slots? ["version", "entries"] .refused j with
  | some [version, entries] => do
    let version ← version.required text?
    let entries ← entries.orElse [] (listOf? Entry.ofJson?)
    some { version, entries }
  | _ => none

/-- The document that `text` holds. -/
def ofText? (text : String) : Option RuleDocument := (Json.ofText? text).bind ofJson?

/-- The version alone, whatever else the document may hold. -/
def versionOfText? (text : String) : Option String := do
  let j ← Json.ofText? text
  match slots? ["version"] .ignored j with
  | some [version] => version.required text?
  | _ => none

end FourGL.RuleDocument
