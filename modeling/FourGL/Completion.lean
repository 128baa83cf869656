import FourGL.Completion.InsertionPoint
import FourGL.Completion.Provider
import FourGL.Completion.Rule
import FourGL.Parse

/-!
# Completion

The candidates at a place of a text: those of the first possibility that the rules allow there, as
far as the request asks for their kind and their label begins with the word that is typed.
-/

namespace FourGL

/-- The item for a keyword or a mark; other tokens are not offered. -/
def Kind.item? : Kind → Option Item
  | .keyword k => some { label := k.text, kind := .keyword }
  | .mark m => some { label := m.text, kind := .operator }
  | _ => none

/-- A request for completions. -/
structure CompletionRequest where
  version : Version := .latest
  kinds : MemberKinds := .all

namespace CompletionRequest

/-- The keywords and marks that a possibility offers. -/
def tokenItems (r : CompletionRequest) (p : Possibility) : List Item :=
  if r.kinds.contains .keywords then
    (p.tokens.filter (·.version.availableIn r.version)).filterMap (·.kind.item?)
  else []

/-- What one provider contributes: nothing if it has no kind that both the rule and the request
allow, else all its items. -/
def providerItems (r : CompletionRequest) (providers : Providers) (s : Surroundings)
    (offer : ProviderOffer) : List Item :=
  if offer.version.availableIn r.version then
    match providers.get? offer.provider with
    | some p => if ((offer.kinds.inter r.kinds).inter p.kinds).isEmpty then [] else p.items s
    | none => []
  else []

/-- The items of a possibility: tokens first, then provider by provider. -/
def items (r : CompletionRequest) (providers : Providers) (s : Surroundings) (p : Possibility) :
    List Item :=
  r.tokenItems p ++ p.providers.flatMap (r.providerItems providers s)

/-- The candidates behind `trigger`, before which stand the kinds `backward`, the nearest first. -/
def resolve (r : CompletionRequest) (table : RuleTable) (providers : Providers) (trigger : Kind)
    (backward : List Kind) (s : Surroundings) : Candidates :=
  match (table.lookup trigger r.version).bind (·.possibility? backward r.version) with
  | some p => Candidates.empty.insertAll (r.items providers s p)
  | none => .empty

/-- The candidates behind the first `offset` characters of `text`. -/
def completeAt (r : CompletionRequest) (table : RuleTable) (providers : Providers) (text : String)
    (offset : Nat) : Candidates :=
  let point := InsertionPoint.ofText text offset
  let module := (parseModule text { version := r.version }).module
  (r.resolve table providers point.trigger point.backward
    ⟨module, point.wordStart⟩).startingWith point.word

end CompletionRequest

end FourGL
