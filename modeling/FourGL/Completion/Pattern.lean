import FourGL.Token.Kind

/-!
# Patterns of earlier tokens

A pattern is looked for among the kinds of the tokens before a place, the nearest first.
-/

namespace FourGL

/-- A kind to be met. Meeting a guard makes the search fail. -/
structure Target where
  kind : Kind
  isGuard : Bool := false
deriving DecidableEq

inductive Pattern where
  /-- The nearest token has this kind. -/
  | nearest (kind : Kind)
  /-- The required targets are met one after the other, with other tokens between them. A guard is
  on watch from the required target before it up to the one behind it. -/
  | ordered (targets : List Target)
deriving DecidableEq

namespace Pattern

/-- Meets the required ones of `targets` in their order and no guard on the way. -/
def meets : List Target → List Kind → Bool
  | targets, [] => targets.all (·.isGuard)
  | targets, kind :: kinds =>
    if (targets.takeWhile (·.isGuard)).any (·.kind == kind) then false
    else match targets.dropWhile (·.isGuard) with
      | [] => meets targets kinds
      | required :: rest => if required.kind == kind then meets rest kinds else meets targets kinds

def found : Pattern → List Kind → Bool
  | nearest kind, kinds => kinds.head? == some kind
  | ordered targets, kinds => meets targets kinds

end Pattern

end FourGL
