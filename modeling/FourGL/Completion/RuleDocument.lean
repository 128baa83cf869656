/-!
# Rule documents

What a rule document says, word by word: tokens, categories, providers and versions are still names.
-/

namespace FourGL

namespace RuleDocument

structure Token where
  token : String
  minVersion : Option String := none
deriving DecidableEq

structure Provider where
  provider : String
  memberKinds : Option (List String) := none
  minVersion : Option String := none
deriving DecidableEq

structure Target where
  token : String
  failIfMatch : Bool := false
deriving DecidableEq

structure SearchItem where
  token : Option String := none
  ordered : Option (List Target) := none
  mustMatch : Bool := true
  minVersion : Option String := none
deriving DecidableEq

structure Possibility where
  minVersion : Option String := none
  singleTokens : List Token := []
  setProviders : List Provider := []
  backwardSearch : List SearchItem := []
deriving DecidableEq

structure Entry where
  token : Option String := none
  category : Option String := none
  minVersion : Option String := none
  possibilities : List Possibility := []
deriving DecidableEq

end RuleDocument

structure RuleDocument where
  version : String
  entries : List RuleDocument.Entry := []
deriving DecidableEq

end FourGL
