import FourGL.Completion.MemberKind
import FourGL.Completion.Pattern
import FourGL.Version

/-!
# Completion rules

A table has an entry for each trigger, the token before the word that is typed. An entry lists
possibilities; the first one whose conditions hold says what is offered.
-/

namespace FourGL

inductive Trigger where
  | token (kind : Kind)
  | category (category : Category)
deriving DecidableEq

namespace Trigger

def render : Trigger → String
  | token kind => s!"token '{kind.text}'"
  | category c => s!"category '{c.name}'"

/-- Tokens in the order of kinds, then categories in theirs. -/
def all : List Trigger := Kind.all.map token ++ Category.all.map category

end Trigger

/-- A keyword or mark offered as it is. -/
structure TokenOffer where
  kind : Kind
  version : Version := .baseline

/-- A provider whose candidates are offered, as far as they are of the given kinds. -/
structure ProviderOffer where
  provider : String
  kinds : MemberKinds := .all
  version : Version := .baseline

/-- A pattern that has to be found before the trigger, or must not be. -/
structure Condition where
  pattern : Pattern
  expected : Bool := true
  version : Version := .baseline

/-- A condition newer than the active version is no obstacle. -/
def Condition.holds (c : Condition) (backward : List Kind) (active : Version) : Bool :=
  !c.version.availableIn active || c.pattern.found backward == c.expected

structure Possibility where
  version : Version := .baseline
  tokens : List TokenOffer := []
  providers : List ProviderOffer := []
  conditions : List Condition := []

def Possibility.qualifies (p : Possibility) (backward : List Kind) (active : Version) : Bool :=
  p.version.availableIn active && p.conditions.all (·.holds backward active)

structure Entry where
  trigger : Trigger
  version : Version := .baseline
  possibilities : List Possibility := []

/-- The first possibility that qualifies. -/
def Entry.possibility? (e : Entry) (backward : List Kind) (active : Version) : Option Possibility :=
  e.possibilities.find? (·.qualifies backward active)

/-- Entries by trigger, at most one for each, under the version of their document. -/
structure RuleTable where
  version : String
  entries : List Entry
  distinct : (entries.map Entry.trigger).Nodup

namespace RuleTable

def empty (version : String) : RuleTable := ⟨version, [], .nil⟩

def get? (t : RuleTable) (trigger : Trigger) : Option Entry :=
  t.entries.find? fun e => e.trigger == trigger

/-- The table with one more entry; `none` when its trigger has one already. -/
def insert? (t : RuleTable) (e : Entry) : Option RuleTable :=
  if h : e.trigger ∈ t.entries.map Entry.trigger then none
  else some ⟨t.version, t.entries ++ [e], by
    rw [List.map_append]
    refine List.nodup_append.2 ⟨t.distinct, by simp, fun a ha b hb hab => h ?_⟩
    rw [← List.mem_singleton.1 hb, ← hab]
    exact ha⟩

def size (t : RuleTable) : Nat := t.entries.length

/-- The entry for a token: that of its kind if it has one, else that of its category. An entry newer
than the active version does not count. -/
def lookup (t : RuleTable) (kind : Kind) (active : Version) : Option Entry :=
  ([.token kind, .category kind.category].filterMap t.get?).find? (·.version.availableIn active)

/-- The entries in the order of triggers. -/
def sortedEntries (t : RuleTable) : List Entry := Trigger.all.filterMap t.get?

end RuleTable

end FourGL
