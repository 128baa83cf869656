import FourGL.Completion.MemberKind

/-!
# Candidates

A candidate is known by its label and its kind. A list of candidates holds each of them once, the
first to be added being the one that stays.
-/

namespace FourGL

inductive ItemKind where
  | keyword | operator | variable | function | constant | type | cursor
deriving DecidableEq

namespace ItemKind

def name : ItemKind → String
  | .keyword => "keyword"
  | .operator => "operator"
  | .variable => "variable"
  | .function => "function"
  | .constant => "constant"
  | .type => "type"
  | .cursor => "cursor"

def all : List ItemKind := [.keyword, .operator, .variable, .function, .constant, .type, .cursor]

def ofName? (name : String) : Option ItemKind := all.find? (·.name == name)

/-- The member kind that a request must ask for to be offered items of this kind. -/
def member : ItemKind → MemberKind
  | .keyword | .operator => .keywords
  | .variable => .vars
  | .function => .functions
  | .constant => .constants
  | .type => .types
  | .cursor => .cursors

end ItemKind

structure Item where
  label : String
  kind : ItemKind
  /-- What is told about the candidate, such as its type. -/
  detail : Option String := none
deriving DecidableEq

namespace Item

/-- Two items stand for one candidate when their labels and kinds are equal. -/
def same (a b : Item) : Bool := a.label == b.label && a.kind == b.kind

theorem same_iff (a b : Item) : a.same b = true ↔ a.label = b.label ∧ a.kind = b.kind := by
  simp [same]

/-- Whether the label begins with `word`, in any case. -/
def startsWith (word : String) (a : Item) : Bool :=
  word.toLower.toList.isPrefixOf a.label.toLower.toList

end Item

/-- Candidates in the order in which they were found, each once. -/
structure Candidates where
  items : List Item
  distinct : items.Pairwise fun a b => a.same b = false

namespace Candidates

def empty : Candidates := ⟨[], .nil⟩

def contains (c : Candidates) (label : String) (kind : ItemKind) : Bool :=
  c.items.any fun a => a.label == label && a.kind == kind

/-- The candidates with `item` at the end, unless it is there already. -/
def insert (c : Candidates) (item : Item) : Candidates :=
  if h : c.items.any (·.same item) then c
  else
    ⟨c.items ++ [item], by
      refine List.pairwise_append.2 ⟨c.distinct, List.pairwise_singleton _ _,
        fun a ha b hb => ?_⟩
      rw [List.mem_singleton.1 hb]
      exact Bool.eq_false_iff.2 fun hs => h (List.any_eq_true.2 ⟨a, ha, hs⟩)⟩

def insertAll (c : Candidates) (items : List Item) : Candidates := items.foldl insert c

def filter (c : Candidates) (p : Item → Bool) : Candidates :=
  ⟨c.items.filter p, c.distinct.filter p⟩

/-- The candidates whose label begins with `word`, in any case. -/
def startingWith (c : Candidates) (word : String) : Candidates := c.filter (·.startsWith word)

def labels (c : Candidates) : List String := c.items.map Item.label

theorem items_insert (c : Candidates) (item : Item) :
    (c.insert item).items = if c.items.any (·.same item) then c.items else c.items ++ [item] := by
  unfold insert
  split <;> rfl

@[simp] theorem items_filter (c : Candidates) (p : Item → Bool) :
    (c.filter p).items = c.items.filter p := rfl

end Candidates

end FourGL
