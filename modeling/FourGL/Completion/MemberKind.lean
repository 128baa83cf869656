import FourGL.Text.Blank

/-!
# Kinds of members

What a request for completions may ask for. Sets of kinds are written as lists of names.
-/

namespace FourGL

inductive MemberKind where
  | vars | functions | constants | types | cursors | keywords
deriving DecidableEq

namespace MemberKind

def name : MemberKind → String
  | vars => "variables"
  | functions => "functions"
  | constants => "constants"
  | types => "types"
  | cursors => "cursors"
  | keywords => "keywords"

/-- Every kind, in the order in which sets list them. -/
def all : List MemberKind := [vars, functions, constants, types, cursors, keywords]

theorem mem_all (k : MemberKind) : k ∈ all := by cases k <;> simp [all]

/-- The kind of this name, in any case. -/
def ofName? (name : String) : Option MemberKind := all.find? fun k => sameName k.name name

end MemberKind

/-- A set of member kinds. -/
structure MemberKinds where
  contains : MemberKind → Bool

namespace MemberKinds

@[ext] theorem ext {a b : MemberKinds} (h : ∀ k, a.contains k = b.contains k) : a = b := by
  cases a
  cases b
  exact congrArg mk (funext h)

def all : MemberKinds := ⟨fun _ => true⟩

def empty : MemberKinds := ⟨fun _ => false⟩

def insert (s : MemberKinds) (k : MemberKind) : MemberKinds := ⟨fun j => j == k || s.contains j⟩

def inter (s t : MemberKinds) : MemberKinds := ⟨fun k => s.contains k && t.contains k⟩

def ofList (ks : List MemberKind) : MemberKinds := ⟨ks.contains⟩

def toList (s : MemberKinds) : List MemberKind := MemberKind.all.filter s.contains

def names (s : MemberKinds) : List String := s.toList.map MemberKind.name

def isEmpty (s : MemberKinds) : Bool := s.toList.isEmpty

/-- The set as a number, with a bit for each kind in the order of all kinds. -/
def bits (s : MemberKinds) : Nat :=
  MemberKind.all.foldr (fun k n => (if s.contains k then 1 else 0) + 2 * n) 0

/-- The set of the kinds with these names. Fails with the first name that is none of them. -/
def ofNames : List String → Except String MemberKinds
  | [] => .ok empty
  | name :: names =>
    match MemberKind.ofName? name with
    | none => .error name
    | some k => (ofNames names).map (·.insert k)

/-! ## Members -/

@[simp] theorem contains_all (k : MemberKind) : all.contains k = true := rfl

@[simp] theorem contains_inter (s t : MemberKinds) (k : MemberKind) :
    (s.inter t).contains k = (s.contains k && t.contains k) := rfl

@[simp] theorem mem_toList (s : MemberKinds) (k : MemberKind) :
    k ∈ s.toList ↔ s.contains k = true := by
  simp [toList, MemberKind.mem_all]

theorem isEmpty_iff (s : MemberKinds) : s.isEmpty = true ↔ ∀ k, s.contains k = false := by
  rw [isEmpty, List.isEmpty_iff, List.eq_nil_iff_forall_not_mem]
  simp

end MemberKinds

end FourGL
