import FourGL.Tree.Node

/-!
# Paths through a tree

`root.Reaches path n` says that the tree under `root` holds the node `n` and that `path` lists the
nodes around it, the innermost first. What holds of every node of a tree is stated with it.
-/

namespace FourGL

/-- The keyword of a block: the word that opens it and that follows the END that closes it. -/
def NodeKind.block? : NodeKind → Option Keyword
  | .ifThen _ => some .IF
  | .whileLoop _ => some .WHILE
  | .forLoop .. => some .FOR
  | .foreachLoop .. => some .FOREACH
  | .caseOf _ => some .CASE
  | .tryBlock => some .TRY
  | .menu _ => some .MENU
  | .main _ => some .MAIN
  | .function .. => some .FUNCTION
  | .globals _ => some .GLOBALS
  | _ => none

namespace Node

theorem mem_insert {n m : Node} {ns : List Node} (h : m ∈ n.insert ns) : m = n ∨ m ∈ ns := by
  induction ns with
  | nil => exact .inl (List.mem_singleton.mp h)
  | cons k ks ih =>
    unfold insert at h
    split at h
    · exact (List.mem_cons.mp h)
    · split at h
      · obtain rfl | hm := List.mem_cons.mp h
        · exact .inl rfl
        · exact .inr (List.mem_cons_of_mem k hm)
      · obtain rfl | hm := List.mem_cons.mp h
        · exact .inr (List.mem_cons_self ..)
        · exact (ih hm).imp_right (List.mem_cons_of_mem k)

theorem forall_insert {P : Node → Prop} {n : Node} {ns : List Node} (hn : P n)
    (hns : ∀ m ∈ ns, P m) : ∀ m ∈ n.insert ns, P m := fun m hm => by
  obtain rfl | hm := mem_insert hm
  · exact hn
  · exact hns m hm

inductive Reaches (root : Node) : List Node → Node → Prop where
  | root : Reaches root [] root
  | child : Reaches root path m → n ∈ m.children → Reaches root (m :: path) n

namespace Reaches

/-- The first step of a path leads to a child of the root. -/
theorem root_or_below {root n : Node} (h : root.Reaches path n) :
    (path = [] ∧ n = root) ∨
      ∃ c ∈ root.children, ∃ path', c.Reaches path' n ∧ path = path' ++ [root] := by
  induction h with
  | root => exact .inl ⟨rfl, rfl⟩
  | @child path m n _ hmem ih =>
    obtain ⟨rfl, rfl⟩ | ⟨c, hc, path', hpath, rfl⟩ := ih
    · exact .inr ⟨n, hmem, [], .root, rfl⟩
    · exact .inr ⟨c, hc, m :: path', .child hpath hmem, rfl⟩

theorem trans {root m n : Node} {inner : List Node} (h₁ : root.Reaches path m)
    (h₂ : m.Reaches inner n) :
    root.Reaches (inner ++ path) n := by
  induction h₂ with
  | root => exact h₁
  | child _ hmem ih => exact .child ih hmem

/-- What a child of the root reaches, the root reaches too. -/
theorem of_child {root c n : Node} (h : c.Reaches path n) (hc : c ∈ root.children) :
    root.Reaches (path ++ [root]) n := trans (.child .root hc) h

/-- From a node of the path on, what is inside it leads further. -/
theorem of_append {root m n : Node} {inner : List Node} (h : root.Reaches (inner ++ m :: outer) n) :
    m.Reaches (inner ++ [m]) n := by
  generalize hpath : inner ++ m :: outer = path at h
  induction h generalizing inner with
  | root => simp at hpath
  | child _ hmem ih =>
    cases inner with
    | nil =>
      obtain ⟨rfl, -⟩ := List.cons.inj hpath
      exact .child .root hmem
    | cons a inner =>
      obtain ⟨rfl, hinner⟩ := List.cons.inj hpath
      exact .child (ih hinner) hmem

end Reaches

mutual

/-- The nodes of a tree from left to right, each with the nodes around it, the innermost first. -/
def walk (around : List Node) : Node → List (List Node × Node)
  | ⟨extent, kind, children⟩ =>
    (around, ⟨extent, kind, children⟩) :: walkList
      (⟨extent, kind, children⟩ :: around) children

def walkList (around : List Node) : List Node → List (List Node × Node)
  | [] => []
  | n :: ns => n.walk around ++ walkList around ns

end

theorem walk_eq (around : List Node) (n : Node) :
    n.walk around = (around, n) :: walkList (n :: around) n.children := by
  cases n
  rw [walk]

theorem walkList_append (around ns ms : List Node) :
    walkList around (ns ++ ms) = walkList around ns ++ walkList around ms := by
  induction ns with
  | nil => rfl
  | cons n ns ih => rw [List.cons_append, walkList, ih, walkList, List.append_assoc]

mutual

/-- What is around the whole tree is around each of its nodes. -/
theorem walk_around (around : List Node) : (n : Node) →
    n.walk around = (n.walk []).map fun x => (x.1 ++ around, x.2)
  | ⟨extent, kind, children⟩ => by
    rw [walk, walk, walkList_around (⟨extent, kind, children⟩ :: around),
      walkList_around [⟨extent, kind, children⟩]]
    simp [Function.comp_def]

theorem walkList_around (around : List Node) : (ns : List Node) →
    walkList around ns = (walkList [] ns).map fun x => (x.1 ++ around, x.2)
  | [] => rfl
  | n :: ns => by
    rw [walkList, walkList, List.map_append, walk_around around n, walkList_around around ns]

end

mutual

/-- A walk meets what the tree reaches, and nothing else. -/
theorem mem_walk (around : List Node) : (n : Node) →
    ((path, m) ∈ n.walk around ↔ ∃ inner, n.Reaches inner m ∧ path = inner ++ around)
  | ⟨extent, kind, children⟩ => by
    rw [walk, List.mem_cons, Prod.mk.injEq, mem_walkList]
    constructor
    · rintro (⟨rfl, rfl⟩ | ⟨c, hc, inner, hreach, rfl⟩)
      · exact ⟨[], .root, rfl⟩
      · exact ⟨_, hreach.of_child hc, by simp⟩
    · rintro ⟨inner, hreach, rfl⟩
      obtain ⟨rfl, rfl⟩ | ⟨c, hc, inner', hreach', rfl⟩ := hreach.root_or_below
      · exact .inl ⟨rfl, rfl⟩
      · exact .inr ⟨c, hc, inner', hreach', by simp⟩

theorem mem_walkList (around : List Node) : (ns : List Node) →
    ((path, m) ∈ walkList around ns ↔
      ∃ n ∈ ns, ∃ inner, n.Reaches inner m ∧ path = inner ++ around)
  | [] => by simp [walkList]
  | n :: ns => by
    rw [walkList, List.mem_append, mem_walk around n, mem_walkList around ns]
    simp

end

end Node

end FourGL
