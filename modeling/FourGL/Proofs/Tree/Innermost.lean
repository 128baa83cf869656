import FourGL.Proofs.Tree.Extents

/-!
# The node at a place

A node reaches the place right behind it, so that two nodes which touch both contain the place
between them. The search for the innermost node looks into one child of each node only. Because the
children of a node lie one behind the other, that is the last child that contains the place, and
where it does not contain the place no child does (`parseModule_innermost`).
-/

namespace FourGL

open FourGL.Parser FourGL.ParseState

namespace Node

theorem contains_iff {n : Node} {pos : Nat} :
    n.extent.contains pos = true ↔ n.start ≤ pos ∧ pos ≤ n.stop := by
  simp [Extent.contains, start, stop]

/-- From the one node to the other leads a path that takes in each node the last child that contains
the place. -/
inductive Descends (pos : Nat) : Node → Node → Prop where
  | stay (n : Node) : Descends pos n n
  | step {n c d : Node} {before after : List Node} (hchildren : n.children = before ++ c :: after)
      (hc : c.extent.contains pos = true) (hafter : ∀ m ∈ after, m.extent.contains pos = false)
      (h : Descends pos c d) : Descends pos n d

/-- No child of the node contains the place. -/
def Innermost (pos : Nat) (n : Node) : Prop := ∀ c ∈ n.children, c.extent.contains pos = false

/-- The path ends at a node that contains the place and has no child that does. -/
structure DescendsToInnermost (pos : Nat) (n d : Node) : Prop where
  descends : Descends pos n d
  contains : d.extent.contains pos = true
  innermost : d.Innermost pos

/-- Nodes that lie one behind the other, each placed with all nodes below it. -/
structure InLine (length : Nat) (ns : List Node) : Prop where
  disjoint : ns.Pairwise fun a b => a.stop ≤ b.start
  placed : ∀ n ∈ ns, n.AllPlaced length

theorem InLine.tail (h : InLine length (n :: ns)) : InLine length ns :=
  ⟨(List.pairwise_cons.mp h.disjoint).2, fun m hm => h.placed m (List.mem_cons_of_mem n hm)⟩

theorem AllPlaced.inLine {n : Node} (h : n.AllPlaced length) : InLine length n.children :=
  ⟨(h _ n .root).children_disjoint, fun _ hc _ _ hreach => h _ _ (hreach.of_child hc)⟩

theorem AllPlaced.start_le_stop {n : Node} (h : n.AllPlaced length) : n.start ≤ n.stop :=
  Nat.le_trans (h _ n .root).start_le (h _ n .root).headerStop_le

/-- A node that starts too late, or behind which another one starts in time, is not the one to look
into. -/
theorem InLine.not_contains (h : InLine length (n :: ns)) (hm : m ∈ ns) (hstart : m.start ≤ pos)
    (hnone : ∀ m ∈ ns, m.extent.contains pos = false) : n.extent.contains pos = false := by
  have hstop := (h.placed m (List.mem_cons_of_mem n hm)).start_le_stop
  have hbehind := (List.pairwise_cons.mp h.disjoint).1 m hm
  have hm := hnone m hm
  rw [Bool.eq_false_iff, Ne, contains_iff] at hm ⊢
  omega

theorem at?_eq_none {n : Node} (h : ¬ n.extent.contains pos = true) : n.at? pos = none := by
  obtain ⟨extent, kind, children⟩ := n
  rw [at?, if_neg h]

mutual

/-- The innermost node at a place that the node contains. -/
theorem at?_eq_some (pos : Nat) : (n : Node) → n.AllPlaced length →
    n.extent.contains pos = true → ∃ d, n.at? pos = some d ∧ DescendsToInnermost pos n d
  | ⟨extent, kind, children⟩, hplaced, hpos => by
    rw [at?, if_pos hpos]
    obtain ⟨hnone, hall⟩ | ⟨before, c, after, d, hchildren, hc, hafter, hsome, hd⟩ :=
      lastAt?_cases pos children hplaced.inLine
    · rw [hnone]
      exact ⟨_, rfl, .stay _, hpos, hall⟩
    · rw [hsome]
      exact ⟨d, rfl, .step hchildren hc hafter hd.descends, hd.contains, hd.innermost⟩

/-- Either none of the nodes contains the place and nothing is found, or the last one that does is
looked into. -/
theorem lastAt?_cases (pos : Nat) : (ns : List Node) → InLine length ns →
    (lastAt? pos ns = none ∧ ∀ m ∈ ns, m.extent.contains pos = false) ∨
    ∃ before c after d, ns = before ++ c :: after ∧ c.extent.contains pos = true ∧
      (∀ m ∈ after, m.extent.contains pos = false) ∧ lastAt? pos ns = some d ∧
      DescendsToInnermost pos c d
  | [], _ => .inl ⟨rfl, by simp⟩
  | n :: ns, h => by
    rw [lastAt?]
    split_ifs with hlater hstart
    · obtain ⟨hnone, hall⟩ | ⟨before, c, after, d, rfl, hrest⟩ :=
        lastAt?_cases pos ns h.tail
      · obtain ⟨m, hm, hmpos⟩ := List.any_eq_true.mp hlater
        exact .inl ⟨hnone, List.forall_mem_cons.mpr
          ⟨h.not_contains hm (of_decide_eq_true hmpos) hall, hall⟩⟩
      · exact .inr ⟨n :: before, c, after, d, rfl, hrest⟩
    all_goals
      have hafter : ∀ m ∈ ns, m.extent.contains pos = false := fun m hm => by
        have hlate : ¬ m.start ≤ pos := fun hmpos =>
          hlater (List.any_eq_true.mpr ⟨m, hm, decide_eq_true hmpos⟩)
        rw [Bool.eq_false_iff, Ne, contains_iff]
        omega
    · cases hpos : n.extent.contains pos with
      | true =>
        obtain ⟨d, hd, hdescends⟩ := at?_eq_some pos n (h.placed n (List.mem_cons_self ..)) hpos
        exact .inr ⟨[], n, ns, d, rfl, hpos, hafter, hd, hdescends⟩
      | false =>
        exact .inl ⟨at?_eq_none (by simp [hpos]), List.forall_mem_cons.mpr ⟨hpos, hafter⟩⟩
    · refine .inl ⟨rfl, List.forall_mem_cons.mpr ⟨?_, hafter⟩⟩
      rw [Bool.eq_false_iff, Ne, contains_iff]
      omega

end

end Node

/-- The module spans the text, and all nodes in it are placed. -/
theorem placed_module (text : String) (options : ParseOptions) :
    (parseModule text options).module.start = 0 ∧
      (parseModule text options).module.stop = text.length ∧
      (parseModule text options).module.AllPlaced text.length := by
  obtain ⟨s, stop, -, hbody, hstart, hstop, hheader, -⟩ := derives_parseModule text options
  obtain ⟨⟨honward, hrow⟩, -⟩ := laidOut_of_derivable hbody (at_ofText options.mode text)
  replace hstop : (parseModule text options).module.stop = text.length :=
    hstop.trans honward.1.read.1.length_eq
  refine ⟨hstart, hstop, Node.Row.allPlaced ?_ (Nat.le_of_eq (hstart.trans hheader.symm)) ?_
    (Nat.le_of_eq hstop)⟩
  · rw [hheader, hstop]
    exact hrow.mono honward.1.place_le
  · rw [hheader]
    exact Nat.zero_le _

/-- Behind the text there is no node. Every other place has one: it contains the place, no child of
it does, and the path to it takes at each level the last child that contains the place. -/
theorem parseModule_innermost (text : String) (options : ParseOptions) (pos : Nat) :
    let root := (parseModule text options).module
    root.at? pos = none ∧ text.length < pos ∨
      ∃ n, root.at? pos = some n ∧ pos ≤ text.length ∧ n.start ≤ pos ∧
        pos ≤ n.stop ∧ n.Innermost pos ∧ Node.Descends pos root n := by
  intro root
  obtain ⟨hstart, hstop, hplaced⟩ := placed_module text options
  have hcontains : root.extent.contains pos = true ↔ pos ≤ text.length := by
    rw [Node.contains_iff, hstart, hstop]
    simp
  by_cases hpos : pos ≤ text.length
  · obtain ⟨n, hn, hdescends⟩ := Node.at?_eq_some pos root hplaced (hcontains.mpr hpos)
    obtain ⟨hle, hge⟩ := Node.contains_iff.mp hdescends.contains
    exact .inr ⟨n, hn, hpos, hle, hge, hdescends.innermost, hdescends.descends⟩
  · exact .inl ⟨Node.at?_eq_none fun h => hpos (hcontains.mp h), Nat.lt_of_not_le hpos⟩

end FourGL
