import FourGL.Proofs.Grammar.HeldSpans
import FourGL.Proofs.Tree.Placeholders

/-!
# Where the expressions of a tree stand

Every node below those that are read from a text is read on the way, behind its first token. So what
is known of reading one node holds of all of them: the expressions in a tree stand in the headers of
the nodes that hold them, and their parts inside them, one behind the other
(`parseModule_inHeader`).
-/

namespace FourGL

open FourGL.Parser FourGL.ParseState

theorem NodeRead.inHeader (h : NodeRead s n t) (hat : At text s) : n.InHeader := by
  obtain ⟨u, hlook, hreads⟩ := h.read
  obtain ⟨hon, hopens, -⟩ := hat.opens h.ne_endOfFile hlook s.errorCount
  exact hreads.inHeader hon.1 hopens.start_lt

theorem NodesRead.inHeader (h : NodesRead owners s ns t) (hat : At text s)
    {n : Node} (hn : n ∈ ns) (hreach : n.Reaches path m) : m.InHeader := by
  obtain ⟨inner, s', t', hbefore, hnodeRead, -, -⟩ := h.sub hn hreach
  exact hnodeRead.inHeader (hbefore.later.onward hat).1

/-- The module itself holds no expressions. -/
theorem NodesReadIn.inHeader_module {n : Node}
    (h : NodesReadIn text owners (.ofText mode text) n.children t)
    (hkind : n.kind = .module scope joined functions imports) (hreach : n.Reaches path m) :
    m.InHeader := by
  rcases hreach.root_or_below with ⟨-, rfl⟩ | ⟨c, hc, path', hreach, -⟩
  · unfold Node.InHeader
    rw [hkind]
    exact .nil _ _
  · exact h.nodesRead.inHeader (at_ofText mode text) hc hreach

/-- The expressions that a node of a module holds stand in the header of the node, one behind the
other, and inside every expression its parts stand one behind the other. Only placeholders of no
characters can stand elsewhere. -/
theorem parseModule_inHeader (text : String) (options : ParseOptions) {path : List Node} {n : Node}
    (hreach : (parseModule text options).module.Reaches path n) : n.InHeader := by
  obtain ⟨s, hnodesReadIn, hkind, -⟩ := nodesRead_parseModule text options
  exact hnodesReadIn.inHeader_module hkind hreach

/-- The arguments of a call in a statement behind an operand that is missing. -/
theorem parseModule_inHeader_let :
    ∃ path n, (parseModule "main let a = + , f(b[1] * 2, c) end main"
      {}).module.Reaches path n ∧ n.kind.expressions.length = 2 ∧ n.InHeader := by
  have hparsed :
    ∃ c ∈ (parseModule "main let a = + , f(b[1] * 2, c) end main" {}).module.children,
      ∃ n ∈ c.children, n.kind.expressions.length = 2 := by decide +kernel
  obtain ⟨c, hc, n, hn, hlength⟩ := hparsed
  have hreach := (Node.Reaches.root.child hc).child hn
  exact ⟨_, n, hreach, hlength, parseModule_inHeader _ {} hreach⟩

end FourGL
