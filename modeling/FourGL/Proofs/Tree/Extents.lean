import FourGL.Proofs.Grammar.Place

/-!
# Extents of nodes

Every node of a tree ends behind its header and inside the text, and its children lie one behind the
other in what is left of it behind the header. So a new child always starts behind all children
before it, and putting it among them is appending it.
-/

namespace FourGL

open FourGL.Parser FourGL.ParseState

namespace Node

/-- The offsets of a node in a text of a length, and how its children lie in it. -/
structure Placed (length : Nat) (n : Node) : Prop where
  start_le : n.extent.start ≤ n.extent.headerStop
  headerStop_le : n.extent.headerStop ≤ n.extent.stop
  stop_le : n.extent.stop ≤ length
  children_inside : ∀ c ∈ n.children, n.extent.headerStop ≤ c.start ∧
    c.stop ≤ n.extent.stop
  children_disjoint : n.children.Pairwise fun a b => a.stop ≤ b.start
  children_increasing : n.children.Pairwise fun a b => a.start < b.start

/-- A node and all nodes below it are placed. -/
def AllPlaced (length : Nat) (n : Node) : Prop := ∀ path m, n.Reaches path m → m.Placed length

/-- A node below another lies inside it. -/
theorem Reaches.within {n m : Node} (hreach : n.Reaches path m) (h : n.AllPlaced length) :
    n.start ≤ m.start ∧ m.stop ≤ n.stop := by
  induction hreach with
  | root => exact ⟨Nat.le_refl _, Nat.le_refl _⟩
  | @child path m c hreach hc ih =>
    have hplaced := h path m hreach
    obtain ⟨hstart, hstop⟩ := hplaced.children_inside c hc
    exact ⟨Nat.le_trans ih.1 (Nat.le_trans hplaced.start_le hstart), Nat.le_trans hstop ih.2⟩

/-- Putting the node among others is appending it to them. -/
def Appends (n : Node) (ns : List Node) : Prop := n.insert ns = ns ++ [n]

theorem appends_of_lt {n : Node} {ns : List Node} (h : ∀ m ∈ ns, m.start < n.start) :
    n.Appends ns := by
  induction ns with
  | nil => rfl
  | cons m ms ih =>
    have hm := h m (List.mem_cons_self ..)
    unfold Appends insert
    rw [if_neg (Nat.not_lt_of_lt hm), if_neg (Nat.ne_of_gt hm),
      ih fun m' hm' => h m' (List.mem_cons_of_mem m hm')]
    rfl

/-- Nodes that lie between two offsets, one behind the other. -/
structure Row (length lo hi : Nat) (ns : List Node) : Prop where
  inside : ∀ n ∈ ns, lo ≤ n.start ∧ n.start < n.stop ∧ n.stop ≤ hi
  disjoint : ns.Pairwise fun a b => a.stop ≤ b.start
  placed : ∀ n ∈ ns, n.AllPlaced length

namespace Row

theorem nil (length lo hi : Nat) : Row length lo hi [] := ⟨by simp, .nil, by simp⟩

theorem mono (h : Row length lo hi ns) (hhi : hi ≤ hi') : Row length lo hi' ns := by
  refine ⟨fun n hn => ?_, h.disjoint, h.placed⟩
  obtain ⟨hlo, hlt, hstop⟩ := h.inside n hn
  exact ⟨hlo, hlt, Nat.le_trans hstop hhi⟩

/-- A node behind a row is appended to it, and gives a longer row. -/
theorem add (h : Row length lo mid ns) {n : Node} (hlo : lo ≤ mid) (hmid : mid ≤ n.start)
    (hlt : n.start < n.stop) (hhi : n.stop ≤ hi) (hplaced : n.AllPlaced length) :
    n.Appends ns ∧ Row length lo hi (n.insert ns) := by
  have happend : n.Appends ns := by
    refine appends_of_lt fun m hm => ?_
    obtain ⟨-, hlt, hle⟩ := h.inside m hm
    omega
  refine ⟨happend, ?_⟩
  rw [show n.insert ns = ns ++ [n] from happend]
  constructor
  · intro m hm
    obtain hm | hm := List.mem_append.mp hm
    · obtain ⟨hlo, hlt, hle⟩ := h.inside m hm
      exact ⟨hlo, hlt, by omega⟩
    · obtain rfl := List.mem_singleton.mp hm
      exact ⟨by omega, hlt, hhi⟩
  · rw [List.pairwise_append]
    refine ⟨h.disjoint, List.pairwise_singleton _ _, fun m hm m' hm' => ?_⟩
    obtain rfl := List.mem_singleton.mp hm'
    obtain ⟨-, -, hle⟩ := h.inside m hm
    exact Nat.le_trans hle hmid
  · intro m hm
    obtain hm | hm := List.mem_append.mp hm
    · exact h.placed m hm
    · exact List.mem_singleton.mp hm ▸ hplaced

theorem increasing (h : Row length lo hi ns) : ns.Pairwise fun a b => a.start < b.start :=
  h.disjoint.imp_of_mem fun {a _} ha _ hab => Nat.lt_of_lt_of_le (h.inside a ha).2.1 hab

/-- A node around a row that lies behind its header is placed. -/
theorem allPlaced {n : Node} (h : Row length n.extent.headerStop n.stop n.children)
    (hstart : n.start ≤ n.extent.headerStop) (hheader : n.extent.headerStop ≤ n.stop)
    (hstop : n.stop ≤ length) : n.AllPlaced length := by
  intro path m hreach
  obtain ⟨rfl, rfl⟩ | ⟨c, hc, path', hreach', -⟩ := hreach.root_or_below
  · refine ⟨hstart, hheader, hstop, fun c hc => ?_, h.disjoint, h.increasing⟩
    obtain ⟨hlo, -, hhi⟩ := h.inside c hc
    exact ⟨hlo, hhi⟩
  · exact h.placed c hc path' m hreach'

end Row

end Node

/-! ## What is read -/

/-- Nodes that are read between two states lie there. -/
def Laid (text : String) (s t : ParseState) (ns : List Node) : Prop :=
  Onward text s t ∧ Node.Row text.length s.place t.place ns

/-- The node that begins with an opening ends where the state behind it is. -/
structure Spans (text : String) (o : Opening) (s t : ParseState) (n : Node) : Prop where
  onward : Onward text s t
  start_eq : n.start = o.token.start
  stop_eq : n.stop = t.place
  placed : n.AllPlaced text.length

/-- What a judgment says about extents, and that it has a derivation in which every insertion
appends. -/
def Judgment.LaidOut (text : String) : Judgment → Prop
  | .rounds levels ctx region s p t => At text s →
      Laid text s t p.nodes ∧ Derives Node.Appends (.rounds levels ctx region s p t)
  | .clauseRounds levels ctx inner k s p t => At text s →
      Laid text s t p.nodes ∧ Derives Node.Appends (.clauseRounds levels ctx inner k s p t)
  | .body levels ctx region s ns stop t => At text s →
      Laid text s t ns ∧ Derives Node.Appends (.body levels ctx region s ns stop t)
  | .content levels ctx k s ns stop t => At text s →
      Laid text s t ns ∧ Derives Node.Appends (.content levels ctx k s ns stop t)
  | .clause levels ctx region o s n stop t => At text s → Opens o s →
      Spans text o s t n ∧ Derives Node.Appends (.clause levels ctx region o s n stop t)
  | .statement levels ctx o s n t => At text s → Opens o s →
      Spans text o s t n ∧ Derives Node.Appends (.statement levels ctx o s n t)

theorem Laid.nil (hat : At text s) : Laid text s s [] := ⟨⟨hat, Nat.le_refl _⟩, .nil _ _ _⟩

theorem Laid.onward (h : Laid text s t ns) (ht : Onward text t u) : Laid text s u ns :=
  ⟨h.1.trans ht, h.2.mono ht.2⟩

/-- Behind nodes that are laid out, one more is read. -/
theorem Laid.add (h : Laid text s t ns) (honward : Onward text t u) (hopens : Opens o u)
    (hstart : t.place ≤ o.token.start) (hspans : Spans text o u v n) (hw : Onward text v w) :
    n.Appends ns ∧ Laid text s w (n.insert ns) := by
  have hlt : n.start < n.stop := by
    rw [hspans.start_eq, hspans.stop_eq]
    exact Nat.lt_of_lt_of_le hopens.start_lt hspans.onward.2
  have hadd := h.2.add h.1.2 (hspans.start_eq ▸ hstart) hlt
    (hspans.stop_eq ▸ hw.2) hspans.placed
  exact ⟨hadd.1, h.1.trans (honward.trans (hspans.onward.trans hw)), hadd.2⟩

/-- Behind nodes that are laid out, the next one is appended. -/
theorem Laid.appends {e : Nat} (h : Laid text s t ns) (hkind : t.kindAt 1 ≠ .endOfFile)
    (hlook : Looks t u)
    (hspans : At text u.read → Opens ⟨u.read.input.last, e⟩ u.read →
      Spans text ⟨u.read.input.last, e⟩ u.read v n) : n.insert ns = ns ++ [n] := by
  obtain ⟨honward, hopens, hstart⟩ := h.1.1.opens hkind hlook e
  have hspans := hspans honward.1 hopens
  exact (h.add honward hopens hstart hspans ⟨hspans.onward.1, Nat.le_refl _⟩).1

/-- A node that is closed around nodes behind its header spans what was read. -/
theorem spans_of_closed (hopens : Opens o s) (hle : s.place ≤ header) (honward : Onward text s t)
    (hrow : Node.Row text.length header t.place ns) (hheader : header ≤ t.place)
    (hclosed : Closed o header kind ns t n) : Spans text o s t n := by
  refine ⟨honward, hclosed.start_eq, hclosed.stop_eq, Node.Row.allPlaced ?_ ?_ ?_ ?_⟩
  · rw [hclosed.headerStop_eq, hclosed.stop_eq, hclosed.children_eq]
    exact hrow
  · rw [hclosed.start_eq, hclosed.headerStop_eq]
    exact Nat.le_of_lt (Nat.lt_of_lt_of_le hopens.start_lt hle)
  · rw [hclosed.headerStop_eq, hclosed.stop_eq]
    exact hheader
  · rw [hclosed.stop_eq]
    exact honward.1.place_le

/-- Closing a clause or block around nodes that lie behind its header. -/
theorem spans_closeNode (hat : At text s) (hopens : Opens o s) (hheader : Header o s t header)
    (hlaid : Laid text t u ns) (hclose : (closeNode o header kind ns).run u = (n, v)) :
    Spans text o s v n := by
  have honward := hat.steps hheader.steps
  obtain rfl := hopens.header_eq hat hheader
  obtain ⟨rfl, hclosed⟩ := closed_closeNode hlaid.1.2 hclose
  exact spans_of_closed hopens honward.2 (honward.trans hlaid.1) hlaid.2 hlaid.1.2 hclosed

theorem spans_closeStatement (hat : At text s) (hopens : Opens o s)
    (hsteps : Steps M s t) (hclose : (closeStatement o kind).run t = (n, u)) :
    Spans text o s u n := by
  have honward := hat.steps hsteps
  have hstart := Nat.le_of_lt (Nat.lt_of_lt_of_le hopens.start_lt honward.2)
  obtain ⟨rfl, hclosed⟩ := closed_closeStatement hstart hclose
  exact spans_of_closed hopens honward.2 honward (.nil _ _ _) (Nat.le_refl _) hclosed

/-- Behind the header of a block nothing moves the place but what the block holds and its END. -/
theorem laid_block (hat : At text s₁) (hbefore : Stays s₁ s₂)
    (hcontent : At text s₂ → Laid text s₂ s₃ ns) (hbehind : Stays s₃ s₄)
    (hend : (closeBlock o header k stop).run s₄ = ((), s₅)) (hafter : Stays s₅ s₆) :
    Laid text s₁ s₆ ns := by
  have hon₂ := hat.steps hbefore.1
  have hlaid := hcontent hon₂.1
  have hon₄ := hlaid.1.1.steps hbehind.1
  have hon₅ := hon₄.1.run (reportsOnly_closeBlock o header k stop) hend
  have hon₆ := hon₅.1.steps hafter.1
  have hlaid := hlaid.onward (hon₄.trans (hon₅.trans hon₆))
  exact ⟨hon₂.trans hlaid.1, hbefore.place ▸ hlaid.2⟩

/-- What every derivation says about extents. -/
theorem laidOut_of_derivable {J : Judgment} (h : Derivable J) : J.LaidOut text := by
  -- The place carries the induction: all nodes so far end there or before, and the next one starts
  -- there or behind it.
  induction h with
  | noRound levels ctx region s => exact fun hat => ⟨.nil hat, .noRound levels ctx region s⟩
  | addStatement _ hchoice hrun _ hjump hleave _ ihBefore ihStatement =>
    intro hat
    obtain ⟨hlaid, hbefore⟩ := ihBefore hat
    obtain ⟨honward, hopens, hstart⟩ :=
      hlaid.1.1.opens hchoice.passes.ne_endOfFile hchoice.looks _
    obtain ⟨hspans, hstatement⟩ := ihStatement honward.1 hopens
    have hjumped := hspans.onward.1.run (reportsOnly_checkJump _ _) hjump
    have hjumped := hjumped.trans (hjumped.1.looks hleave)
    obtain ⟨happend, hlaid⟩ := hlaid.add honward hopens hstart hspans hjumped
    exact ⟨hlaid, .addStatement hbefore hchoice hrun hstatement hjump hleave happend⟩
  | skip _ hskip ih =>
    intro hat
    obtain ⟨hlaid, hbefore⟩ := ih hat
    exact ⟨hskip.nodes_eq ▸ hlaid.onward (hskip.onward hlaid.1.1), .skip hbefore hskip⟩
  | noClause levels ctx inner k s =>
    exact fun hat => ⟨.nil hat, .noClause levels ctx inner k s⟩
  | addClause _ hpass hlook hrun _ _ ihBefore ihClause =>
    intro hat
    obtain ⟨hlaid, hbefore⟩ := ihBefore hat
    obtain ⟨honward, hopens, hstart⟩ := hlaid.1.1.opens hpass.ne_endOfFile hlook _
    obtain ⟨hspans, hclause⟩ := ihClause honward.1 hopens
    obtain ⟨happend, hlaid⟩ :=
      hlaid.add honward hopens hstart hspans ⟨hspans.onward.1, Nat.le_refl _⟩
    exact ⟨hlaid, .addClause hbefore hpass hlook hrun hclause happend⟩
  | skipClause _ hpass hmem hlook hskip ih =>
    intro hat
    obtain ⟨hlaid, hbefore⟩ := ih hat
    have hread := (hlaid.1.1.looks hlook).trans (hlaid.1.1.looks hlook).1.read
    have hskipped := hread.1.run (reportsOnly_skipUnexpected _ _) hskip
    exact ⟨hlaid.onward (hread.trans hskipped), .skipClause hbefore hpass hmem hlook hskip⟩
  | body _ hstop hlook ih =>
    intro hat
    obtain ⟨hlaid, hrounds⟩ := ih hat
    exact ⟨hlaid.onward (hlaid.1.1.looks hlook), .body hrounds hstop hlook⟩
  | holdsBody hinside _ ih =>
    intro hat
    obtain ⟨hlaid, hbody⟩ := ih hat
    exact ⟨hlaid, .holdsBody hinside hbody⟩
  | holdsBranches hfirst hbody hsecond hrun _ _ ihBody ihBranch =>
    intro hat
    obtain ⟨hlaid, hbody'⟩ := ihBody hat
    -- The first branch stopped at a word, so a token opens the second.
    obtain ⟨honward, hopens, hstart⟩ :=
      hlaid.1.1.opens hbody.stops_body.ne_endOfFile (.refl _) _
    obtain ⟨hspans, hbranch⟩ := ihBranch honward.1 hopens
    obtain ⟨happend, hlaid⟩ :=
      hlaid.add honward hopens hstart hspans ⟨hspans.onward.1, Nat.le_refl _⟩
    exact ⟨hlaid, .holdsBranches hfirst hbody' hsecond hrun hbranch happend⟩
  | holdsClauses houter hinside _ hstop hlook ih =>
    intro hat
    obtain ⟨hlaid, hrounds⟩ := ih hat
    exact ⟨hlaid.onward (hlaid.1.1.looks hlook),
      .holdsClauses houter hinside hrounds hstop hlook⟩
  | clause hheader _ hkind hclose ih =>
    intro hat hopens
    obtain ⟨hlaid, hbody⟩ := ih (hat.steps hheader.steps).1
    exact ⟨spans_closeNode hat hopens hheader hlaid hclose, .clause hheader hbody hkind hclose⟩
  | leaf hsteps hkind hclose =>
    exact fun hat hopens =>
      ⟨spans_closeStatement hat hopens hsteps hclose, .leaf hsteps hkind hclose⟩
  | block hheader hbefore _ hbehind hend hafter hkind hclose ih =>
    intro hat hopens
    have hat₁ := (hat.steps hheader.steps).1
    obtain ⟨-, hcontent⟩ := ih (hat₁.steps hbefore.1).1
    have hlaid := laid_block hat₁ hbefore (fun hat => (ih hat).1) hbehind hend hafter
    exact ⟨spans_closeNode hat hopens hheader hlaid hclose,
      .block hheader hbefore hcontent hbehind hend hafter hkind hclose⟩

/-! ## Modules -/

/-- Every node of the tree of a module lies inside the text with its children one behind the other
behind its header, and the tree comes about without an insertion that would take the place of a
child. -/
theorem parseModule_placed (text : String) (options : ParseOptions) :
    (∀ path n, (parseModule text options).module.Reaches path n → n.Placed text.length) ∧
      ∃ stop t,
        (bodyAt maxNesting (.root options.version) .members).run (.ofText options.mode text) =
          (((parseModule text options).module.children, stop), t) ∧
        Derives Node.Appends (.body maxNesting (.root options.version) .members
          (.ofText options.mode text) (parseModule text options).module.children stop t) := by
  obtain ⟨s, stop, hrun, hbody, hstart, hstop, hheader, -⟩ := derives_parseModule text options
  obtain ⟨hlaid, hderives⟩ := laidOut_of_derivable hbody (at_ofText options.mode text)
  have hread := hlaid.1.1.read
  rw [hread.1.length_eq] at hstop
  refine ⟨Node.Row.allPlaced ?_ ?_ ?_ ?_, stop, s, hrun, hderives⟩
  · rw [hheader, Node.stop, hstop]
    exact hlaid.2.mono hlaid.1.1.place_le
  · rw [hheader, Node.start, hstart]
  · rw [hheader]
    exact Nat.zero_le _
  · exact Nat.le_of_eq hstop

end FourGL
