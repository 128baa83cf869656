import FourGL.Proofs.Grammar.Payload
import FourGL.Proofs.Tree.Declarations

/-!
# Placeholders

An operand or a type that cannot be read leaves a placeholder, which is an error. So a node that is
complete holds none, and neither does any node below it. There is one exception: that the nesting is
too deep is reported once in a text, and behind this report an operand that is too deep leaves its
placeholder without an error. Types are not affected.
-/

namespace FourGL

open FourGL.Parser FourGL.ParseState

/-! ## What nodes hold and collect -/

namespace NodeKind

/-- What a module, a routine or a GLOBALS block has collected, and in a module what its GLOBALS
blocks declare. -/
def scopes : NodeKind → List Scope
  | .module scope joined .. => [scope, joined]
  | .globals scope | .main scope | .function _ _ _ _ scope _ => [scope]
  | _ => []

/-- The declarations that stand in a node or are collected in it. -/
def held (kind : NodeKind) : List Declaration :=
  kind.declarations ++ kind.scopes.flatMap (·.declarations)

/-- No type that the node holds has a placeholder. -/
def TypesWhole (kind : NodeKind) : Prop := ∀ d ∈ kind.held, d.TypeWhole

/-- No expression or designator that the node holds has a placeholder, the values of constants
included. -/
structure ValuesWhole (kind : NodeKind) : Prop extends kind.OperandsWhole where
  values : ∀ d ∈ kind.held, d.ValueWhole

/-- The values of the constants that a node declares are among its expressions. -/
theorem OperandsWhole.valueWhole {kind : NodeKind} (h : kind.OperandsWhole)
    (hd : d ∈ kind.declarations) : d.ValueWhole := by
  cases kind with
  | vars | types =>
    obtain ⟨_, -, rfl⟩ := List.mem_map.mp hd
    exact nofun
  | constants =>
    obtain ⟨c, hc, rfl⟩ := List.mem_map.mp hd
    exact fun e he => h.expressions e (List.mem_filterMap.mpr ⟨c, hc, Option.mem_toList.mp he⟩)
  | _ => cases hd

end NodeKind

theorem Declaration.firsts_subset (ds : List Declaration) : firsts ds ⊆ ds := by
  induction ds using List.reverseRecOn with
  | nil => exact List.Subset.refl _
  | append_singleton ds d ih =>
    rw [firsts_concat]
    split
    · exact fun e he => List.mem_append_left _ (ih he)
    · exact fun e he => List.mem_append.mpr ((List.mem_append.mp he).imp (ih ·) id)

/-- What the node holds is declared by it or by a node below it. -/
def Node.Gathers (n : Node) : Prop :=
  ∀ d ∈ n.kind.held, ∃ path m, n.Reaches path m ∧ d ∈ m.kind.declarations

namespace Node.Gathers

theorem typesWhole {n : Node} (h : n.Gathers)
    (hbelow : ∀ path m, n.Reaches path m → ∀ d ∈ m.kind.declarations, d.TypeWhole) :
    n.kind.TypesWhole := by
  intro d hd
  obtain ⟨path, m, hreach, hd⟩ := h d hd
  exact hbelow path m hreach d hd

theorem valuesWhole {n : Node} (h : n.Gathers)
    (hbelow : ∀ path m, n.Reaches path m → m.kind.OperandsWhole) : n.kind.ValuesWhole := by
  refine ⟨hbelow [] n .root, fun d hd => ?_⟩
  obtain ⟨path, m, hreach, hd⟩ := h d hd
  exact (hbelow path m hreach).valueWhole hd

end Node.Gathers

/-- What a scope of a node lists is declared below it. -/
theorem Scope.Lists.declared {n : Node} {scope : Scope} (h : scope.Lists (Node.owned n.children))
    (hd : d ∈ scope.declarations) :
    ∃ path m, n.Reaches path m ∧ d ∈ m.kind.declarations := by
  obtain ⟨⟨path, m⟩, hwalk, hm⟩ :=
    List.mem_flatMap.mp (Declaration.firsts_subset _ (h.perm.mem_iff.mp hd))
  obtain ⟨c, hc, inner, hreach, -⟩ := (Node.mem_walkList [] n.children).mp hwalk
  split at hm
  · cases hm
  · exact ⟨_, m, hreach.of_child hc, hm⟩

theorem Scope.mem_declare? {s : Scope} (h : e ∈ ((s.declare? d).getD s).declarations) :
    e ∈ s.declarations ∨ e = d := by
  unfold declare? at h
  split at h
  · exact .inl h
  · cases d <;> simp only [Option.getD_some, declarations, List.map_append, List.mem_append,
      List.map_cons, List.map_nil, List.mem_singleton] at h ⊢ <;> tauto

theorem Scope.mem_merge {s other : Scope} (h : e ∈ (s.merge other).declarations) :
    e ∈ s.declarations ∨ e ∈ other.declarations := by
  unfold merge at h
  generalize other.declarations = ds at h ⊢
  induction ds generalizing s with
  | nil => exact .inl h
  | cons d ds ih =>
    obtain h | h := ih h
    · exact (mem_declare? h).imp_right fun (h : e = d) => h ▸ List.mem_cons_self ..
    · exact .inr (List.mem_cons_of_mem _ h)

theorem Scope.mem_foldl_merge {s : Scope} {ss : List Scope}
    (h : e ∈ (ss.foldl merge s).declarations) :
    e ∈ s.declarations ∨ ∃ other ∈ ss, e ∈ other.declarations := by
  induction ss generalizing s with
  | nil => exact .inl h
  | cons other ss ih =>
    obtain h | ⟨another, hmem, h⟩ := ih h
    · exact (mem_merge h).imp_right fun h => ⟨other, List.mem_cons_self .., h⟩
    · exact .inr ⟨another, List.mem_cons_of_mem _ hmem, h⟩

/-! ## What is read cleanly -/

namespace NodesRead

/-- Every node below those that are read is read on the way. -/
theorem sub (h : NodesRead owners s ns t) {n : Node} (hn : n ∈ ns) (hreach : n.Reaches path m) :
    ∃ inner s' t', Flows s s' ∧ NodeRead s' m t' ∧ NodesRead inner s' [m] t' ∧
      Flows t' t := by
  induction h generalizing n path with
  | idle => cases hn
  | append hfirst hsecond ih₁ ih₂ =>
    obtain hn | hn := List.mem_append.mp hn
    · obtain ⟨inner, s', t', hbefore, hnodeRead, hnodesRead, hbehind⟩ := ih₁ hn hreach
      exact ⟨inner, s', t', hbefore, hnodeRead, hnodesRead, hbehind.trans hsecond.flows⟩
    · obtain ⟨inner, s', t', hbefore, hnodeRead, hnodesRead, hbehind⟩ := ih₂ hn hreach
      exact ⟨inner, s', t', hfirst.flows.trans hbefore, hnodeRead, hnodesRead, hbehind⟩
  | leaf hnodeRead hkind hscope hchildren hcursor hnameState =>
    obtain rfl := List.mem_singleton.mp hn
    obtain ⟨-, rfl⟩ | ⟨c, hc, -⟩ := hreach.root_or_below
    · exact ⟨_, _, _, .refl _, hnodeRead,
        .leaf hnodeRead hkind hscope hchildren hcursor hnameState, .refl _⟩
    · rw [hchildren] at hc
      cases hc
  | node hnodeRead hbefore hinner hbehind hencloses ih =>
    obtain rfl := List.mem_singleton.mp hn
    obtain ⟨-, rfl⟩ | ⟨c, hc, path', hreach, -⟩ := hreach.root_or_below
    · exact ⟨_, _, _, .refl _, hnodeRead,
        .node hnodeRead hbefore hinner hbehind hencloses, .refl _⟩
    · obtain ⟨inner, s', t', hbefore', hnodeRead, hnodesRead, hbehind'⟩ := ih hc hreach
      exact ⟨inner, s', t', hbefore.trans hbefore', hnodeRead, hnodesRead,
        hbehind'.trans hbehind⟩

/-- No module is read inside another. -/
theorem scopes_eq (h : NodesRead owners s ns t) {n : Node} (hn : n ∈ ns) :
    n.kind.scopes = n.kind.scope?.toList := by
  have hkind {kind : NodeKind} (h : ∀ scope globals functions imports,
      kind ≠ .module scope globals functions imports) : kind.scopes = kind.scope?.toList := by
    cases kind <;> first | rfl | exact absurd rfl (h _ _ _ _)
  induction h with
  | idle => cases hn
  | append _ _ ih₁ ih₂ => exact (List.mem_append.mp hn).elim ih₁ ih₂
  | leaf _ _ hscope =>
    obtain rfl := List.mem_singleton.mp hn
    exact hkind fun _ _ _ _ heq => by rw [heq] at hscope; cases hscope
  | node _ _ _ _ hencloses =>
    obtain rfl := List.mem_singleton.mp hn
    refine hkind fun _ _ _ _ heq => ?_
    rw [heq] at hencloses
    cases hencloses with
    | plain hkind => cases hkind
    | loop hkind => cases hkind
    | routine _ hkind => obtain hkind | hkind := hkind <;> cases hkind
    | globals _ hkind => cases hkind

/-- What a node below those that are read holds is declared in it. -/
theorem gathers (h : NodesRead owners s ns t) {n : Node} (hn : n ∈ ns)
    (hreach : n.Reaches path m) :
    m.Gathers := by
  intro d hd
  obtain hd | hd := List.mem_append.mp hd
  · exact ⟨[], m, .root, hd⟩
  · obtain ⟨inner, s', t', -, -, hnodesRead, -⟩ := h.sub hn hreach
    obtain ⟨scope, hscope, hd⟩ := List.mem_flatMap.mp hd
    rw [hnodesRead.scopes_eq (List.mem_singleton_self m)] at hscope
    exact (h.lists_below hn hreach (Option.mem_toList.mp hscope)).declared hd

end NodesRead

/-- A node that is read without an error holds what it has read as a whole. -/
theorem NodeRead.whole (h : NodeRead s n t) (herrors : t.errorCount = s.errorCount) :
    (∀ d ∈ n.kind.declarations, d.TypeWhole) ∧
      (s.limitReported = false → n.kind.OperandsWhole) := by
  obtain ⟨u, hlook, hreads⟩ := h.read
  obtain ⟨hbefore, hbehind⟩ :=
    ErrorFree.split (hlook.flows.trans (.read u)) hreads.flows herrors
  exact ⟨hreads.typeWhole hbehind.errors_eq, fun hlimit =>
    hreads.operandsWhole hbehind.errors_eq (hbefore.limitReported_eq.trans hlimit)⟩

/-- What is read without an error declares names with whole types, and has whole operands if the
limit of nesting was not reached before. -/
theorem NodesRead.whole (h : NodesRead owners s ns t)
    (herrors : t.errorCount = s.errorCount) {n : Node}
    (hn : n ∈ ns) (hreach : n.Reaches path m) :
    (∀ d ∈ m.kind.declarations, d.TypeWhole) ∧
      (s.limitReported = false → m.kind.OperandsWhole) := by
  obtain ⟨inner, s', t', hbefore, hnodeRead, -, hbehind⟩ := h.sub hn hreach
  obtain ⟨hclean, hrest⟩ := ErrorFree.split hbefore (hnodeRead.flows.trans hbehind) herrors
  obtain ⟨hnode, -⟩ := ErrorFree.split hnodeRead.flows hbehind hrest.errors_eq
  obtain ⟨htypes, hvalues⟩ := hnodeRead.whole hnode.errors_eq
  exact ⟨htypes, fun hlimit => hvalues (hclean.limitReported_eq.trans hlimit)⟩

/-! ## Whole texts -/

/-- The diagnostic says that the nesting is too deep, at a place before `pos`. -/
def Diagnostic.limitBefore (pos : Nat) (d : Diagnostic) : Bool :=
  d.code == Message.nestingTooDeep.code && d.start < pos

/-- If the node is complete, no node below it holds a placeholder, or only for operands where one of
the diagnostics says that the nesting is too deep before the node. -/
def Node.PlaceholdersReported (ds : List Diagnostic) (n : Node) : Prop :=
  n.extent.isComplete = true → ∀ path m, n.Reaches path m →
    m.kind.TypesWhole ∧ (m.kind.ValuesWhole ∨ ds.any (·.limitBefore n.start) = true)

/-- Where the limit of nesting was reached before a node, the diagnostics say so. -/
theorem NodeRead.limitBefore (h : NodeRead s n t) (hwarned : s.Warned)
    (hlimit : s.limitReported = true) (hlater : Later s u) (options : ParseOptions) :
    (options.placed u.diagnostics).any (·.limitBefore n.start) = true := by
  obtain ⟨d, hd, hcode, hlt⟩ := hwarned hlimit
  obtain ⟨l, ls, hrest⟩ := List.exists_cons_of_ne_nil (rest_ne_nil h.ne_endOfFile)
  have htoken : s.input.tokenAt 1 = l.token := by simp [Lookahead.tokenAt, hrest]
  have hbefore : d.limitBefore n.start = true := by
    have hlt := hlt l (by simp [hrest]) (htoken ▸ h.ne_endOfFile)
    rw [← htoken, ← h.start_eq] at hlt
    simp [Diagnostic.limitBefore, hcode, hlt]
  obtain ⟨ts, htokensRead⟩ := hlater
  have hmem : d ∈ u.diagnostics :=
    u.perm_diagnostics.mem_iff.mpr (List.mem_append_right _ (htokensRead.reports_subset hd))
  rw [options.any_placed _ fun _ _ => rfl]
  exact List.any_eq_true.mpr ⟨d, hmem, hbefore⟩

/-- Below what is read without an error, all is whole, or the limit of nesting was reached
before. -/
theorem NodesRead.placeholdersReported (h : NodesRead owners s ns t)
    (herrors : t.errorCount = s.errorCount) {n : Node}
    (hn : n ∈ ns) (hreach : n.Reaches path m) :
    m.kind.TypesWhole ∧ (s.limitReported = false → m.kind.ValuesWhole) := by
  have hgathers := h.gathers hn hreach
  refine ⟨hgathers.typesWhole fun _ _ hbelow => ?_,
    fun hlimit => hgathers.valuesWhole fun _ _ hbelow => ?_⟩
  · exact (h.whole herrors hn (hreach.trans hbelow)).1
  · exact (h.whole herrors hn (hreach.trans hbelow)).2 hlimit

theorem NodesReadIn.placeholdersReported
    (h : NodesReadIn text owners (.ofText mode text) ns t) (hc : c ∈ ns)
    (hreach : c.Reaches path n) (hlater : Later t u) (options : ParseOptions) :
    n.PlaceholdersReported (options.placed u.diagnostics) := by
  intro hcomplete inner m hm
  obtain ⟨_, s', t', hbefore, hnodeRead, hnodesRead, hbehind⟩ := h.nodesRead.sub hc hreach
  have herrors : t'.errorCount = s'.errorCount :=
    beq_iff_eq.mp (hnodeRead.complete_eq ▸ hcomplete)
  obtain ⟨htypes, hvalues⟩ :=
    hnodesRead.placeholdersReported herrors (List.mem_singleton_self n) hm
  refine ⟨htypes, ?_⟩
  cases hlimit : s'.limitReported with
  | false => exact .inl (hvalues hlimit)
  | true =>
    have hafter := hnodeRead.flows.later.trans (hbehind.later.trans hlater)
    exact .inr (hnodeRead.limitBefore
      (hbefore.warned text (at_ofText mode text) nofun) hlimit hafter
      options)

/-- What a module holds, and what its GLOBALS blocks declare, is declared in it. -/
theorem NodesReadIn.gathers_module {n : Node}
    (h : NodesReadIn text ⟨some .module, some .module⟩ (.ofText mode text) n.children t)
    (hkind : n.kind = .module (t.nameState.scope .module) t.nameState.globals functions imports) :
    n.Gathers := by
  intro d hd
  have hscopes : d ∈ (t.nameState.scope .module).declarations ∨
      d ∈ t.nameState.globals.declarations := by
    rw [hkind] at hd
    simpa [NodeKind.held, NodeKind.declarations, NodeKind.scopes] using hd
  obtain hd | hd := hscopes
  · exact (h.nodesRead.makes rfl (o := .module) .nil).lists.declared hd
  · rw [h.nodesRead.globals_eq] at hd
    obtain hd | ⟨scope, hscope, hd⟩ := Scope.mem_foldl_merge hd
    · cases hd
    · obtain ⟨⟨path, m⟩, hm, hglobals⟩ := List.mem_filterMap.mp hscope
      obtain ⟨c, hc, inner, hreach, -⟩ := (Node.mem_walkList [] _).mp hm
      have hlists := h.nodesRead.lists_below hc hreach (NodeKind.scope?_of_globals? hglobals)
      obtain ⟨path', m', hreach', hd⟩ := hlists.declared hd
      exact ⟨_, m', (hreach.of_child hc).trans hreach', hd⟩

/-- In a module that is read without an error, all is whole. -/
theorem NodesReadIn.whole_module {n : Node}
    (h : NodesReadIn text ⟨some .module, some .module⟩ (.ofText mode text) n.children t)
    (hkind : n.kind = .module (t.nameState.scope .module) t.nameState.globals functions imports)
    (herrors : t.errorCount = 0) (hreach : n.Reaches path m) :
    m.kind.TypesWhole ∧ m.kind.ValuesWhole := by
  have hown {path : List Node} {m : Node} (hreach : n.Reaches path m) :
      (∀ d ∈ m.kind.declarations, d.TypeWhole) ∧ m.kind.OperandsWhole := by
    obtain ⟨-, rfl⟩ | ⟨c, hc, path', hreach, -⟩ := hreach.root_or_below
    · rw [hkind]
      exact ⟨nofun, nofun, nofun⟩
    · obtain ⟨htypes, hvalues⟩ := h.nodesRead.whole herrors hc hreach
      exact ⟨htypes, hvalues rfl⟩
  obtain ⟨-, rfl⟩ | ⟨c, hc, path', hreach, -⟩ := hreach.root_or_below
  · have hgathers := h.gathers_module hkind
    exact ⟨hgathers.typesWhole fun _ _ hreach => (hown hreach).1,
      hgathers.valuesWhole fun _ _ hreach => (hown hreach).2⟩
  · obtain ⟨htypes, hvalues⟩ := h.nodesRead.placeholdersReported herrors hc hreach
    exact ⟨htypes, hvalues rfl⟩

/-- In what is read from a text, a node that is complete holds no placeholder, and neither does any
node below it. Only where an earlier diagnostic says that the nesting is too deep, operands can be
missing; types cannot. -/
theorem complete_node_whole (text : String) (options : ParseOptions) :
    (∀ path n, (parseModule text options).module.Reaches path n →
        n.PlaceholdersReported (parseModule text options).diagnostics) ∧
      ∀ c ∈ (parseStatements text options).statements, ∀ path n, c.Reaches path n →
        n.PlaceholdersReported (parseStatements text options).diagnostics := by
  constructor
  · intro path n hreach
    obtain ⟨s, hnodesReadIn, hkind, hextent, hdiagnostics⟩ := nodesRead_parseModule text options
    rw [hdiagnostics]
    obtain ⟨-, rfl⟩ | ⟨c, hc, path', hreach, -⟩ := hreach.root_or_below
    · intro hcomplete path m hreach
      rw [hextent] at hcomplete
      have herrors : s.errorCount = 0 :=
        Nat.le_zero.mp ((Later.read s).errorCount_le.trans (Nat.le_of_eq (beq_iff_eq.mp hcomplete)))
      obtain ⟨htypes, hvalues⟩ := hnodesReadIn.whole_module hkind herrors hreach
      exact ⟨htypes, .inl hvalues⟩
    · exact hnodesReadIn.placeholdersReported hc hreach (.read s) options
  · intro c hc path n hreach
    obtain ⟨s, hnodesReadIn, hdiagnostics⟩ := nodesRead_parseStatements text options
    rw [hdiagnostics]
    exact hnodesReadIn.placeholdersReported hc hreach (.refl s) options

/-- A statement behind one that is not complete. -/
theorem complete_node_whole_sleep :
    ∃ n ∈ (parseStatements "let a =\nsleep b + 1" {}).statements,
      n.extent.isComplete = true ∧ n.kind.expressions ≠ [] ∧ n.kind.ValuesWhole := by
  have hparsed : (∃ n ∈ (parseStatements "let a =\nsleep b + 1" {}).statements,
      n.extent.isComplete = true ∧ n.kind.expressions.length = 1) ∧
      ∀ d ∈ (parseStatements "let a =\nsleep b + 1" {}).diagnostics,
        d.code ≠ Message.nestingTooDeep.code := by decide +kernel
  obtain ⟨⟨n, hn, hcomplete, hlength⟩, hdeep⟩ := hparsed
  obtain ⟨-, hwhole | hlimit⟩ :=
    (complete_node_whole _ {}).2 n hn [] n .root hcomplete [] n .root
  · exact ⟨n, hn, hcomplete, List.ne_nil_of_length_pos (hlength ▸ Nat.one_pos), hwhole⟩
  · obtain ⟨d, hd, hbefore⟩ := List.any_eq_true.mp hlimit
    exact absurd (beq_iff_eq.mp (Bool.and_eq_true_iff.mp hbefore).1) (hdeep d hd)

-- Behind the report, an operand that is nested too deep is missing without an error.
example :
    let (e, t) := (expectExpression 1).run
      { ParseState.ofText .default "+1" with limitReported := true }
    e.isWhole = false ∧ t.errorCount = 0 := by decide +kernel

end FourGL
