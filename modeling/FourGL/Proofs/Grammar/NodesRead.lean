import FourGL.Proofs.Grammar.NameState
import FourGL.Proofs.Tree.Extents

/-!
# How nodes are read

How a row of nodes comes about together with what is written down about names: `NodesRead owners s
ns t` says that the nodes `ns` are read between the states `s` and `t`, and how each of them changes
the name state. A leaf writes down its own declarations, a loop over a cursor claims what redeclares
it, and a routine or a GLOBALS block collects names of its own. Every body is read so
(`readsBodyNodes`); what the tree and the diagnostics say about names is proved by induction on it.
-/

namespace FourGL

open FourGL.Parser FourGL.ParseState

/-! ## Nodes that are read -/

/-- A parser of nodes reads the node from one state to the other, behind its first token. -/
inductive Parser.Reads (o : Opening) (s : ParseState) (n : Node) (t : ParseState) : Prop where
  | statement (hrun : (formWith levels (bodyAt levels) f word ctx o).run s = (n, t))
      (hform : n.kind.form? = some f)
  | caseClause (hrun : (caseClause levels (bodyAt levels) ctx before o).run s = (n, t))
  | menuClause (hrun : (menuClause levels (bodyAt levels) ctx o).run s = (n, t))
  | branch (hkind : kind = .elseClause ∨ kind = .catchClause)
      (hrun : (branch (bodyAt levels) ctx k kind o).run s = ((n, stop), t))

/-- The node is read from the state `s` on, where its first token comes next, up to the state
`t`. -/
structure NodeRead (s : ParseState) (n : Node) (t : ParseState) : Prop where
  ne_endOfFile : s.kindAt 1 ≠ .endOfFile
  start_eq : n.start = (s.input.tokenAt 1).start
  complete_eq : n.extent.isComplete = (t.errorCount == s.errorCount)
  read : ∃ u, Looks s u ∧ Reads ⟨u.read.input.last, s.errorCount⟩ u.read n t

/-- How a node that holds others changes the name state: `l` is the name state before it, `l₁` and
`l₂` are those before and behind what it holds, which belongs to the owners `inner`, and `l'` is
the name state behind it. -/
inductive Encloses (owners : Owners) :
    NodeKind → Owners → NameState → NameState → NameState → NameState → Prop where
  | plain (hkind : kind.isTransparent = true) (hbefore : l₁ = l) (hbehind : l' = l₂) :
      Encloses owners kind owners l l₁ l₂ l'
  | loop (hkind : kind = .foreachLoop cursor arguments into reoptimization l₂.redeclared)
      (hbefore : l₁ = l.enterLoop (cursor.getD "")) (hbehind : l' = l₂.leaveLoop) :
      Encloses owners kind owners l l₁ l₂ l'
  | routine (howners : owners = ⟨some .module, some .module⟩)
      (hkind : kind.block? = some .MAIN ∨ kind.block? = some .FUNCTION)
      (hscope : kind.scope? = some (l₂.scope .block)) (hbefore : l₁ = l.enterBlock)
      (hbehind : l' = l.leaveBlock l₂) :
      Encloses owners kind ⟨some .block, some .block⟩ l l₁ l₂ l'
  | globals (howners : owners = ⟨some .module, some .module⟩)
      (hkind : kind = .globals (l₂.scope .block)) (hbefore : l₁ = l.enterBlock)
      (hbehind : l' = (l.leaveBlock l₂).mergeGlobals (l₂.scope .block)) :
      Encloses owners kind ⟨some .block, some .module⟩ l l₁ l₂ l'

/-- The nodes are read one behind the other between two states, where what they declare belongs to
the owners. -/
inductive NodesRead : Owners → ParseState → List Node → ParseState → Prop where
  | idle (hflows : Flows s t) (hnameState : t.nameState = s.nameState) : NodesRead owners s [] t
  | append (hfirst : NodesRead owners s ns t) (hsecond : NodesRead owners t ms u) :
      NodesRead owners s (ns ++ ms) u
  | leaf (hnodeRead : NodeRead s n t) (hkind : n.kind.block? = none) (hscope : n.kind.scope? = none)
      (hchildren : n.children = [])
      (hcursor : ∀ {c}, n.kind.cursor? (s.input.tokenAt 2).span = some c →
        owners.cursors ≠ some .module ∧ c.NamedBy (s.input.tokenAt 2))
      (hnameState : t.nameState = s.nameState.note owners (s.input.tokenAt 2).span n.kind) :
      NodesRead owners s [n] t
  | node {inner : Owners} (hnodeRead : NodeRead s n t) (hbefore : Flows s s₁)
      (hinner : NodesRead inner s₁ n.children s₂) (hbehind : Flows s₂ t)
      (hencloses : Encloses owners n.kind inner s.nameState s₁.nameState
        s₂.nameState t.nameState) :
      NodesRead owners s [n] t

/-- The node holds others that are read between two states. -/
def Holds (owners : Owners) (s : ParseState) (n : Node) (t : ParseState) : Prop :=
  ∃ inner s₁ s₂, Flows s s₁ ∧ NodesRead inner s₁ n.children s₂ ∧ Flows s₂ t ∧
    Encloses owners n.kind inner s.nameState s₁.nameState s₂.nameState t.nameState

/-- The node is closed in the state behind its opening. -/
structure Parser.Ends (o : Opening) (n : Node) (t : ParseState) : Prop where
  start_eq : n.start = o.token.start
  complete_eq : n.extent.isComplete = (t.errorCount == o.errors)

theorem Parser.ends_closeNode (h : (closeNode o header kind nodes).run s = (n, t)) :
    Ends o n t := by
  obtain ⟨rfl, rfl⟩ := Prod.mk.inj h
  exact ⟨rfl, rfl⟩

theorem Account.ends_statement (h : Account (.statement levels ctx o s n t)) : Ends o n t := by
  cases h with
  | leaf _ _ hclose =>
    obtain ⟨rfl, rfl⟩ := Prod.mk.inj hclose
    exact ⟨rfl, rfl⟩
  | block _ _ _ _ _ _ _ _ hclose => exact ends_closeNode hclose

theorem Account.children_of_leaf (h : Account (.statement levels ctx o s n t))
    (hleaf : n.kind.block? = none) : n.children = [] := by
  cases h with
  | leaf _ _ hclose => exact (closeStatement_eq hclose).2.2
  | block _ _ _ _ _ _ _ hkind hclose =>
    rw [(closeNode_eq hclose).2.1, hkind] at hleaf
    cases hleaf

theorem Account.ends_clause (h : Account (.clause levels ctx region o s n stop t)) :
    Ends o n t := by
  cases h with
  | clause _ _ _ _ _ hclose => exact ends_closeNode hclose

theorem Parser.Reads.flows (h : Reads o s n t) : ParseState.Flows s t := by
  cases h with
  | statement hrun | caseClause hrun | menuClause hrun | branch _ hrun =>
    exact Flows.of_run inferInstance hrun

namespace NodeRead

theorem of_run (hne : s.kindAt 1 ≠ .endOfFile) (hlook : Looks s u)
    (hreads : Reads ⟨u.read.input.last, s.errorCount⟩ u.read n t)
    (hends : Ends ⟨u.read.input.last, s.errorCount⟩ n t) : NodeRead s n t where
  ne_endOfFile := hne
  start_eq := by rw [hends.start_eq, last_read, hlook.tokenAt]
  complete_eq := hends.complete_eq
  read := ⟨u, hlook, hreads⟩

theorem flows (h : NodeRead s n t) : Flows s t := by
  obtain ⟨u, hlook, hreads⟩ := h.read
  exact hlook.flows.trans ((ParseState.Flows.read u).trans hreads.flows)

/-- The node starts behind what has been read before it, and is read beyond its start. -/
theorem place_le (h : NodeRead s n t) (hat : At text s) :
    s.place ≤ n.start ∧ n.start < t.place := by
  obtain ⟨u, hlook, hreads⟩ := h.read
  have hon := hat.looks hlook
  obtain ⟨hle, hlt⟩ := hon.1.read_token (hlook.kindAt 1 ▸ h.ne_endOfFile)
  have hplace := (hreads.flows.later.onward hon.1.read.1).2
  rw [last_read, hlook.tokenAt, ← h.start_eq] at hle hlt
  exact ⟨hlook.place ▸ hle, Nat.lt_of_lt_of_le hlt hplace⟩

/-- The node is put behind those that start before the place where it is read. -/
theorem insert_eq (h : NodeRead s n t) (hat : At text s) (hns : ∀ m ∈ ns, m.start < s.place) :
    n.insert ns = ns ++ [n] ∧ At text t ∧ ∀ m ∈ ns ++ [n], m.start < t.place := by
  obtain ⟨hle, hlt⟩ := h.place_le hat
  have honward := h.flows.later.onward hat
  have happend : n.Appends ns := Node.appends_of_lt fun m hm => Nat.lt_of_lt_of_le (hns m hm) hle
  refine ⟨happend, honward.1, List.forall_mem_append.mpr ⟨fun m hm => ?_, ?_⟩⟩
  · exact Nat.lt_of_lt_of_le (hns m hm) honward.2
  · exact List.forall_mem_singleton.mpr hlt

end NodeRead

theorem NodesRead.flows (h : NodesRead owners s ns t) : Flows s t := by
  induction h with
  | idle hflows => exact hflows
  | append _ _ ih₁ ih₂ => exact ih₁.trans ih₂
  | leaf hnodeRead => exact hnodeRead.flows
  | node hnodeRead => exact hnodeRead.flows

/-- A node that holds others writes down nothing itself. -/
theorem Encloses.writes_nothing {inner : Owners} (h : Encloses owners kind inner l l₁ l₂ l') :
    kind.declarations = [] ∧ ∀ span, kind.cursor? span = none := by
  cases h with
  | plain hkind => cases kind <;> first | exact ⟨rfl, fun _ => rfl⟩ | cases hkind
  | loop hkind => rw [hkind]; exact ⟨rfl, fun _ => rfl⟩
  | routine _ _ hscope => cases kind <;> first | exact ⟨rfl, fun _ => rfl⟩ | cases hscope
  | globals _ hkind => rw [hkind]; exact ⟨rfl, fun _ => rfl⟩

/-- What is read belongs to its owners; a routine or a GLOBALS block leaves no trace of its own. -/
theorem NodesRead.scope_eq (h : NodesRead owners s ns t) (hvars : owners.vars ≠ some o)
    (hcursors : owners.cursors = some o → o = .module) :
    t.nameState.scope o = s.nameState.scope o := by
  induction h with
  | idle _ hnameState => rw [hnameState]
  | append _ _ ih₁ ih₂ => rw [ih₂ hvars hcursors, ih₁ hvars hcursors]
  | leaf _ _ _ _ hcursor hnameState =>
    rw [hnameState, NameState.note]
    split
    next c hc =>
      refine (NameState.bound_bind _ _ _).scope_eq o fun howner => ?_
      exact (hcursor hc).1 (hcursors howner ▸ howner)
    next => exact (NameState.changesOnly_declareAll _ _ _).scope_eq o hvars
  | node _ _ _ _ hencloses ih =>
    -- The scope of the block around is handed back as it was.
    have hblock {l l₂ : NameState} (hinner : o ≠ .block →
      l₂.scope o = l.enterBlock.scope o) :
        (l.leaveBlock l₂).scope o = l.scope o := by
      rw [NameState.scope_leaveBlock]
      split
      · rfl
      next ho => rw [hinner ho, NameState.scope_enterBlock, if_neg ho]
    cases hencloses with
    | plain _ hbefore hbehind => rw [hbehind, ih hvars hcursors, hbefore]
    | loop _ hbefore hbehind =>
      rw [hbehind, NameState.scope_leaveLoop, ih hvars hcursors, hbefore, NameState.scope_enterLoop]
    | routine _ _ _ hbefore hbehind =>
      rw [hbehind]
      refine hblock fun ho => ?_
      have hne : some Owner.block ≠ some o := fun h => ho (Option.some.inj h).symm
      rw [ih hne (fun h => absurd h hne), hbefore]
    | globals _ _ hbefore hbehind =>
      rw [hbehind, NameState.scope_mergeGlobals]
      refine hblock fun ho => ?_
      rw [ih (fun h => ho (Option.some.inj h).symm) (fun h => (Option.some.inj h).symm), hbefore]

/-- The nodes are read up to a place in a text, and all of them start before it. -/
structure NodesReadIn (text : String) (owners : Owners) (s : ParseState) (ns : List Node)
    (t : ParseState) : Prop where
  nodesRead : NodesRead owners s ns t
  at_text : At text t
  start_lt : ∀ m ∈ ns, m.start < t.place

namespace NodesReadIn

theorem nil (hat : At text s) : NodesReadIn text owners s [] s :=
  ⟨.idle (.refl s) rfl, hat, nofun⟩

theorem onward (h : NodesReadIn text owners s ns t) (hflows : Flows t u)
    (hnameState : u.nameState = t.nameState) :
    NodesReadIn text owners s ns u := by
  have honward := hflows.later.onward h.at_text
  refine ⟨?_, honward.1, fun m hm => Nat.lt_of_lt_of_le (h.start_lt m hm) honward.2⟩
  exact List.append_nil ns ▸ h.nodesRead.append (.idle hflows hnameState)

/-- The next node is put behind those before it. -/
theorem add (h : NodesReadIn text owners s ns t) (hnodeRead : NodeRead t n u)
    (hn : NodesRead owners t [n] u) :
    NodesReadIn text owners s (n.insert ns) u := by
  obtain ⟨hinsert, hat, hstarts⟩ := hnodeRead.insert_eq h.at_text h.start_lt
  rw [hinsert]
  exact ⟨h.nodesRead.append hn, hat, hstarts⟩

end NodesReadIn

namespace Parser

/-- The parser reads a node that holds others, behind a part of its header. -/
structure ReadsBlock (owners : Owners) (p : Parser Node) : Prop where
  holds : ∀ {text s n t}, At text s → p.run s = (n, t) → Holds owners s n t

namespace ReadsBlock

theorem behind {p : Parser α} {f : α → Parser Node} [hp : p.KeepsNames]
    (hf : ∀ a, (f a).ReadsBlock owners) :
    (p >>= f).ReadsBlock owners := by
  constructor
  intro text s n t hat hrun
  obtain ⟨a, u, hfirst, hrun⟩ := run_of_bind hrun
  have hflows := Flows.of_run hp.toFlows hfirst
  obtain ⟨inner, s₁, s₂, hbefore, hinner, hbehind, hencloses⟩ :=
    (hf a).holds (hflows.later.onward hat).1 hrun
  rw [hp.of_run hfirst] at hencloses
  exact ⟨inner, s₁, s₂, hflows.trans hbefore, hinner, hbehind, hencloses⟩

theorem ite {c : Prop} [Decidable c] {p q : Parser Node} (hp : p.ReadsBlock owners)
    (hq : q.ReadsBlock owners) : (if c then p else q).ReadsBlock owners := by
  split
  · exact hp
  · exact hq

end ReadsBlock

end Parser

/-! ## Where forms can stand -/

/-- Where variables belong to the module stand its members, where cursors would belong to it only
members and declarations. -/
structure Owners.Allows (owners : Owners) (f : Form) : Prop where
  member : f.isMember = true → owners = ⟨some .module, some .module⟩
  statement : owners.cursors = some .module → f.isMember = true ∨ f.isDeclaration = true

/-- The owners of a context allow the forms that stand in it. -/
structure Context.Admits (ctx : Context) (ps : List Production) : Prop where
  extra : ∀ p ∈ ctx.extra, p.form = .menuControl ∧ ctx.cursors ≠ some .module
  forms : ∀ p ∈ ps, ctx.owners.Allows p.form

namespace Context.Admits

theorem allows {ctx : Context} (h : ctx.Admits ps) {p : Production} (hp : p ∈ ctx.extra ++ ps) :
    ctx.owners.Allows p.form := by
  obtain hp | hp := List.mem_append.mp hp
  · obtain ⟨hform, hcursors⟩ := h.extra p hp
    rw [hform]
    exact ⟨nofun, fun h => absurd h hcursors⟩
  · exact h.forms p hp

theorem extra_eq_nil {ctx : Context} (h : ctx.Admits ps)
    (howners : ctx.owners = ⟨some .module, some .module⟩) : ctx.extra = [] :=
  List.eq_nil_iff_forall_not_mem.mpr fun p hp =>
    (h.extra p hp).2 (congrArg Owners.cursors howners)

/-- Statements are admitted wherever cursors do not belong to the module. -/
theorem statements {ctx : Context} (hextra : ∀ p ∈ ctx.extra, p.form = .menuControl)
    (hcursors : ctx.cursors ≠ some .module) : ctx.Admits Production.statements where
  extra p hp := ⟨hextra p hp, hcursors⟩
  forms p hp := by
    have hmember : ∀ p ∈ Production.statements, p.form.isMember = false := by decide
    refine ⟨fun h => ?_, fun h => absurd h hcursors⟩
    rw [hmember p hp] at h
    cases h

/-- Declarations are admitted inside a GLOBALS block. -/
theorem globals {ctx : Context} (hextra : ctx.extra = []) :
    ctx.insideGlobals.Admits Production.globalsMembers where
  extra p hp := by
    rw [show ctx.insideGlobals.extra = ctx.extra from rfl, hextra] at hp
    cases hp
  forms p hp := by
    have hforms : ∀ p ∈ Production.globalsMembers,
        p.form.isMember = false ∧ p.form.isDeclaration = true := by decide
    refine ⟨fun h => ?_, fun _ => .inr (hforms p hp).2⟩
    rw [(hforms p hp).1] at h
    cases h

theorem members (version : Version) : (Context.root version).Admits Production.members where
  extra := nofun
  forms p hp := by
    refine ⟨fun _ => rfl, fun _ => ?_⟩
    revert p
    decide

end Context.Admits

namespace Parser

/-- What bodies return is read so where `levels` levels of nesting are left. -/
structure ReadsBodyNodes (levels : Nat) : Prop where
  nodesReadIn : ∀ {ctx region text s ns stop t}, (bodyAt levels ctx region).run s =
    ((ns, stop), t) →
    At text s → ctx.Admits region.productions → keepsNames.Ignores region.unexpected →
    NodesReadIn text ctx.owners s ns t

/-! ## What happens inside and behind -/

/-- What stands inside a loop over a cursor is read with that loop as the innermost one. -/
theorem run_insideCursorLoop {p : Parser α}
    (h : (insideCursorLoop cursor p).run s = ((a, redeclared), t)) :
    ∃ s₂,
      p.run { s with names := { s.names with loops := { name := cursor } :: s.names.loops } } =
        (a, s₂) ∧
      redeclared = (s₂.names.loops.head?.map (·.redeclared)).getD [] ∧
      t = { s₂ with names := { s₂.names with loops := s₂.names.loops.tail } } := by
  obtain ⟨hresult, rfl⟩ := Prod.mk.inj h
  obtain ⟨rfl, rfl⟩ := Prod.mk.inj hresult
  exact ⟨_, rfl, rfl, rfl⟩

/-- What stands inside a routine or a GLOBALS block is read with names of its own. -/
theorem run_insideBlock {p : Parser α} (h : (insideBlock p).run s = ((a, held), t)) :
    ∃ s₂, p.run { s with names := { s.names with block := {}, loops := [] } } = (a, s₂) ∧
      held = s₂.names.block ∧
      t = { s₂ with
        names := { s₂.names with block := s.names.block, loops := s.names.loops } } := by
  obtain ⟨hresult, rfl⟩ := Prod.mk.inj h
  obtain ⟨rfl, rfl⟩ := Prod.mk.inj hresult
  exact ⟨_, rfl, rfl, rfl⟩

/-- A second branch, if there is one, is a node behind the first branch, and holds a body. -/
theorem run_secondBranch {k word : Keyword} {kind : NodeKind}
    (hkind : kind = .elseClause ∨ kind = .catchClause) {first second : List Node × Stop}
    (hstops : first.2 = .stopToken (.keyword word) → s.kindAt 1 ≠ .endOfFile)
    (h : (secondBranch (bodyAt levels) ctx k word kind first).run s = (second, t)) :
    second = first ∧ t = s ∨ ∃ n stop, second.1 = n.insert first.1 ∧ NodeRead s n t ∧
    n.kind = kind ∧
      (statementsUpTo (bodyAt levels) ctx k).run s.read = ((n.children, stop), t) := by
  unfold secondBranch at h
  split at h
  next hstop =>
    obtain ⟨errors, u, herrors, h⟩ := run_of_bind h
    obtain ⟨rfl, rfl⟩ := Prod.mk.inj herrors
    obtain ⟨token, u, hread, h⟩ := run_of_bind h
    obtain ⟨rfl, rfl⟩ := Prod.mk.inj hread
    obtain ⟨⟨n, stop⟩, u, hbranch, h⟩ := run_of_bind h
    obtain ⟨rfl, rfl⟩ := Prod.mk.inj h
    have hreads : Reads ⟨s.read.input.last, s.errorCount⟩ s.read n u := .branch hkind hbranch
    obtain ⟨header, v, hheader, h⟩ := run_of_bind hbranch
    obtain ⟨-, rfl⟩ := Prod.mk.inj hheader
    obtain ⟨⟨ns, stop'⟩, w, hinner, h⟩ := run_of_bind h
    obtain ⟨m, x, hclose, h⟩ := run_of_bind h
    obtain ⟨hresult, rfl⟩ := Prod.mk.inj h
    obtain ⟨rfl, rfl⟩ := Prod.mk.inj hresult
    have hnodeRead : NodeRead s m x :=
      .of_run (hstops hstop) (.refl s) hreads (ends_closeNode hclose)
    obtain ⟨rfl, hkind, rfl⟩ := closeNode_eq hclose
    exact .inr ⟨m, _, rfl, hnodeRead, hkind, hinner⟩
  next =>
    obtain ⟨rfl, rfl⟩ := Prod.mk.inj h
    exact .inl ⟨rfl, rfl⟩

theorem stops_bodyAt (h : (bodyAt levels ctx region).run s = ((ns, stop), t)) :
    Stops ctx region.terminator t stop := by
  have haccount := accountsBodies levels ctx region s
  rw [h] at haccount
  exact haccount.stops_body

theorem ends_caseClause (h : (caseClause levels (bodyAt levels) ctx before o).run s = (n, t)) :
    Ends o n t := by
  obtain ⟨stop, haccount⟩ := accountsClause_caseClause (accountsBodies levels) ctx o before s
  rw [h] at haccount
  exact haccount.ends_clause

theorem ends_menuClause (hfound : startsMenuClause.run s = (true, t))
    (h : (menuClause levels (bodyAt levels) ctx ⟨t.read.input.last, errors⟩).run t.read =
      (n, u)) :
    Ends ⟨t.read.input.last, errors⟩ n u := by
  have hcommand : t.read.input.last.kind = .keyword .COMMAND ∨ t.read ∈ careful := by
    rw [last_read]
    exact startsMenuClause_found hfound
  obtain ⟨stop, haccount⟩ := accountsClause_menuClause (accountsBodies levels) ctx
    ⟨t.read.input.last, errors⟩ hcommand
  rw [h] at haccount
  exact haccount.ends_clause

/-- Inside a loop over a cursor, the loop claims what redeclares it. -/
theorem nameState_insideCursorLoop {p : Parser α}
    (h : (insideCursorLoop cursor p).run s = ((a, redeclared), t)) :
    ∃ s₁ s₂, ParseState.Flows s s₁ ∧ s₁.nameState = s.nameState.enterLoop cursor ∧
      p.run s₁ = (a, s₂) ∧
      ParseState.Flows s₂ t ∧ redeclared = s₂.nameState.redeclared ∧
      t.nameState = { s₂.nameState with loops := s₂.nameState.loops.tail } := by
  obtain ⟨s₂, hrun, rfl, rfl⟩ := run_insideCursorLoop h
  exact ⟨_, s₂, .rename s _, rfl, hrun, .rename s₂ _, rfl, rfl⟩

/-- Inside a routine or a GLOBALS block, names are its own. -/
theorem nameState_insideBlock {p : Parser α} (h : (insideBlock p).run s = ((a, held), t)) :
    ∃ s₁ s₂, ParseState.Flows s s₁ ∧ s₁.nameState = s.nameState.enterBlock ∧
      p.run s₁ = (a, s₂) ∧
      ParseState.Flows s₂ t ∧ held.scope = s₂.nameState.scope .block ∧
      t.nameState = s.nameState.leaveBlock s₂.nameState := by
  obtain ⟨s₂, hrun, rfl, rfl⟩ := run_insideBlock h
  refine ⟨_, s₂, .rename s _, ?_, hrun, .rename s₂ _, rfl, ?_⟩
  · exact nameState_set { s with names := { s.names with loops := [] } } {} .block
  · exact nameState_set { s₂ with names := { s₂.names with loops := s.names.loops } }
      s.names.block .block

section

variable {levels : Nat} (hbody : ReadsBodyNodes levels) {ctx : Context} (o : Opening)
include hbody

/-! ## Blocks with one body -/

theorem readsBlock_simpleBlock (k : Keyword) {kind : NodeKind} (hkind : kind.isTransparent = true)
    (hctx : ctx.Admits Production.statements) :
    (simpleBlock (bodyAt levels) ctx o k kind).ReadsBlock ctx.owners := by
  refine .behind fun header => ?_
  constructor
  intro text s n t hat hrun
  obtain ⟨⟨ns, stop⟩, s₂, hinner, hrun⟩ := run_of_bind hrun
  obtain ⟨⟨⟩, t', hend, hclose⟩ := run_of_bind hrun
  obtain ⟨rfl, rfl, rfl⟩ := closeNode_eq hclose
  exact ⟨ctx.owners, s, s₂, .refl s,
    (hbody.nodesReadIn hinner hat hctx inferInstance).nodesRead,
    Flows.of_run inferInstance hend, .plain hkind rfl (KeepsNames.of_run inferInstance hend)⟩

theorem readsBlock_clauseBody {kind : NodeKind} (hkind : kind.isTransparent = true)
    (hctx : ctx.Admits Production.statements) :
    (clauseBody (bodyAt levels) ctx o kind).ReadsBlock ctx.owners := by
  refine .behind fun header => ?_
  constructor
  intro text s n t hat hrun
  obtain ⟨⟨ns, stop⟩, s₂, hinner, hclose⟩ := run_of_bind hrun
  obtain ⟨rfl, rfl, rfl⟩ := closeNode_eq hclose
  exact ⟨ctx.owners, s, _, .refl s,
    (hbody.nodesReadIn hinner hat hctx inferInstance).nodesRead, .refl _,
    .plain hkind rfl rfl⟩

omit hbody in
theorem nameState_reportRedeclared (cs : List Cursor) (s : ParseState) :
    ((reportRedeclared cs).run s).2.nameState = { s.nameState with
      told := (cs.map fun c => .of .cursorRedeclared [c.name] (some c.span)).reverse ++
        s.nameState.told } := by
  induction cs generalizing s with
  | nil => rfl
  | cons c cs ih =>
    have hfirst : ((report .cursorRedeclared [c.name] c.span).run s).2.nameState =
        { s.nameState with
        told := .of .cursorRedeclared [c.name] (some c.span) :: s.nameState.told } := rfl
    unfold reportRedeclared
    rw [run_bind, ih, hfirst]
    simp

theorem readsBlock_cursorLoop (cursor : Option String) (arguments : List Expression)
    (into : List Designator) (reoptimization : Bool)
    (hctx : (ctx.insideLoop .FOREACH).Admits Production.statements) :
    (cursorLoop (bodyAt levels) ctx o (cursor.getD "")
      (.foreachLoop cursor arguments into reoptimization)).ReadsBlock ctx.owners := by
  refine .behind fun header => ?_
  constructor
  intro text s n t hat hrun
  obtain ⟨⟨⟨ns, stop⟩, redeclared⟩, u, hinside, hrun⟩ := run_of_bind hrun
  obtain ⟨s₁, s₂, hbefore, henter, hinner, hbehind, rfl, hleave⟩ :=
    nameState_insideCursorLoop hinside
  obtain ⟨⟨⟩, v, hreport, hrun⟩ := run_of_bind hrun
  obtain ⟨⟨⟩, t', hend, hclose⟩ := run_of_bind hrun
  obtain ⟨rfl, hkind, rfl⟩ := closeNode_eq hclose
  have htold := nameState_reportRedeclared s₂.nameState.redeclared u
  rw [hreport, hleave] at htold
  exact ⟨_, s₁, s₂, hbefore,
    (hbody.nodesReadIn hinner (hbefore.later.onward hat).1 hctx inferInstance).nodesRead,
    hbehind.trans ((Flows.of_run inferInstance hreport).trans (Flows.of_run inferInstance hend)),
    .loop hkind henter ((KeepsNames.of_run inferInstance hend).trans htold)⟩

theorem readsBlock_routineBlock (header : Nat) {k : Keyword} (returns : Option Owner)
    {kind : Holding → NodeKind} (hkind : ∀ held, (kind held).block? = some k)
    (hk : k = .MAIN ∨ k = .FUNCTION) (hscope : ∀ held, (kind held).scope? = some held.scope)
    (howners : ctx.owners = ⟨some .module, some .module⟩) :
    (routineBlock (bodyAt levels) ctx o header k returns kind).ReadsBlock ctx.owners := by
  constructor
  intro text s n t hat hrun
  obtain ⟨⟨⟨ns, stop⟩, held⟩, u, hinside, hrun⟩ := run_of_bind hrun
  obtain ⟨s₁, s₂, hbefore, henter, hinner, hbehind, hheld, hleave⟩ :=
    nameState_insideBlock hinside
  obtain ⟨⟨⟩, t', hend, hclose⟩ := run_of_bind hrun
  obtain ⟨rfl, hn, rfl⟩ := closeNode_eq hclose
  have hctx : (ctx.routine (.keyword k) returns).Admits Production.statements :=
    .statements nofun nofun
  refine ⟨_, s₁, s₂, hbefore,
    (hbody.nodesReadIn hinner (hbefore.later.onward hat).1 hctx inferInstance).nodesRead,
    hbehind.trans (Flows.of_run inferInstance hend), .routine howners ?_ ?_ henter
      ((KeepsNames.of_run inferInstance hend).trans hleave)⟩
  · rw [hn, hkind]
    simpa using hk
  · rw [hn, hscope, hheld]

theorem readsBlock_globalsBlock (hextra : ctx.extra = [])
    (howners : ctx.owners = ⟨some .module, some .module⟩) :
    (globalsBlock (bodyAt levels) ctx o).ReadsBlock ctx.owners := by
  refine .behind fun header => ?_
  constructor
  intro text s n t hat hrun
  obtain ⟨⟨⟨ns, stop⟩, held⟩, u, hinside, hrun⟩ := run_of_bind hrun
  obtain ⟨s₁, s₂, hbefore, henter, hinner, hbehind, hheld, hleave⟩ :=
    nameState_insideBlock hinside
  obtain ⟨⟨⟩, v, hend, hrun⟩ := run_of_bind hrun
  obtain ⟨⟨⟩, w, hmerge, hclose⟩ := run_of_bind hrun
  obtain ⟨rfl, hn, rfl⟩ := closeNode_eq hclose
  have hnodesRead := (hbody.nodesReadIn hinner (hbefore.later.onward hat).1
    (.globals hextra) inferInstance).nodesRead
  rw [show ctx.insideGlobals.owners = ⟨some .block, ctx.owners.cursors⟩ from rfl,
    howners] at hnodesRead
  refine ⟨_, s₁, s₂, hbefore, hnodesRead,
    hbehind.trans ((Flows.of_run inferInstance hend).trans
      (Flows.of_run inferInstance hmerge)), .globals howners ?_ henter ?_⟩
  · rw [hn, hheld]
  · obtain rfl := (Prod.mk.inj hmerge).2
    rw [← hleave, ← hheld, ← KeepsNames.of_run inferInstance hend]
    rfl

/-! ## Two branches -/

/-- A second branch, if there is one, is put behind the first. -/
theorem nodesRead_secondBranch {k word : Keyword} {kind : NodeKind}
    (hkind : kind = .elseClause ∨ kind = .catchClause) {first second : List Node × Stop}
    (hctx : ctx.Admits Production.statements) (hfirst : NodesReadIn text ctx.owners s first.1 t)
    (hstops : first.2 = .stopToken (.keyword word) → t.kindAt 1 ≠ .endOfFile)
    (hrun : (secondBranch (bodyAt levels) ctx k word kind first).run t = (second, u)) :
    NodesReadIn text ctx.owners s second.1 u := by
  obtain ⟨rfl, rfl⟩ | ⟨n, stop, hinsert, hnodeRead, rfl, hinner⟩ :=
    run_secondBranch hkind hstops hrun
  · exact hfirst
  have hnodesRead := (hbody.nodesReadIn hinner hfirst.at_text.read.1 hctx inferInstance).nodesRead
  rw [hinsert]
  refine hfirst.add hnodeRead (.node hnodeRead (.read t) hnodesRead (.refl _) (.plain ?_ rfl rfl))
  obtain h | h := hkind <;> rw [h] <;> rfl

theorem readsBlock_branchedBlock (k word : Keyword) {kind branchKind : NodeKind}
    (hkind : kind.isTransparent = true)
    (hbranch : branchKind = .elseClause ∨ branchKind = .catchClause)
    (hctx : ctx.Admits Production.statements) :
    (branchedBlock (bodyAt levels) ctx o k word kind branchKind).ReadsBlock ctx.owners := by
  refine .behind fun header => ?_
  constructor
  intro text s n t hat hrun
  obtain ⟨⟨ns, stop⟩, u, hfirst, hrun⟩ := run_of_bind hrun
  obtain ⟨⟨ms, stop'⟩, s₂, hsecond, hrun⟩ := run_of_bind hrun
  obtain ⟨⟨⟩, t', hend, hclose⟩ := run_of_bind hrun
  obtain ⟨rfl, rfl, rfl⟩ := closeNode_eq hclose
  have hnodesReadIn := hbody.nodesReadIn hfirst hat ⟨hctx.extra, hctx.forms⟩ inferInstance
  have hinner : (ctx.withEnd (.keyword k)).Admits Production.statements :=
    ⟨hctx.extra, hctx.forms⟩
  have hnodesReadIn := nodesRead_secondBranch hbody hbranch hinner hnodesReadIn
    (fun hstop => ?_) hsecond
  · exact ⟨_, s, s₂, .refl s, hnodesReadIn.nodesRead, Flows.of_run inferInstance hend,
      .plain hkind rfl (KeepsNames.of_run inferInstance hend)⟩
  · obtain rfl : stop = _ := hstop
    exact (stops_bodyAt hfirst).ne_endOfFile

/-! ## Clauses -/

omit hbody in
/-- A list of clauses is read so if each of them is. -/
theorem nodesRead_clauses {k : Keyword} {starts : Parser Bool} [starts.KeepsNames]
    (hstarts : starts.Peeks) {outer : Context} {clause : List Node → Opening → Parser Node}
    (hclause : ∀ before o, (clause before o).ReadsBlock ctx.owners)
    (hreads : ∀ before s t errors n u, starts.run s = (true, t) →
      (clause before ⟨t.read.input.last, errors⟩).run t.read = (n, u) →
      Reads ⟨t.read.input.last, errors⟩ t.read n u ∧ Ends ⟨t.read.input.last, errors⟩ n u)
    (hat : At text s)
    (hrun : (clauses outer (.keyword k) starts clause).run s = ((ns, stop), t)) :
    NodesReadIn text ctx.owners s ns t := by
  have hround : ∀ a b, ClauseRound outer (.keyword k) starts clause a b →
      NodesReadIn text ctx.owners s a.1.nodes a.2 →
      NodesReadIn text ctx.owners s b.1.nodes b.2 := by
    intro a b hround hnodesReadIn
    cases hround with
    | @clause n u p s' s₁ t hpass hlook hfound hrun =>
      have hlook' := hlook.trans (hstarts.of_run hfound)
      have hread := hlook'.flows.trans (ParseState.Flows.read t)
      obtain ⟨hreads, hends⟩ := hreads p.nodes s₁ t s'.errorCount n u hfound hrun
      obtain ⟨inner, s₂, s₃, hbefore, hinner, hbehind, hencloses⟩ :=
        (hclause p.nodes ⟨t.read.input.last, s'.errorCount⟩).holds
          (hread.later.onward hnodesReadIn.at_text).1 hrun
      rw [show t.read.nameState = s'.nameState from hlook'.nameState] at hencloses
      have hnodeRead : NodeRead s' n u := .of_run hpass.ne_endOfFile hlook' hreads hends
      exact hnodesReadIn.add hnodeRead
        (.node hnodeRead (hread.trans hbefore) hinner hbehind hencloses)
    | unexpected hpass hlook hfound hmem hlook' hskip =>
      have hlook'' := hlook.trans ((hstarts.of_run hfound).trans hlook')
      refine hnodesReadIn.onward ?_ ?_
      · exact hlook''.flows.trans
          ((ParseState.Flows.read _).trans (Flows.of_run inferInstance hskip))
      · exact (KeepsNames.of_run inferInstance hskip).trans hlook''.nameState
  obtain ⟨p, u, hnodesReadIn, rfl, -, hlook⟩ := clauses_keeps hstarts
    (I := fun p t => NodesReadIn text ctx.owners s p.nodes t) (.nil hat) hround hrun
  exact hnodesReadIn.onward hlook.flows hlook.nameState

theorem readsBlock_caseClause (before : List Node) (hctx : ctx.Admits Production.statements) :
    (caseClause levels (bodyAt levels) ctx before o).ReadsBlock ctx.owners := by
  have hotherwise : (clauseBody (bodyAt levels) ctx o .otherwiseClause).ReadsBlock ctx.owners :=
    readsBlock_clauseBody hbody o rfl hctx
  unfold caseClause
  refine .ite (.behind fun _ => readsBlock_clauseBody hbody o rfl hctx) ?_
  exact .ite (.behind fun _ => hotherwise) hotherwise

theorem readsBlock_menuClause (hctx : ctx.Admits Production.statements) :
    (menuClause levels (bodyAt levels) ctx o).ReadsBlock ctx.owners :=
  .behind fun _ => readsBlock_clauseBody hbody o rfl hctx

theorem readsBlock_caseStatement (hctx : ctx.Admits Production.statements) :
    (caseStatement levels (bodyAt levels) ctx o).ReadsBlock ctx.owners := by
  refine .behind fun subject => .behind fun header => ?_
  constructor
  intro text s n t hat hrun
  obtain ⟨⟨ns, stop⟩, s₂, hclauses, hrun⟩ := run_of_bind hrun
  obtain ⟨⟨⟩, t', hend, hclose⟩ := run_of_bind hrun
  obtain ⟨rfl, hkind, rfl⟩ := closeNode_eq hclose
  let inner := (ctx.insideLoop .CASE).withStops caseWords
  have hclause (before : List Node) (o : Opening) :
      (caseClause levels (bodyAt levels) inner before o).ReadsBlock inner.owners :=
    readsBlock_caseClause hbody o before ⟨hctx.extra, hctx.forms⟩
  have hnodesReadIn := nodesRead_clauses peeks_startsCaseClause hclause
    (fun _ _ _ _ _ _ _ hrun => ⟨.caseClause hrun, ends_caseClause hrun⟩) hat hclauses
  exact ⟨_, s, s₂, .refl s, hnodesReadIn.nodesRead, Flows.of_run inferInstance hend,
    .plain (by rw [hkind]; rfl) rfl (KeepsNames.of_run inferInstance hend)⟩

theorem readsBlock_menuBlock (title : Option Expression)
    (hctx : ctx.insideMenu.Admits Production.statements) :
    (menuBlock levels (bodyAt levels) ctx o title).ReadsBlock ctx.owners := by
  refine .behind fun header => ?_
  constructor
  intro text s n t hat hrun
  obtain ⟨⟨ns, stop⟩, s₂, hclauses, hrun⟩ := run_of_bind hrun
  have hnodesReadIn := nodesRead_clauses peeks_startsMenuClause
    (fun before o => readsBlock_menuClause hbody o hctx)
    (fun _ _ _ _ _ _ hfound hrun => ⟨.menuClause hrun, ends_menuClause hfound hrun⟩) hat
      hclauses
  have hshut {u v : ParseState} (hflows : ParseState.Flows s₂ u)
    (hnameState : u.nameState = s₂.nameState)
      (hend : (closeBlock o header .MENU stop).run u = ((), v))
      (hclose : (closeNode o header (.menu title) ns).run v = (n, t)) :
      Holds ctx.owners s n t := by
    obtain ⟨rfl, hkind, rfl⟩ := closeNode_eq hclose
    exact ⟨_, s, s₂, .refl s, hnodesReadIn.nodesRead,
      hflows.trans (Flows.of_run inferInstance hend),
      .plain (by rw [hkind]; rfl) rfl ((KeepsNames.of_run inferInstance hend).trans hnameState)⟩
  dsimp only at hrun
  split at hrun
  · obtain ⟨⟨⟩, t', hend, hclose⟩ := run_of_bind hrun
    exact hshut (.refl _) rfl hend hclose
  · obtain ⟨⟨⟩, u, hreport, hrun⟩ := run_of_bind hrun
    obtain ⟨⟨⟩, t', hend, hclose⟩ := run_of_bind hrun
    exact hshut (Flows.of_run inferInstance hreport)
      (KeepsNames.of_run inferInstance hreport) hend hclose

/-! ## All forms and bodies -/

theorem readsBlock_foreachStatement (hctx : ctx.Admits Production.statements) :
    (foreachStatement levels (bodyAt levels) ctx o).ReadsBlock ctx.owners := by
  have hloop (cursor : Option String) (arguments : List Expression) (into : List Designator)
      (reoptimization : Bool) : (cursorLoop (bodyAt levels) ctx o (cursor.getD "")
        (.foreachLoop cursor arguments into reoptimization)).ReadsBlock ctx.owners :=
    readsBlock_cursorLoop hbody o _ _ _ _ ⟨hctx.extra, hctx.forms⟩
  unfold foreachStatement
  refine .behind fun cursor => .behind fun arguments => .behind fun into => .behind fun found => ?_
  dsimp only
  exact .ite (.behind fun _ => .behind fun _ => hloop _ _ _ _) (hloop _ _ _ _)

theorem readsBlock_forStatement (hctx : ctx.Admits Production.statements) :
    (forStatement levels (bodyAt levels) ctx o).ReadsBlock ctx.owners := by
  have hblock (counter : Option Designator) (first last step : Option Expression) :
      (simpleBlock (bodyAt levels) (ctx.insideLoop .FOR) o .FOR
        (.forLoop counter first last step)).ReadsBlock ctx.owners :=
    @readsBlock_simpleBlock _ hbody (ctx.insideLoop .FOR) o _ _ rfl ⟨hctx.extra, hctx.forms⟩
  unfold forStatement
  refine .behind fun counter => ?_
  dsimp only
  refine .ite (.behind fun _ => ?_) ?_ <;>
  exact .behind fun _ => .behind fun _ => .behind fun _ => hblock _ _ _ _

theorem readsBlock_menuStatement (hctx : ctx.Admits Production.statements)
    (hcursors : ctx.cursors ≠ some .module) :
    (menuStatement levels (bodyAt levels) ctx o).ReadsBlock ctx.owners := by
  have hinner : ctx.insideMenu.Admits Production.statements := by
    refine .statements (fun p hp => ?_) hcursors
    obtain hp | hp := List.mem_append.mp hp
    · exact (hctx.extra p hp).1
    · rw [List.mem_singleton.mp hp]
  have hblock (title : Option Expression) :
      (menuBlock levels (bodyAt levels) ctx o title).ReadsBlock ctx.owners :=
    readsBlock_menuBlock hbody o title hinner
  unfold menuStatement
  refine .behind fun kind => ?_
  dsimp only
  exact .ite (.behind fun _ => hblock _) (.behind fun _ => hblock _)

theorem readsBlock_mainMember (howners : ctx.owners = ⟨some .module, some .module⟩) :
    (mainMember (bodyAt levels) word ctx o).ReadsBlock ctx.owners := by
  have hnote : (modifyNames fun n => { n with hasMain := true }).KeepsNames :=
    keepsNames_modifyNames (fun _ o => by cases o <;> rfl) (fun _ => rfl) fun _ => rfl
  have hblock (header : Nat) : ReadsBlock ctx.owners (do
      modifyNames fun n => { n with hasMain := true }
      routineBlock (bodyAt levels) ctx o header .MAIN none fun held => .main held.scope) :=
    .behind fun _ => readsBlock_routineBlock hbody o header _ (fun _ => rfl)
      (.inl rfl) (fun _ => rfl) howners
  unfold mainMember
  refine .behind fun access => ?_
  dsimp only
  refine .ite ?_ (.behind fun _ => ?_) <;>
  exact .behind fun header => .behind fun names => .ite (.behind fun _ => hblock _) (hblock _)

theorem readsBlock_functionMember (howners : ctx.owners = ⟨some .module, some .module⟩) :
    (functionMember (bodyAt levels) word ctx o).ReadsBlock ctx.owners := by
  have hnote (signature : Signature) :
      (modifyNames fun n => { n with functions := n.functions ++ [signature] }).KeepsNames :=
    keepsNames_modifyNames (fun _ o => by cases o <;> rfl) (fun _ => rfl) fun _ => rfl
  unfold functionMember
  refine .behind fun access => .behind fun named => .behind fun stop => .behind fun parameters =>
    .behind fun header => ?_
  dsimp only
  refine .ite (.behind fun _ => ?_) ?_ <;>
  exact readsBlock_routineBlock hbody o header _ (fun _ => rfl) (.inr rfl) (fun _ => rfl) howners

theorem readsBlock_formWith {form : Form} (hblock : form.isBlock = true) (hctx : ctx.Admits ps)
    (hform : ctx.owners.Allows form) :
    (formWith levels (bodyAt levels) form word ctx o).ReadsBlock ctx.owners := by
  have hinside (hplain : form.isMember = false ∧ form.isDeclaration = false) :
      ctx.cursors ≠ some .module := fun hcursors => by
    obtain h | h := hform.statement hcursors
    · exact Bool.false_ne_true (hplain.1.symm.trans h)
    · exact Bool.false_ne_true (hplain.2.symm.trans h)
  have hstatements (hplain : form.isMember = false ∧ form.isDeclaration = false) :
      ctx.Admits Production.statements :=
    .statements (fun p hp => (hctx.extra p hp).1) (hinside hplain)
  unfold formWith
  cases form with
  | ifThen =>
    exact .behind fun _ => .behind fun _ =>
      readsBlock_branchedBlock hbody o _ _ rfl (.inl rfl) (hstatements ⟨rfl, rfl⟩)
  | tryBlock =>
    exact readsBlock_branchedBlock hbody o _ _ rfl (.inr rfl) (hstatements ⟨rfl, rfl⟩)
  | whileLoop =>
    have hctx := hstatements ⟨rfl, rfl⟩
    exact .behind fun _ =>
      @readsBlock_simpleBlock _ hbody (ctx.insideLoop .WHILE) o _ _ rfl ⟨hctx.extra, hctx.forms⟩
  | forLoop => exact readsBlock_forStatement hbody o (hstatements ⟨rfl, rfl⟩)
  | foreachLoop => exact readsBlock_foreachStatement hbody o (hstatements ⟨rfl, rfl⟩)
  | caseOf => exact readsBlock_caseStatement hbody o (hstatements ⟨rfl, rfl⟩)
  | menu =>
    exact readsBlock_menuStatement hbody o (hstatements ⟨rfl, rfl⟩) (hinside ⟨rfl, rfl⟩)
  | main => exact readsBlock_mainMember hbody o (hform.member rfl)
  | function => exact readsBlock_functionMember hbody o (hform.member rfl)
  | _ => cases hblock

/-- A statement is read so behind its first word. -/
theorem nodesRead_statement {form : Form} (hctx : ctx.Admits ps) (hform : ctx.owners.Allows form)
    (hat : At text s) (hne : s.kindAt 1 ≠ .endOfFile) (hlook : Looks s u)
    (hfits : Fits form word u.read)
    (hrun : (formWith levels (bodyAt levels) form word ctx
      ⟨u.read.input.last, s.errorCount⟩).run
      u.read = (n, t)) : NodeRead s n t ∧ NodesRead ctx.owners s [n] t := by
  obtain ⟨haccount, hkind⟩ :=
    (accounts_formWith (accountsBodies levels) ctx
      ⟨u.read.input.last, s.errorCount⟩ hfits).of_run
      hrun
  have hnodeRead : NodeRead s n t :=
    .of_run hne hlook (.statement hrun hkind) haccount.ends_statement
  refine ⟨hnodeRead, ?_⟩
  have hnameState : u.read.nameState = s.nameState := hlook.nameState
  have hread := hlook.flows.trans (ParseState.Flows.read u)
  have hnode (hholds : Holds ctx.owners u.read n t) : NodesRead ctx.owners s [n] t := by
    obtain ⟨inner, s₁, s₂, hbefore, hinner, hbehind, hencloses⟩ := hholds
    rw [hnameState] at hencloses
    exact .node hnodeRead (hread.trans hbefore) hinner hbehind hencloses
  have hleaf (hblock : n.kind.block? = none) (hnotes : Notes ctx.owners u.read n t) :
      NodesRead ctx.owners s [n] t := by
    have htoken : u.read.input.tokenAt 1 = s.input.tokenAt 2 := by
      rw [tokenAt_read, hlook.tokenAt]
    obtain ⟨hnote, hnamed⟩ := hnotes
    rw [htoken] at hnote hnamed
    refine .leaf hnodeRead hblock (scope?_of_form hkind hblock) (haccount.children_of_leaf hblock)
      (fun hc => ⟨fun hcursors => ?_, hnamed hc⟩) (by rw [hnote, hnameState])
    rw [cursor?_of_form hkind] at hc
    · cases hc
    · have hplain := hform.statement hcursors
      constructor <;>
      · rintro rfl
        obtain h | h := hplain <;> cases h
  cases hblock : form.isBlock with
  | true =>
    exact hnode ((readsBlock_formWith hbody _ hblock hctx hform).holds
      (hread.later.onward hat).1 hrun)
  | false =>
    by_cases hglobals : form = .globals
    · subst hglobals
      have howners := hform.member rfl
      obtain ⟨isFile, v, hnext, hrun⟩ := run_of_bind hrun
      have hflows := Flows.of_run (p := nextIs _) inferInstance hnext
      have hsame := KeepsNames.of_run inferInstance hnext
      split at hrun
      · -- The name of a file declares nothing.
        obtain ⟨file, w, hfile, hclose⟩ := run_of_bind hrun
        have hlast := (KeepsNames.of_run inferInstance hclose).trans
          (KeepsNames.of_run inferInstance hfile)
        have hn := (closeStatement_eq hclose).2.1
        refine hleaf (by rw [hn]; rfl) ⟨?_, fun hc => by rw [hn] at hc; cases hc⟩
        rw [hn, hlast, hsame]
        exact (NameState.declareAll_nil _ _).symm
      · obtain ⟨inner, s₁, s₂, hbefore, hinner, hbehind, hencloses⟩ :=
          (readsBlock_globalsBlock hbody _ (hctx.extra_eq_nil howners) howners).holds
            ((hread.trans hflows).later.onward hat).1 hrun
        rw [hsame] at hencloses
        exact hnode ⟨inner, s₁, s₂, hflows.trans hbefore, hinner, hbehind, hencloses⟩
    · exact hleaf (block?_of_form hkind hblock hglobals) (notes_leaf hblock hglobals hrun hkind)

end

/-- Bodies are read so if each of their statements is. -/
theorem readsBodyNodes_of_rounds {statement : Option FormParser}
    (hbodyAt : bodyAt levels = bodyWith statement)
    (hstatement : ∀ {ctx : Context} {region : Region} {text s u form word n t parse},
      statement = some parse →
      ctx.Admits region.productions → At text s →
      Chooses false ctx region s (.form form word) u →
      (parse form word ctx ⟨u.read.input.last, s.errorCount⟩).run u.read = (n, t) →
      NodeRead s n t ∧ NodesRead ctx.owners s [n] t) : ReadsBodyNodes levels := by
  constructor
  intro ctx region text s ns stop t hrun hat hctx hplain
  have hround : ∀ a b, Round statement ctx region a b →
      NodesReadIn text ctx.owners s a.1.nodes a.2 →
      NodesReadIn text ctx.owners s b.1.nodes b.2 := by
    intro a b hround hnodesReadIn
    cases hround with
    | statement hparse hchoice hrun hjump hleave =>
      obtain ⟨hnodeRead, hnodesRead⟩ := hstatement hparse hctx hnodesReadIn.at_text hchoice hrun
      exact (hnodesReadIn.add hnodeRead hnodesRead).onward
        ((Flows.of_run inferInstance hjump).trans hleave.flows)
        (hleave.nameState.trans (KeepsNames.of_run inferInstance hjump))
    | skip hskip =>
      rw [hskip.nodes_eq]
      exact hnodesReadIn.onward hskip.flows hskip.nameState
  rw [hbodyAt] at hrun
  obtain ⟨p, u, hnodesReadIn, rfl, -, hlook⟩ := bodyWith_keeps
    (I := fun p t => NodesReadIn text ctx.owners s p.nodes t) (.nil hat) hround hrun
  exact hnodesReadIn.onward hlook.flows hlook.nameState

/-- Every body is read so, however deep it is nested. -/
theorem readsBodyNodes (levels : Nat) : ReadsBodyNodes levels := by
  induction levels with
  | zero => exact readsBodyNodes_of_rounds rfl nofun
  | succ levels ih =>
    refine readsBodyNodes_of_rounds rfl fun hparse hctx hat hchoice hrun => ?_
    cases hparse
    obtain ⟨p, hp, rfl⟩ := hchoice.mem
    exact nodesRead_statement ih hctx (hctx.allows hp) hat hchoice.passes.ne_endOfFile hchoice.looks
      hchoice.fits hrun

end Parser

/-! ## Whole texts -/

theorem Diagnostic.IsFrom.not_aboutNames {d : Diagnostic} (h : d.IsFrom scanMessages) :
    d.aboutNames = false := by
  obtain ⟨m, hm, args, span, rfl⟩ := h
  obtain rfl | rfl | rfl | rfl := hm <;> rfl

/-- What is said about names is what the name state has. -/
theorem ParseState.At.perm_told (h : At text s) {p : Diagnostic → Bool}
    (hp : ∀ d : Diagnostic, p d = true → d.aboutNames = true) :
    (s.diagnostics.filter p).Perm (s.nameState.told.filter p) := by
  refine (h.perm_filter fun d hd => ?_).trans (.of_eq ?_)
  · exact Bool.eq_false_iff.mpr fun hpass =>
      Bool.false_ne_true (hd.not_aboutNames.symm.trans (hp d hpass))
  · refine (List.filter_congr fun d _ => ?_).trans (List.filter_filter ..).symm
    cases hd : p d with
    | false => rfl
    | true => rw [hp d hd]; rfl

/-- The members of a module are read from an empty name state. -/
theorem nodesRead_parseModule (text : String) (options : ParseOptions) :
    ∃ s, NodesReadIn text ⟨some .module, some .module⟩ (.ofText options.mode text)
        (parseModule text options).module.children s ∧
      (parseModule text options).module.kind =
        .module (s.nameState.scope .module) s.nameState.globals s.names.functions
          s.names.imports ∧
      (parseModule text options).module.extent =
        ⟨0, s.read.input.length, 0, s.read.errorCount == 0⟩ ∧
      (parseModule text options).diagnostics = options.placed s.read.diagnostics := by
  refine ⟨((bodyAt maxNesting (.root options.version) .members).run
    (.ofText options.mode text)).2, ?_, rfl, rfl, rfl⟩
  have hbodies := readsBodyNodes maxNesting
  exact @hbodies.nodesReadIn _ .members _ _ _ _ _ rfl (at_ofText _ _) (.members options.version)
    (ignores_keepsNames rfl)

theorem nodesRead_parseStatements (text : String) (options : ParseOptions) :
    ∃ s, NodesReadIn text ⟨some .snippet, some .snippet⟩ (.ofText options.mode text)
        (parseStatements text options).statements s ∧
      (parseStatements text options).diagnostics = options.placed s.diagnostics := by
  have hctx : (Context.snippet options.version).Admits Production.statements :=
    .statements nofun nofun
  refine ⟨((bodyAt maxNesting (.snippet options.version) {}).run (.ofText options.mode text)).2,
    ?_, rfl⟩
  have hbodies := readsBodyNodes maxNesting
  exact @hbodies.nodesReadIn _ {} _ _ _ _ _ rfl (at_ofText _ _) hctx inferInstance

end FourGL
