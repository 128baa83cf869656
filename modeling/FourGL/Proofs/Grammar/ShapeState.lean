import FourGL.Proofs.Grammar.NodesRead

/-!
# What is written down about shapes

What is written down about statements and clauses that do not go together: how many values the
RETURNs of each owner return, whether there is a MAIN, and what has been reported about these and
about clauses of CASE and MENU. `Node.check` walks a tree and writes the same down. Reading a body
does to the shape state what the walk through the nodes that it returns does (`checksBodies`).
-/

namespace FourGL

open FourGL.Parser FourGL.ParseState

/-! ## Shape states -/

def Diagnostic.aboutShape (d : Diagnostic) : Bool :=
  [Message.returnOutsideFunction.code, Message.secondOtherwise.code, Message.secondMain.code,
    Message.emptyMenu.code].contains d.code

structure ShapeState where
  /-- How many values each RETURN returns, by owner. -/
  returns : Owner → List Nat
  hasMain : Bool
  /-- What has been reported about statements and clauses that do not go together, the latest
  first. -/
  told : List Diagnostic

def ParseState.shapeState (s : ParseState) : ShapeState where
  returns := s.names.shapeState.1
  hasMain := s.names.shapeState.2
  told := s.reports.filter (·.aboutShape)

namespace ShapeState

def tellIf (r : ShapeState) (c : Bool) (d : Diagnostic) : ShapeState :=
  if c then { r with told := d :: r.told } else r

/-- A RETURN of so many values; there have to be none where nobody owns it. -/
def note (r : ShapeState) (owner : Option Owner) (arity : Nat) (span : Span) : ShapeState :=
  match owner with
  | some o => { r with returns := Function.update r.returns o (r.returns o ++ [arity]) }
  | none => r.tellIf (arity != 0) (.of .returnOutsideFunction [] (some span))

def enterMain (r : ShapeState) (header : Span) : ShapeState :=
  { r.tellIf r.hasMain (.of .secondMain [] (some header)) with hasMain := true }

def enterBlock (r : ShapeState) : ShapeState :=
  { r with returns := Function.update r.returns .block [] }

/-- Behind a block, what was owned around it is owned again. -/
def leaveBlock (outer r : ShapeState) : ShapeState :=
  { r with returns := Function.update r.returns .block (outer.returns .block) }

theorem returns_tellIf (r : ShapeState) (c : Bool) (d : Diagnostic) :
    (r.tellIf c d).returns = r.returns := by
  unfold tellIf
  split <;> rfl

theorem hasMain_tellIf (r : ShapeState) (c : Bool) (d : Diagnostic) :
    (r.tellIf c d).hasMain = r.hasMain := by
  cases c <;> rfl

theorem told_tellIf (r : ShapeState) (c : Bool) (d : Diagnostic) :
    (r.tellIf c d).told = (if c then [d] else []) ++ r.told := by
  cases c <;> rfl

theorem hasMain_note (r : ShapeState) (owner : Option Owner) (arity : Nat) (span : Span) :
    (r.note owner arity span).hasMain = r.hasMain := by
  cases owner with
  | none => exact hasMain_tellIf ..
  | some => rfl

theorem told_note (r : ShapeState) (owner : Option Owner) (arity : Nat) (span : Span) :
    (r.note owner arity span).told =
      (if arity ≠ 0 ∧ owner = none then [.of .returnOutsideFunction [] (some span)] else []) ++
        r.told := by
  cases owner with
  | none => simp [note, told_tellIf]
  | some => simp [note]

@[simp] theorem told_enterBlock (r : ShapeState) : r.enterBlock.told = r.told := rfl

@[simp] theorem told_leaveBlock (outer r : ShapeState) : (outer.leaveBlock r).told = r.told := rfl

theorem told_enterMain (r : ShapeState) (header : Span) :
    (r.enterMain header).told =
      (if r.hasMain then [.of .secondMain [] (some header)] else []) ++ r.told := told_tellIf ..

theorem returns_note (r : ShapeState) (owner : Option Owner) (arity : Nat) (span : Span) :
    (r.note owner arity span).returns .block =
      r.returns .block ++ if owner = some .block then [arity] else [] := by
  cases owner with
  | none => simp [note, returns_tellIf]
  | some o => cases o <;> simp [note, Function.update]

theorem leaveBlock_enterMain (r inner : ShapeState) (header : Span) :
    (r.enterMain header).leaveBlock inner = r.leaveBlock inner := by
  rw [leaveBlock, enterMain, returns_tellIf, leaveBlock]

end ShapeState

/-! ## The checker -/

namespace Node

mutual

/-- What a node adds to the shape state, where its RETURNs belong to `returns`; `seen` says whether
there is an OTHERWISE before it. -/
def check (returns : Option Owner) (seen : Bool) : Node → ShapeState → ShapeState
  | ⟨extent, kind, children⟩, r =>
    match kind with
    | .returnValues values =>
      checkList returns false children (r.note returns values.length extent.span)
    | .otherwiseClause =>
      checkList returns false children
        (r.tellIf seen (.of .secondOtherwise [] (some extent.header)))
    | .main _ => .leaveBlock r (checkList none false children
        (r.enterMain extent.header).enterBlock)
    | .function .. => .leaveBlock r (checkList (some .block) false children r.enterBlock)
    | .globals _ => .leaveBlock r (checkList returns false children r.enterBlock)
    | .menu _ =>
      (checkList returns false children r).tellIf (!children.any isSelectable)
        (.of .emptyMenu [] (some extent.header))
    | _ => checkList returns false children r

def checkList (returns : Option Owner) (seen : Bool) : List Node → ShapeState → ShapeState
  | [], r => r
  | n :: ns, r => checkList returns (seen || isOtherwise n) ns (n.check returns seen r)

end

mutual

/-- How many values the RETURNs in a tree return, apart from those in routines and GLOBALS
blocks. -/
def returned : Node → List Nat
  | ⟨_, kind, children⟩ =>
    match kind with
    | .returnValues values => values.length :: returnedList children
    | .main _ | .function .. | .globals _ => []
    | _ => returnedList children

def returnedList : List Node → List Nat
  | [] => []
  | n :: ns => n.returned ++ returnedList ns

end

theorem checkList_append (returns : Option Owner) (seen : Bool) (ns ms : List Node)
    (r : ShapeState) :
    checkList returns seen (ns ++ ms) r =
      checkList returns (seen || ns.any isOtherwise) ms (checkList returns seen ns r) := by
  induction ns generalizing seen r with
  | nil => simp [checkList]
  | cons n ns ih => simp [checkList, ih, Bool.or_assoc]

end Node

/-- A node of the kind adds to the shape state only what its children add. -/
def NodeKind.isSilent : NodeKind → Bool
  | .returnValues _ | .otherwiseClause | .main _ | .function .. | .globals _ | .menu _ => false
  | _ => true

theorem Node.check_of_silent {n : Node} (h : n.kind.isSilent = true) (returns : Option Owner)
    (seen : Bool) (r : ShapeState) :
    n.check returns seen r = checkList returns false n.children r := by
  obtain ⟨extent, kind, children⟩ := n
  cases kind <;> first | rfl | cases h

namespace Node

mutual

theorem returns_check : (n : Node) → (returns : Option Owner) → (seen : Bool) →
    (r : ShapeState) → (n.check returns seen r).returns .block =
      r.returns .block ++ if returns = some .block then n.returned else []
  | ⟨extent, kind, children⟩, returns, seen, r => by
    have ih := returns_checkList children
    cases kind
    case returnValues values =>
      rw [check, ih, ShapeState.returns_note, returned]
      split <;> simp
    case main | function | globals => simp [check, returned, ShapeState.leaveBlock]
    case otherwiseClause =>
      exact (ih returns false _).trans (by rw [ShapeState.returns_tellIf]; rfl)
    case menu => exact (congrFun (ShapeState.returns_tellIf ..) _).trans (ih returns false r)
    all_goals exact ih returns false r

theorem returns_checkList : (ns : List Node) → (returns : Option Owner) → (seen : Bool) →
    (r : ShapeState) → (checkList returns seen ns r).returns .block =
      r.returns .block ++ if returns = some .block then returnedList ns else []
  | [], returns, seen, r => by simp [checkList, returnedList]
  | n :: ns, returns, seen, r => by
    rw [checkList, returns_checkList ns, returns_check n, returnedList]
    split <;> simp

end

end Node

/-! ## Writing nothing down -/

/-- The shape state stays as it is. -/
def keepsShapes : RunProperty := fun _ s t => t.shapeState = s.shapeState

instance : keepsShapes.Allows l l' := ⟨id⟩

theorem ignores_keepsShapes {m : Message} (h : m.aboutShape = false) : keepsShapes.Ignores m where
  report _ s args span := by
    have hm : (Diagnostic.of m args (some span)).aboutShape = false := h
    simp [keepsShapes, shapeState, hm]

theorem shapeState_reportLimit (s : ParseState) :
    (reportLimit.run s).2.shapeState = s.shapeState := by
  obtain ⟨-, hrun⟩ | ⟨t, ⟨seen, -, rfl⟩, hrun⟩ := reportLimit_cases s
  · rw [hrun]
  · rw [hrun]
    rfl

theorem ParseState.Looks.shapeState_eq (h : Looks s t) : t.shapeState = s.shapeState := by
  obtain ⟨seen, -, rfl⟩ := h
  rfl

instance : keepsShapes.AllowsDeclarations where
  refl _ _ := rfl
  trans h₁ h₂ := h₂.trans h₁
  look _ _ _ := rfl
  read _ _ := rfl
  plain hm := ignores_keepsShapes (by simp_all [Message.isPlain])
  giveUp _ s := shapeState_reportLimit s
  nest h := h
  rename _ s names h := by simp [keepsShapes, shapeState, h]
  aboutNames {m} hm := ignores_keepsShapes (by
    have hcode : ∀ code ∈ [Message.alreadyDefined.code, Message.cursorRefused.code,
        Message.cursorRedeclared.code], [Message.returnOutsideFunction.code,
          Message.secondOtherwise.code, Message.secondMain.code, Message.emptyMenu.code].contains
            code = false := by decide
    exact hcode m.code (List.contains_iff_mem.mp hm))

theorem Parser.shapeState_of_run {p : Parser α} [h : p.Has keepsShapes 0]
    (hrun : p.run s = (a, t)) :
    t.shapeState = s.shapeState := h.of_run hrun

/-! ## Nodes and lists of nodes -/

def NodeKind.returnArities? : NodeKind → Option (List Nat)
  | .function _ _ _ _ _ arities => some arities
  | _ => none

namespace Node

/-- A function knows how many values its RETURNs return. -/
def Counts (n : Node) : Prop :=
  ∀ arities, n.kind.returnArities? = some arities → arities = returnedList n.children

def AllCount (n : Node) : Prop := ∀ path m, n.Reaches path m → m.Counts

theorem allCount_of_children {n : Node} (hn : n.Counts) (h : ∀ c ∈ n.children, c.AllCount) :
    n.AllCount := by
  intro path m hreach
  obtain ⟨rfl, rfl⟩ | ⟨c, hc, path', hreach', rfl⟩ := hreach.root_or_below
  · exact hn
  · exact h c hc path' m hreach'

theorem counts_of_none {n : Node} (h : n.kind.returnArities? = none) : n.Counts := by
  intro arities harities
  rw [h] at harities
  cases harities

theorem counts_of_silent {n : Node} (h : n.kind.isSilent = true) : n.Counts := by
  refine counts_of_none ?_
  obtain ⟨extent, kind, children⟩ := n
  cases kind with
  | function => cases h
  | _ => rfl

end Node

/-- Between the states the shape state changes as the node says. -/
structure Checked (returns : Option Owner) (seen : Bool) (s : ParseState) (n : Node)
    (t : ParseState) : Prop where
  shapeState_eq : t.shapeState = n.check returns seen s.shapeState
  counts : n.AllCount

/-- The nodes are read up to a place in a text, and the shape state changes as they say. -/
structure Listed (text : String) (returns : Option Owner) (s : ParseState) (ns : List Node)
    (t : ParseState) : Prop where
  shapeState_eq : t.shapeState = Node.checkList returns false ns s.shapeState
  counts : ∀ n ∈ ns, n.AllCount
  at_text : At text t
  start_lt : ∀ m ∈ ns, m.start < t.place

theorem Checked.of_silent {n : Node} (hkind : n.kind.isSilent = true)
    (h : Listed text returns s n.children t) (hu : u.shapeState = t.shapeState) :
    Checked returns seen s n u where
  shapeState_eq := by rw [hu, h.shapeState_eq, Node.check_of_silent hkind]
  counts := Node.allCount_of_children (Node.counts_of_silent hkind) h.counts

theorem Checked.behind (h : Checked returns seen s n t) (hs : s.shapeState = r.shapeState) :
    Checked returns seen r n t := ⟨hs ▸ h.shapeState_eq, h.counts⟩

namespace Listed

theorem nil (hat : At text s) : Listed text returns s [] s := ⟨rfl, nofun, hat, nofun⟩

theorem onward (h : Listed text returns s ns t) (hflows : Flows t u)
    (hu : u.shapeState = t.shapeState) :
    Listed text returns s ns u := by
  have honward := hflows.later.onward h.at_text
  exact ⟨hu.trans h.shapeState_eq, h.counts, honward.1,
    fun m hm => Nat.lt_of_lt_of_le (h.start_lt m hm) honward.2⟩

/-- The next node is put behind those before it. -/
theorem add (h : Listed text returns s ns t) (hnodeRead : NodeRead t n u)
    (hn : Checked returns (ns.any isOtherwise) t n u) : Listed text returns s (n.insert ns) u := by
  obtain ⟨hinsert, hat, hstarts⟩ := hnodeRead.insert_eq h.at_text h.start_lt
  rw [hinsert]
  refine ⟨?_, List.forall_mem_append.mpr
    ⟨h.counts, List.forall_mem_singleton.mpr hn.counts⟩, hat,
    hstarts⟩
  rw [hn.shapeState_eq, h.shapeState_eq, Node.checkList_append]
  rfl

end Listed

namespace Parser

/-- The parser reads a node, behind a part of its header, and changes the shape state as the node
says. -/
structure Checks (returns : Option Owner) (p : Parser Node) : Prop where
  checked : ∀ {text s n t}, At text s → p.run s = (n, t) →
    ∀ seen, Checked returns seen s n t

namespace Checks

theorem behind {p : Parser α} {f : α → Parser Node} [hp : p.Has keepsShapes 0] [p.Flows]
    (hf : ∀ a, (f a).Checks returns) : (p >>= f).Checks returns := by
  constructor
  intro text s n t hat hrun seen
  obtain ⟨a, u, hfirst, hrun⟩ := run_of_bind hrun
  have hat := ((Flows.of_run (p := p) inferInstance hfirst).later.onward hat).1
  exact ((hf a).checked hat hrun seen).behind (hp.of_run hfirst)

theorem ite {c : Prop} [Decidable c] {p q : Parser Node} (hp : p.Checks returns)
    (hq : q.Checks returns) : (if c then p else q).Checks returns := by
  split
  · exact hp
  · exact hq

end Checks

theorem header_closeNode (h : (closeNode o header kind nodes).run s = (n, t)) :
    n.extent.header = .between o.token.start header := by
  obtain ⟨rfl, -⟩ := Prod.mk.inj h
  rfl

/-- Bodies change the shape state as their nodes say, where `levels` levels of nesting are left. -/
structure ChecksBodies (levels : Nat) : Prop where
  listed : ∀ {ctx region text s ns stop t}, (bodyAt levels ctx region).run s = ((ns, stop), t) →
    At text s → keepsShapes.Ignores region.unexpected → Listed text ctx.returns s ns t

section

variable {levels : Nat} (hbody : ChecksBodies levels) {ctx : Context} (o : Opening)
include hbody

/-! ## Blocks with one body -/

theorem checks_simpleBlock (k : Keyword) {kind : NodeKind} (hkind : kind.isSilent = true) :
    (simpleBlock (bodyAt levels) ctx o k kind).Checks ctx.returns := by
  refine .behind fun header => ?_
  constructor
  intro text s n t hat hrun seen
  obtain ⟨⟨ns, stop⟩, s₂, hinner, hrun⟩ := run_of_bind hrun
  obtain ⟨⟨⟩, t', hend, hclose⟩ := run_of_bind hrun
  obtain ⟨rfl, rfl, rfl⟩ := closeNode_eq hclose
  exact .of_silent hkind (hbody.listed hinner hat inferInstance) (shapeState_of_run hend)

theorem checks_clauseBody {kind : NodeKind} (hkind : kind.isSilent = true) :
    (clauseBody (bodyAt levels) ctx o kind).Checks ctx.returns := by
  refine .behind fun header => ?_
  constructor
  intro text s n t hat hrun seen
  obtain ⟨⟨ns, stop⟩, s₂, hinner, hclose⟩ := run_of_bind hrun
  obtain ⟨rfl, rfl, rfl⟩ := closeNode_eq hclose
  exact .of_silent hkind (hbody.listed hinner hat inferInstance) rfl

omit hbody in
theorem shapeState_set (s : ParseState) (owner : Owner) (h : Holding) :
    shapeState { s with names := s.names.set h owner } =
      { s.shapeState with returns := Function.update s.shapeState.returns owner h.returns } := by
  cases owner <;> (unfold shapeState Names.shapeState; congr 1; funext o; cases o <;> rfl)

omit hbody in
/-- Loops over cursors are not in the shape state. -/
theorem shapeState_insideCursorLoop {p : Parser α}
    (h : (insideCursorLoop cursor p).run s = ((a, redeclared), t)) :
    ∃ s₁ s₂, ParseState.Flows s s₁ ∧ s₁.shapeState = s.shapeState ∧
      p.run s₁ = (a, s₂) ∧ t.shapeState = s₂.shapeState := by
  obtain ⟨s₂, hrun, -, rfl⟩ := run_insideCursorLoop h
  refine ⟨_, s₂, .rename s _, ?_, hrun, rfl⟩
  rfl

theorem checks_cursorLoop (cursor : String) {kind : List Cursor → NodeKind}
    (hkind : ∀ redeclared, (kind redeclared).isSilent = true) :
    (cursorLoop (bodyAt levels) ctx o cursor kind).Checks ctx.returns := by
  refine .behind fun header => ?_
  constructor
  intro text s n t hat hrun seen
  obtain ⟨⟨⟨ns, stop⟩, redeclared⟩, u, hinside, hrun⟩ := run_of_bind hrun
  obtain ⟨s₁, s₂, hbefore, henter, hinner, hleave⟩ := shapeState_insideCursorLoop hinside
  obtain ⟨⟨⟩, v, hreport, hrun⟩ := run_of_bind hrun
  obtain ⟨⟨⟩, t', hend, hclose⟩ := run_of_bind hrun
  obtain ⟨rfl, hn, rfl⟩ := closeNode_eq hclose
  have hlisted := hbody.listed hinner (hbefore.later.onward hat).1 inferInstance
  refine Checked.behind (.of_silent (hn ▸ hkind redeclared) hlisted ?_) henter
  rw [shapeState_of_run hend, shapeState_of_run hreport, hleave]

omit hbody in
/-- Inside a routine or a GLOBALS block, what is returned is its own. -/
theorem shapeState_insideBlock {p : Parser α} (h : (insideBlock p).run s = ((a, held), t)) :
    ∃ s₁ s₂, ParseState.Flows s s₁ ∧ s₁.shapeState = s.shapeState.enterBlock ∧
      p.run s₁ = (a, s₂) ∧ held.returns = s₂.shapeState.returns .block ∧
      t.shapeState = s.shapeState.leaveBlock s₂.shapeState := by
  obtain ⟨s₂, hrun, rfl, rfl⟩ := run_insideBlock h
  refine ⟨_, s₂, .rename s _, ?_, hrun, rfl, ?_⟩
  · exact shapeState_set { s with names := { s.names with loops := [] } } .block {}
  · exact shapeState_set { s₂ with names := { s₂.names with loops := s.names.loops } }
      .block s.names.block

theorem checked_routineBlock {header : Nat} {k : Keyword} {returns : Option Owner}
    {kind : Holding → NodeKind} (hat : At text s)
    (hrun : (routineBlock (bodyAt levels) ctx o header k returns kind).run s = (n, t)) :
    t.shapeState = s.shapeState.leaveBlock
        (Node.checkList returns false n.children s.shapeState.enterBlock) ∧
      (∀ c ∈ n.children, c.AllCount) ∧
      n.extent.header = .between o.token.start header ∧
      ∃ held, n.kind = kind held ∧ held.returns =
        (Node.checkList returns false n.children s.shapeState.enterBlock).returns .block := by
  obtain ⟨⟨⟨ns, stop⟩, held⟩, u, hinside, hrun⟩ := run_of_bind hrun
  obtain ⟨s₁, s₂, hbefore, henter, hinner, hheld, hleave⟩ := shapeState_insideBlock hinside
  obtain ⟨⟨⟩, t', hend, hclose⟩ := run_of_bind hrun
  have hheader := header_closeNode hclose
  obtain ⟨rfl, hn, rfl⟩ := closeNode_eq hclose
  have hlisted := hbody.listed hinner (hbefore.later.onward hat).1 inferInstance
  have hinner : s₂.shapeState = Node.checkList returns false n.children s.shapeState.enterBlock :=
    henter ▸ hlisted.shapeState_eq
  exact ⟨by rw [shapeState_of_run hend, hleave, hinner], hlisted.counts, hheader, held, hn,
    hinner ▸ hheld⟩

theorem checks_mainMember : (mainMember (bodyAt levels) word ctx o).Checks ctx.returns := by
  have hblock {text : String} {header : Nat} {s s' t : ParseState} {n : Node} (hat : At text s')
      (hs' : s'.shapeState = s.shapeState.enterMain (.between o.token.start header))
      (hrun : (routineBlock (bodyAt levels) ctx o header .MAIN none fun held =>
        .main held.scope).run
        s' = (n, t)) (seen : Bool) : Checked ctx.returns seen s n t := by
    obtain ⟨hshapeState, hcounts, hheader, held, hkind, -⟩ :=
      checked_routineBlock hbody o hat hrun
    refine ⟨?_, Node.allCount_of_children (Node.counts_of_none (by rw [hkind]; rfl)) hcounts⟩
    rw [hshapeState, hs', ShapeState.leaveBlock_enterMain, ← hheader]
    obtain ⟨extent, kind, children⟩ := n
    cases hkind
    rfl
  have htail (header : Nat) : Checks ctx.returns (do
      if (← getNames).hasMain then
        report .secondMain [] (.between o.token.start header)
      modifyNames fun n => { n with hasMain := true }
      routineBlock (bodyAt levels) ctx o header .MAIN none fun held => .main held.scope) := by
    constructor
    intro text s n t hat hrun seen
    obtain ⟨names, s₀, hnames, hrun⟩ := run_of_bind hrun
    obtain ⟨rfl, rfl⟩ := Prod.mk.inj hnames
    split at hrun
    next hmain =>
      obtain ⟨⟨⟩, s₁, hreport, hrun⟩ := run_of_bind hrun
      obtain ⟨⟨⟩, s₂, hset, hrun⟩ := run_of_bind hrun
      have hat₁ := ((Flows.of_run inferInstance hreport).later.onward hat).1
      have hat₂ := ((Flows.of_run inferInstance hset).later.onward hat₁).1
      refine hblock hat₂ ?_ hrun seen
      obtain rfl := (Prod.mk.inj hreport).2
      obtain rfl := (Prod.mk.inj hset).2
      rw [ShapeState.enterMain, show s.shapeState.hasMain = true from hmain]
      rfl
    next hmain =>
      obtain ⟨⟨⟩, s₂, hset, hrun⟩ := run_of_bind hrun
      have hat₂ := ((Flows.of_run inferInstance hset).later.onward hat).1
      refine hblock hat₂ ?_ hrun seen
      obtain rfl := (Prod.mk.inj hset).2
      rw [ShapeState.enterMain, show s.shapeState.hasMain = false from Bool.eq_false_iff.mpr hmain]
      rfl
  unfold mainMember
  refine .behind fun access => ?_
  dsimp only
  exact .ite (.behind fun header => htail header)
    (.behind fun _ => .behind fun header => htail header)

theorem checks_functionMember : (functionMember (bodyAt levels) word ctx o).Checks ctx.returns := by
  have hblock (access : Access) (name : String) (span : Span) (parameters : List String)
    (header : Nat) :
      (routineBlock (bodyAt levels) ctx o header .FUNCTION (some .block) fun held =>
        .function access name span parameters held.scope held.returns).Checks ctx.returns := by
    constructor
    intro text s n t hat hrun seen
    obtain ⟨hshapeState, hcounts, -, held, hkind, hheld⟩ :=
      checked_routineBlock hbody o hat hrun
    refine ⟨?_, Node.allCount_of_children (fun arities harities => ?_) hcounts⟩
    · rw [hshapeState]
      obtain ⟨extent, kind, children⟩ := n
      cases hkind
      rfl
    · rw [hkind] at harities
      cases harities
      rw [hheld, Node.returns_checkList]
      simp [ShapeState.enterBlock]
  have hnote (signature : Signature) :
      (modifyNames fun n => { n with functions := n.functions ++ [signature] }).Has keepsShapes 0 :=
    has_modifyNames fun _ => rfl
  unfold functionMember
  refine .behind fun access => .behind fun named => .behind fun stop => .behind fun parameters =>
    .behind fun header => ?_
  dsimp only
  exact .ite (.behind fun _ => hblock ..) (hblock ..)

theorem checks_globalsBlock : (globalsBlock (bodyAt levels) ctx o).Checks ctx.returns := by
  refine .behind fun header => ?_
  constructor
  intro text s n t hat hrun seen
  obtain ⟨⟨⟨ns, stop⟩, held⟩, u, hinside, hrun⟩ := run_of_bind hrun
  obtain ⟨s₁, s₂, hbefore, henter, hinner, -, hleave⟩ := shapeState_insideBlock hinside
  obtain ⟨⟨⟩, v, hend, hrun⟩ := run_of_bind hrun
  obtain ⟨⟨⟩, w, hmerge, hclose⟩ := run_of_bind hrun
  obtain ⟨rfl, hkind, rfl⟩ := closeNode_eq hclose
  have hlisted := hbody.listed hinner (hbefore.later.onward hat).1 inferInstance
  have hmerge : t.shapeState = v.shapeState := by
    obtain rfl := (Prod.mk.inj hmerge).2
    rfl
  refine ⟨?_, Node.allCount_of_children
    (Node.counts_of_none (by rw [hkind]; rfl)) hlisted.counts⟩
  rw [hmerge, shapeState_of_run hend, hleave, hlisted.shapeState_eq, henter]
  obtain ⟨extent, kind, children⟩ := n
  cases hkind
  rfl

theorem checks_globalsMember : (globalsMember (bodyAt levels) ctx o).Checks ctx.returns := by
  refine .behind fun isFile => .ite (.behind fun file => ?_) (checks_globalsBlock hbody o)
  constructor
  intro text s n t hat hrun seen
  obtain ⟨rfl, hkind, hchildren⟩ := closeStatement_eq hrun
  exact .of_silent (by rw [hkind]; rfl) (by rw [hchildren]; exact .nil hat) rfl

/-! ## Two branches -/

/-- A second branch, if there is one, is put behind the first. -/
theorem listed_secondBranch {k word : Keyword} {kind : NodeKind}
    (hkind : kind = .elseClause ∨ kind = .catchClause) {first second : List Node × Stop}
    (hfirst : Listed text ctx.returns s first.1 t)
    (hstops : first.2 = .stopToken (.keyword word) → t.kindAt 1 ≠ .endOfFile)
    (hrun : (secondBranch (bodyAt levels) ctx k word kind first).run t = (second, u)) :
    Listed text ctx.returns s second.1 u := by
  obtain ⟨rfl, rfl⟩ | ⟨n, stop, hinsert, hnodeRead, rfl, hinner⟩ :=
    run_secondBranch hkind hstops hrun
  · exact hfirst
  have hlisted := hbody.listed hinner hfirst.at_text.read.1 inferInstance
  rw [hinsert]
  refine hfirst.add hnodeRead (.behind (.of_silent ?_ hlisted rfl) rfl)
  obtain h | h := hkind <;> rw [h] <;> rfl

theorem checks_branchedBlock (k word : Keyword) {kind branchKind : NodeKind}
    (hkind : kind.isSilent = true)
    (hbranch : branchKind = .elseClause ∨ branchKind = .catchClause) :
    (branchedBlock (bodyAt levels) ctx o k word kind branchKind).Checks ctx.returns := by
  refine .behind fun header => ?_
  constructor
  intro text s n t hat hrun seen
  obtain ⟨⟨ns, stop⟩, u, hfirst, hrun⟩ := run_of_bind hrun
  obtain ⟨⟨ms, stop'⟩, s₂, hsecond, hrun⟩ := run_of_bind hrun
  obtain ⟨⟨⟩, t', hend, hclose⟩ := run_of_bind hrun
  obtain ⟨rfl, rfl, rfl⟩ := closeNode_eq hclose
  have hlisted := hbody.listed hfirst hat inferInstance
  have hstops : stop = .stopToken (.keyword word) → u.kindAt 1 ≠ .endOfFile := by
    rintro rfl
    exact (stops_bodyAt hfirst).ne_endOfFile
  have hlisted := listed_secondBranch hbody hbranch hlisted hstops hsecond
  exact .of_silent hkind hlisted (shapeState_of_run hend)

/-! ## Clauses -/

omit hbody in
/-- A list of clauses is checked if each of them is, behind those before it. -/
theorem listed_clauses {k : Keyword} {returns : Option Owner} {starts : Parser Bool}
    [starts.Has keepsShapes 0] (hstarts : starts.Peeks) {outer : Context}
    {clause : List Node → Opening → Parser Node}
    (hclause : ∀ {before s t errors n u}, starts.run s = (true, t) → At text t.read →
      Opens ⟨t.read.input.last, errors⟩ t.read →
      (clause before ⟨t.read.input.last, errors⟩).run t.read = (n, u) →
      Checked returns (before.any isOtherwise) t.read n u ∧
        Reads ⟨t.read.input.last, errors⟩ t.read n u ∧
        Ends ⟨t.read.input.last, errors⟩ n u)
    (hat : At text s)
    (hrun : (clauses outer (.keyword k) starts clause).run s = ((ns, stop), t)) :
    Listed text returns s ns t := by
  have hround : ∀ a b, ClauseRound outer (.keyword k) starts clause a b →
      Listed text returns s a.1.nodes a.2 → Listed text returns s b.1.nodes b.2 := by
    intro a b hround hlisted
    cases hround with
    | @clause n u p s' s₁ t hpass hlook hfound hrun =>
      have hlook' := hlook.trans (hstarts.of_run hfound)
      have hne := hpass.ne_endOfFile
      obtain ⟨honward, hopens, -⟩ := hlisted.at_text.opens hne hlook' s'.errorCount
      obtain ⟨hchecked, hreads, hends⟩ := hclause hfound honward.1 hopens hrun
      have hnodeRead : NodeRead s' n u := .of_run hne hlook' hreads hends
      exact hlisted.add hnodeRead (hchecked.behind hlook'.shapeState_eq)
    | unexpected hpass hlook hfound hmem hlook' hskip =>
      have hlook'' := hlook.trans ((hstarts.of_run hfound).trans hlook')
      refine hlisted.onward ?_ ?_
      · exact hlook''.flows.trans
          ((ParseState.Flows.read _).trans (Flows.of_run inferInstance hskip))
      · exact (shapeState_of_run hskip).trans hlook''.shapeState_eq
  obtain ⟨p, u, hlisted, rfl, -, hlook⟩ := clauses_keeps hstarts
    (I := fun p t => Listed text returns s p.nodes t) (.nil hat) hround hrun
  exact hlisted.onward hlook.flows hlook.shapeState_eq

/-- An OTHERWISE is reported behind another. -/
theorem checked_caseClause {before : List Node} (hat : At text s) (hopens : Opens o s)
    (hrun : (caseClause levels (bodyAt levels) ctx before o).run s = (n, t)) :
    Checked ctx.returns (before.any isOtherwise) s n t := by
  have hwhen (conditions : List Expression) :
      (clauseBody (bodyAt levels) ctx o (.whenClause conditions)).Checks ctx.returns :=
    checks_clauseBody hbody o rfl
  have hotherwise {s' : ParseState} (hat : At text s') (hlast : s'.input.last = o.token)
      (hs' : s'.shapeState = s.shapeState.tellIf (before.any isOtherwise)
        (.of .secondOtherwise [] (some o.token.span)))
      (hrun : (clauseBody (bodyAt levels) ctx o .otherwiseClause).run s' = (n, t)) :
      Checked ctx.returns (before.any isOtherwise) s n t := by
    obtain ⟨header, u, hheader, hrun⟩ := run_of_bind hrun
    obtain ⟨rfl, rfl⟩ := Prod.mk.inj hheader
    obtain ⟨⟨ns, stop⟩, s₂, hinner, hclose⟩ := run_of_bind hrun
    have hspan : n.extent.header = o.token.span := by
      have hlt := hopens.start_lt
      rw [ParseState.place, hopens.last_eq] at hlt
      rw [header_closeNode hclose]
      dsimp only
      rw [hlast, Nat.max_eq_left (Nat.le_of_lt hlt)]
      rfl
    obtain ⟨rfl, hkind, rfl⟩ := closeNode_eq hclose
    have hlisted := hbody.listed hinner hat inferInstance
    refine ⟨?_, Node.allCount_of_children
      (Node.counts_of_none (by rw [hkind]; rfl)) hlisted.counts⟩
    rw [hlisted.shapeState_eq, hs', ← hspan]
    obtain ⟨extent, kind, children⟩ := n
    cases hkind
    rfl
  unfold caseClause at hrun
  split at hrun
  · exact (Checks.behind hwhen).checked hat hrun _
  · split at hrun
    next hbefore =>
      obtain ⟨⟨⟩, s₁, hreport, hrun⟩ := run_of_bind hrun
      have hat₁ := ((Flows.of_run inferInstance hreport).later.onward hat).1
      obtain rfl := (Prod.mk.inj hreport).2
      exact hotherwise hat₁ hopens.last_eq (by rw [hbefore]; rfl) hrun
    next hbefore =>
      exact hotherwise hat hopens.last_eq (by rw [Bool.eq_false_iff.mpr hbefore]; rfl) hrun

theorem checks_menuClause : (menuClause levels (bodyAt levels) ctx o).Checks ctx.returns :=
  .behind fun _ => checks_clauseBody hbody o rfl

theorem checks_caseStatement : (caseStatement levels (bodyAt levels) ctx o).Checks ctx.returns := by
  refine .behind fun subject => .behind fun header => ?_
  constructor
  intro text s n t hat hrun seen
  obtain ⟨⟨ns, stop⟩, s₂, hclauses, hrun⟩ := run_of_bind hrun
  obtain ⟨⟨⟩, t', hend, hclose⟩ := run_of_bind hrun
  obtain ⟨rfl, hkind, rfl⟩ := closeNode_eq hclose
  let inner := (ctx.insideLoop .CASE).withStops caseWords
  have hlisted := @listed_clauses _ _ _ _ _ _ inner.returns _ _ peeks_startsCaseClause _ _
    (fun _ hat hopens hrun =>
      ⟨checked_caseClause hbody _ hat hopens hrun, .caseClause hrun, ends_caseClause hrun⟩) hat
        hclauses
  exact .of_silent (by rw [hkind]; rfl) hlisted (shapeState_of_run hend)

/-- A menu in which nothing can be selected is reported. -/
theorem checks_menuBlock (title : Option Expression) :
    (menuBlock levels (bodyAt levels) ctx o title).Checks ctx.returns := by
  refine .behind fun header => ?_
  constructor
  intro text s n t hat hrun seen
  obtain ⟨⟨ns, stop⟩, s₂, hclauses, hrun⟩ := run_of_bind hrun
  have hlisted := @listed_clauses _ _ _ _ _ _ ctx.insideMenu.returns _ _ peeks_startsMenuClause _ _
    (fun hfound hat _ hrun => ⟨(checks_menuClause hbody _).checked hat hrun _, .menuClause hrun,
      ends_menuClause hfound hrun⟩) hat hclauses
  have hshut {u v : ParseState} (hu : u.shapeState = s₂.shapeState.tellIf (!ns.any isSelectable)
        (.of .emptyMenu [] (some (.between o.token.start header))))
      (hend : (closeBlock o header .MENU stop).run u = ((), v))
      (hclose : (closeNode o header (.menu title) ns).run v = (n, t)) :
      Checked ctx.returns seen s n t := by
    have hheader := header_closeNode hclose
    obtain ⟨rfl, hkind, rfl⟩ := closeNode_eq hclose
    refine ⟨?_, Node.allCount_of_children
      (Node.counts_of_none (by rw [hkind]; rfl)) hlisted.counts⟩
    rw [shapeState_of_run hend, hu, hlisted.shapeState_eq, ← hheader]
    obtain ⟨extent, kind, children⟩ := n
    cases hkind
    rfl
  dsimp only at hrun
  split at hrun
  next hany =>
    obtain ⟨⟨⟩, t', hend, hclose⟩ := run_of_bind hrun
    exact hshut (by rw [hany]; rfl) hend hclose
  next hany =>
    obtain ⟨⟨⟩, u, hreport, hrun⟩ := run_of_bind hrun
    obtain ⟨⟨⟩, t', hend, hclose⟩ := run_of_bind hrun
    refine hshut ?_ hend hclose
    obtain rfl := (Prod.mk.inj hreport).2
    rw [Bool.eq_false_iff.mpr hany]
    rfl

/-! ## All forms and bodies -/

theorem checks_foreachStatement :
    (foreachStatement levels (bodyAt levels) ctx o).Checks ctx.returns := by
  have hloop (cursor : Option String) (arguments : List Expression) (into : List Designator)
      (reoptimization : Bool) : (cursorLoop (bodyAt levels) ctx o (cursor.getD "")
        (.foreachLoop cursor arguments into reoptimization)).Checks ctx.returns :=
    checks_cursorLoop hbody o _ fun _ => rfl
  unfold foreachStatement
  refine .behind fun cursor => .behind fun arguments => .behind fun into => .behind fun found => ?_
  dsimp only
  exact .ite (.behind fun _ => .behind fun _ => hloop _ _ _ _) (hloop _ _ _ _)

theorem checks_forStatement : (forStatement levels (bodyAt levels) ctx o).Checks ctx.returns := by
  have hblock (counter : Option Designator) (first last step : Option Expression) :
      (simpleBlock (bodyAt levels) (ctx.insideLoop .FOR) o .FOR
        (.forLoop counter first last step)).Checks ctx.returns :=
    @checks_simpleBlock _ hbody (ctx.insideLoop .FOR) o _ _ rfl
  unfold forStatement
  refine .behind fun counter => ?_
  dsimp only
  refine .ite (.behind fun _ => ?_) ?_ <;>
  exact .behind fun _ => .behind fun _ => .behind fun _ => hblock _ _ _ _

theorem checks_menuStatement : (menuStatement levels (bodyAt levels) ctx o).Checks ctx.returns := by
  unfold menuStatement
  refine .behind fun kind => ?_
  dsimp only
  exact .ite (.behind fun _ => checks_menuBlock hbody o _)
    (.behind fun _ => checks_menuBlock hbody o _)

omit hbody in
/-- A RETURN is noted, or reported where it may not return anything. -/
theorem checked_returnStatement (hat : At text s) (hopens : Opens o s)
    (hrun : (returnStatement levels ctx o).run s = (n, t)) : Checked ctx.returns seen s n t := by
  obtain ⟨values, u, hvalues, hrun⟩ := run_of_bind hrun
  have hplace :=
    ((Flows.of_run (p := optionalList levels) inferInstance hvalues).later.onward hat).2
  have hlt : o.token.start < u.place := Nat.lt_of_lt_of_le hopens.start_lt hplace
  have hclosed {v : ParseState} (hlast : v.input.last = u.input.last)
      (hv : v.shapeState = u.shapeState.note ctx.returns values.length
        (.between o.token.start u.input.last.stop))
      (hclose : (closeStatement o (.returnValues values)).run v = (n, t)) :
      Checked ctx.returns seen s n t := by
    have hspan : n.extent.span = .between o.token.start u.input.last.stop := by
      obtain ⟨rfl, -⟩ := Prod.mk.inj hclose
      refine congrArg (Span.between o.token.start) ?_
      exact (congrArg (max ·.stop o.token.start) hlast).trans (Nat.max_eq_left (Nat.le_of_lt hlt))
    obtain ⟨rfl, hkind, hchildren⟩ := closeStatement_eq hclose
    refine ⟨?_, Node.allCount_of_children (Node.counts_of_none (by rw [hkind]; rfl))
      (by rw [hchildren]; nofun)⟩
    rw [hv, shapeState_of_run hvalues, ← hspan]
    obtain ⟨extent, kind, children⟩ := n
    cases hkind
    cases hchildren
    rfl
  dsimp only at hrun
  split at hrun
  next owner howner =>
    obtain ⟨⟨⟩, v, hnote, hclose⟩ := run_of_bind hrun
    obtain rfl := (Prod.mk.inj hnote).2
    refine hclosed ?_ ?_ hclose
    · rfl
    · rw [howner]
      exact shapeState_set u owner _
  next hnone =>
    split at hrun
    next hempty =>
      refine hclosed rfl ?_ hrun
      rw [hnone, List.isEmpty_iff.mp hempty]
      rfl
    next hvalues =>
      obtain ⟨stop, w, hstop, hrun⟩ := run_of_bind hrun
      obtain ⟨rfl, rfl⟩ := Prod.mk.inj hstop
      obtain ⟨⟨⟩, v, hreport, hclose⟩ := run_of_bind hrun
      obtain rfl := (Prod.mk.inj hreport).2
      have hlength : (values.length != 0) = true := by simpa using hvalues
      refine hclosed ?_ ?_ hclose
      · rfl
      · rw [hnone, ShapeState.note, hlength]
        rfl

omit hbody in
theorem silent_of_form {kind : NodeKind} {form : Form} (hform : kind.form? = some form)
    (hblock : form.isBlock = false) (hglobals : form ≠ .globals)
    (hreturn : form ≠ .returnValues) :
    kind.isSilent = true := by
  cases kind with
  | globals => exact absurd (Option.some.inj hform).symm hglobals
  | returnValues => exact absurd (Option.some.inj hform).symm hreturn
  | otherwiseClause => cases hform
  | main | function | menu =>
    obtain rfl := Option.some.inj hform
    cases hblock
  | _ => rfl

omit hbody in
/-- Only RETURN tells something about itself. -/
theorem keepsShapes_formWith {form : Form} (hblock : form.isBlock = false)
    (hglobals : form ≠ .globals) (hreturn : form ≠ .returnValues) :
    (formWith levels body form word ctx o).Has keepsShapes 0 := by
  unfold formWith
  cases form with
  | globals => exact absurd rfl hglobals
  | returnValues => exact absurd rfl hreturn
  | ifThen | whileLoop | forLoop | foreachLoop | caseOf | tryBlock | menu | main | function =>
    cases hblock
  | importModule =>
    exact inferInstanceAs ((importStatement o).Has keepsShapes 0)
  | _ => dsimp only; infer_instance

theorem checks_formWith {form : Form} (hblock : form.isBlock = true) :
    (formWith levels (bodyAt levels) form word ctx o).Checks ctx.returns := by
  unfold formWith
  cases form with
  | ifThen =>
    exact .behind fun _ => .behind fun _ => checks_branchedBlock hbody o _ _ rfl (.inl rfl)
  | tryBlock => exact checks_branchedBlock hbody o _ _ rfl (.inr rfl)
  | whileLoop =>
    exact .behind fun _ => @checks_simpleBlock _ hbody (ctx.insideLoop .WHILE) o _ _ rfl
  | forLoop => exact checks_forStatement hbody o
  | foreachLoop => exact checks_foreachStatement hbody o
  | caseOf => exact checks_caseStatement hbody o
  | menu => exact checks_menuStatement hbody o
  | main => exact checks_mainMember hbody o
  | function => exact checks_functionMember hbody o
  | _ => cases hblock

/-- A statement changes the shape state as its node says. -/
theorem checked_statement {form : Form} (hat : At text s) (hne : s.kindAt 1 ≠ .endOfFile)
    (hlook : Looks s u) (hfits : Fits form word u.read)
    (hrun : (formWith levels (bodyAt levels) form word ctx
      ⟨u.read.input.last, s.errorCount⟩).run
      u.read = (n, t)) (seen : Bool) : NodeRead s n t ∧ Checked ctx.returns seen s n t := by
  obtain ⟨haccount, hkind⟩ :=
    (accounts_formWith (accountsBodies levels) ctx
      ⟨u.read.input.last, s.errorCount⟩ hfits).of_run
      hrun
  refine ⟨.of_run hne hlook (.statement hrun hkind) haccount.ends_statement, ?_⟩
  obtain ⟨honward, hopens, -⟩ := hat.opens hne hlook s.errorCount
  suffices hchecked : Checked ctx.returns seen u.read n t from hchecked.behind hlook.shapeState_eq
  cases hblock : form.isBlock with
  | true => exact (checks_formWith hbody _ hblock).checked honward.1 hrun seen
  | false =>
    by_cases hglobals : form = .globals
    · subst hglobals
      exact (checks_globalsMember hbody _).checked honward.1 hrun seen
    by_cases hreturn : form = .returnValues
    · subst hreturn
      exact checked_returnStatement _ honward.1 hopens hrun
    have hsilent : n.kind.isSilent = true := silent_of_form hkind hblock hglobals hreturn
    have hshapeState := (keepsShapes_formWith _ hblock hglobals hreturn).of_run hrun
    have hchildren := haccount.children_of_leaf (block?_of_form hkind hblock hglobals)
    exact .of_silent hsilent (by rw [hchildren]; exact .nil honward.1) hshapeState

end

theorem Skip.shapeState_eq {atLimit : Bool} {ctx : Context} {region : Region}
    {a b : Progress × ParseState} (h : Skip atLimit ctx region a b)
    [keepsShapes.Ignores region.unexpected] : b.2.shapeState = a.2.shapeState := by
  cases h with
  | unavailable hchoice hreport =>
    exact (shapeState_of_run hreport).trans hchoice.looks.shapeState_eq
  | @tooDeep u _ _ t hchoice hlimit =>
    have hshapeState := shapeState_reportLimit t
    rw [hlimit] at hshapeState
    exact hshapeState.trans hchoice.looks.shapeState_eq
  | unexpected hchoice hskip =>
    exact (shapeState_of_run hskip).trans hchoice.looks.shapeState_eq

/-- Bodies change the shape state as their nodes say if each of their statements does. -/
theorem checksBodies_of_rounds {statement : Option FormParser}
    (hbodyAt : bodyAt levels = bodyWith statement)
    (hstatement : ∀ {ctx : Context} {region : Region} {text s u form word n t parse},
      statement = some parse → At text s → Chooses false ctx region s (.form form word) u →
      (parse form word ctx ⟨u.read.input.last, s.errorCount⟩).run u.read = (n, t) →
      ∀ seen, NodeRead s n t ∧ Checked ctx.returns seen s n t) : ChecksBodies levels := by
  constructor
  intro ctx region text s ns stop t hrun hat hunexpected
  have hround : ∀ a b, Round statement ctx region a b →
      Listed text ctx.returns s a.1.nodes a.2 → Listed text ctx.returns s b.1.nodes b.2 := by
    intro a b hround hlisted
    cases hround with
    | statement hparse hchoice hrun hjump hleave =>
      obtain ⟨hnodeRead, hchecked⟩ := hstatement hparse hlisted.at_text hchoice hrun _
      exact (hlisted.add hnodeRead hchecked).onward
        ((Flows.of_run inferInstance hjump).trans hleave.flows)
        (hleave.shapeState_eq.trans (shapeState_of_run hjump))
    | skip hskip =>
      rw [hskip.nodes_eq]
      exact hlisted.onward hskip.flows hskip.shapeState_eq
  rw [hbodyAt] at hrun
  obtain ⟨p, u, hlisted, rfl, -, hlook⟩ := bodyWith_keeps
    (I := fun p t => Listed text ctx.returns s p.nodes t) (.nil hat) hround hrun
  exact hlisted.onward hlook.flows hlook.shapeState_eq

/-- Every body changes the shape state as its nodes say, however deep it is nested. -/
theorem checksBodies (levels : Nat) : ChecksBodies levels := by
  induction levels with
  | zero => exact checksBodies_of_rounds rfl nofun
  | succ levels ih =>
    refine checksBodies_of_rounds rfl fun hparse hat hchoice hrun seen => ?_
    cases hparse
    exact checked_statement ih hat hchoice.passes.ne_endOfFile hchoice.looks hchoice.fits hrun seen

end Parser

end FourGL
