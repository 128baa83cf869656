import FourGL.Proofs.Grammar.Flow

/-!
# What statements write down about names

What the statements without a body write down about names. Declarations go to the owner of the place
if the name is free there, the names of cursors to a loop around the place or to their owner; what
nobody takes is reported. A statement writes down exactly what its node shows (`notes_leaf`).
-/

namespace FourGL

open FourGL.Parser FourGL.ParseState

/-! ## What is written down -/

namespace NodeKind

/-- The names that a node declares, in source order. -/
def declarations : NodeKind → List Declaration
  | .vars _ declared => declared.map .variable
  | .constants _ declared => declared.map .constant
  | .types _ declared => declared.map .type
  | _ => []

/-- The name that a PREPARE or DECLARE gives to a statement or cursor, where it stands at `span`. -/
def cursor? (span : Span) : NodeKind → Option Cursor
  | .prepare name _ => name.map (⟨·, span, .prepared⟩)
  | .declare name .. => name.map (⟨·, span, .declared⟩)
  | _ => none

/-- What a module, a routine or a GLOBALS block has collected. -/
def scope? : NodeKind → Option Scope
  | .module scope .. | .globals scope | .main scope | .function _ _ _ _ scope _ => some scope
  | _ => none

/-- A block or clause that leaves names to what is around it. -/
def isTransparent : NodeKind → Bool
  | .ifThen _ | .elseClause | .whileLoop _ | .forLoop .. | .caseOf _ | .whenClause _
  | .otherwiseClause | .tryBlock | .catchClause | .menu _ | .menuOption _ => true
  | _ => false

end NodeKind

/-- A form of statement that always has a body; GLOBALS has one unless it names a file. -/
def Form.isBlock : Form → Bool
  | .ifThen | .whileLoop | .forLoop | .foreachLoop | .caseOf | .tryBlock | .menu | .main
  | .function => true
  | _ => false

/-- The cursor has its name from a token. -/
structure Cursor.NamedBy (c : Cursor) (t : Token) : Prop where
  name_eq : c.name = t.text
  span_eq : c.span = t.span
  canBeName : t.kind.canBeName = true

/-- Who the variables and the cursors of a place belong to. -/
structure Owners where
  vars : Option Owner
  cursors : Option Owner

def Context.owners (ctx : Context) : Owners := ⟨ctx.vars, ctx.cursors⟩

namespace NameState

/-- Declares a name for an owner, or reports that it is taken. -/
def declare (owner : Owner) (l : NameState) (d : Declaration) : NameState :=
  match (l.scope owner).declare? d with
  | some scope => { l with scope := Function.update l.scope owner scope }
  | none => { l with told := .of .alreadyDefined [d.name] (some d.span) :: l.told }

/-- Declares names one after the other, if there is an owner. -/
def declareAll (owner : Option Owner) (ds : List Declaration) (l : NameState) : NameState :=
  match owner with
  | some owner => ds.foldl (declare owner) l
  | none => l

/-- Gives a cursor to a loop that iterates it, else to its owner, or reports that nobody takes
it. -/
def bind (owner : Option Owner) (c : Cursor) (l : NameState) : NameState :=
  match Names.claim? c l.loops, owner with
  | some loops, _ => { l with loops }
  | none, some owner =>
    { l with scope := Function.update l.scope owner ((l.scope owner).bindCursor c) }
  | none, none => { l with told := .of .cursorRefused [c.name] (some c.span) :: l.told }

/-- Writes down what a statement without a body declares; the name of a cursor stands at `span`. -/
def note (owners : Owners) (span : Span) (kind : NodeKind) (l : NameState) : NameState :=
  match kind.cursor? span with
  | some c => l.bind owners.cursors c
  | none => l.declareAll owners.vars kind.declarations

/-- At the beginning of a loop over a cursor. -/
def enterLoop (cursor : String) (l : NameState) : NameState :=
  { l with loops := { name := cursor } :: l.loops }

/-- What the innermost loop has claimed. -/
def redeclared (l : NameState) : List Cursor := (l.loops.head?.map (·.redeclared)).getD []

/-- At the end of a loop over a cursor: what it has claimed is reported. -/
def leaveLoop (l : NameState) : NameState :=
  { l with
    loops := l.loops.tail
    told := (l.redeclared.map fun c => .of .cursorRedeclared [c.name]
      (some c.span)).reverse ++ l.told }

/-- At the beginning of a routine or a GLOBALS block. -/
def enterBlock (l : NameState) : NameState :=
  { l with scope := Function.update l.scope .block {}, loops := [] }

/-- At the end of a routine or a GLOBALS block, behind which the name state `outer` from before it
holds again. -/
def leaveBlock (outer l : NameState) : NameState :=
  { l with scope := Function.update l.scope .block (outer.scope .block), loops := outer.loops }

def mergeGlobals (scope : Scope) (l : NameState) : NameState :=
  { l with globals := l.globals.merge scope }

theorem scope_enterBlock (l : NameState) (o : Owner) :
    l.enterBlock.scope o = if o = .block then {} else l.scope o := Function.update_apply ..

theorem scope_leaveBlock (outer l : NameState) (o : Owner) :
    (outer.leaveBlock l).scope o = if o = .block then outer.scope o else l.scope o := by
  refine (Function.update_apply ..).trans ?_
  split
  next ho => rw [ho]
  next => rfl

@[simp] theorem scope_enterLoop (l : NameState) (cursor : String) :
    (l.enterLoop cursor).scope = l.scope := rfl

@[simp] theorem scope_leaveLoop (l : NameState) : l.leaveLoop.scope = l.scope := rfl

@[simp] theorem scope_mergeGlobals (l : NameState) (scope : Scope) :
    (l.mergeGlobals scope).scope = l.scope := rfl

@[simp] theorem declareAll_nil (owner : Option Owner) (l : NameState) :
    l.declareAll owner [] = l := by
  cases owner <;> rfl

theorem declareAll_append (owner : Option Owner) (ds es : List Declaration) (l : NameState) :
    l.declareAll owner (ds ++ es) = (l.declareAll owner ds).declareAll owner es := by
  cases owner with
  | none => rfl
  | some owner => exact List.foldl_append

/-- Between the name states, these diagnostics are told of those that pass a test. -/
def Tells (p : Diagnostic → Bool) (l : NameState) (ds : List Diagnostic) (l' : NameState) :
    Prop :=
  (l'.told.filter p).Perm (ds ++ l.told.filter p)

namespace Tells

theorem of_eq (h : l'.told.filter p = ds ++ l.told.filter p) : Tells p l ds l' :=
  List.Perm.of_eq h

theorem trans (h₁ : Tells p l ds l') (h₂ : Tells p l' es l'') : Tells p l (ds ++ es) l'' := by
  refine List.Perm.trans h₂ ((List.Perm.append_left es h₁).trans ?_)
  rw [List.append_assoc]
  exact List.perm_append_comm_assoc ..

theorem perm (h : Tells p l ds l') (hperm : ds.Perm es) : Tells p l es l' :=
  List.Perm.trans h (hperm.append_right _)

/-- All that is told, if nothing was told before. -/
theorem told_perm (h : Tells p l ds l') (hl : l.told = []) : (l'.told.filter p).Perm ds := by
  unfold Tells at h
  rwa [hl, List.filter_nil, List.append_nil] at h

end Tells

/-! ### What an entry leaves alone -/

/-- At most the declarations of one owner have changed. -/
structure ChangesOnly (owner : Option Owner) (l l' : NameState) : Prop where
  loops_eq : l'.loops = l.loops
  globals_eq : l'.globals = l.globals
  scope_eq : ∀ o, owner ≠ some o → l'.scope o = l.scope o
  cursors_eq : ∀ o, (l'.scope o).cursors = (l.scope o).cursors
  told : ∃ new, l'.told = new ++ l.told ∧ ∀ d ∈ new, d.code = Message.alreadyDefined.code

theorem ChangesOnly.refl (owner : Option Owner) (l : NameState) : ChangesOnly owner l l :=
  ⟨rfl, rfl, fun _ _ => rfl, fun _ => rfl, [], rfl, nofun⟩

theorem ChangesOnly.trans (h₁ : ChangesOnly owner l l') (h₂ : ChangesOnly owner l' l'') :
    ChangesOnly owner l l'' where
  loops_eq := h₂.loops_eq.trans h₁.loops_eq
  globals_eq := h₂.globals_eq.trans h₁.globals_eq
  scope_eq o ho := (h₂.scope_eq o ho).trans (h₁.scope_eq o ho)
  cursors_eq o := (h₂.cursors_eq o).trans (h₁.cursors_eq o)
  told := by
    obtain ⟨new₁, heq₁, hnew₁⟩ := h₁.told
    obtain ⟨new₂, heq₂, hnew₂⟩ := h₂.told
    refine ⟨new₂ ++ new₁, by rw [heq₂, heq₁, List.append_assoc], fun d hd => ?_⟩
    exact (List.mem_append.mp hd).elim (hnew₂ d) (hnew₁ d)

theorem cursors_of_declare? {scope scope' : Scope} (h : scope.declare? d = some scope') :
    scope'.cursors = scope.cursors := by
  unfold Scope.declare? at h
  split at h
  · cases h
  · split at h <;> exact Option.some.inj h ▸ rfl

theorem changesOnly_declare (owner : Owner) (l : NameState) (d : Declaration) :
    ChangesOnly (some owner) l (l.declare owner d) := by
  unfold declare
  split
  next scope hscope =>
    refine ⟨rfl, rfl, fun o ho => ?_, fun o => ?_, [], rfl, nofun⟩
    · exact Function.update_of_ne (fun h => ho (congrArg some h.symm)) _ _
    · dsimp only
      by_cases ho : o = owner
      · subst ho
        rw [Function.update_self]
        exact cursors_of_declare? hscope
      · rw [Function.update_of_ne ho]
  next =>
    refine ⟨rfl, rfl, fun _ _ => rfl, fun _ => rfl, [_], rfl, fun e he => ?_⟩
    rw [List.mem_singleton.mp he]
    rfl

theorem changesOnly_declareAll (owner : Option Owner) (l : NameState) (ds : List Declaration) :
    ChangesOnly owner l (l.declareAll owner ds) := by
  cases owner with
  | none => exact .refl _ _
  | some owner =>
    induction ds generalizing l with
    | nil => exact .refl _ _
    | cons d ds ih => exact (changesOnly_declare owner l d).trans (ih _)

/-- At most the loops around the place and the cursors of one owner have changed. -/
structure Bound (owner : Option Owner) (l l' : NameState) : Prop where
  globals_eq : l'.globals = l.globals
  scope_eq : ∀ o, owner ≠ some o → l'.scope o = l.scope o
  declarations_eq : ∀ o, l'.scope o = { l.scope o with cursors := (l'.scope o).cursors }
  told : ∃ new, l'.told = new ++ l.told ∧ ∀ d ∈ new, d.code = Message.cursorRefused.code

theorem bound_bind (owner : Option Owner) (c : Cursor) (l : NameState) :
    Bound owner l (l.bind owner c) := by
  unfold bind
  split
  · exact ⟨rfl, fun _ _ => rfl, fun _ => rfl, [], rfl, nofun⟩
  next owner _ =>
    refine ⟨rfl, fun o ho => ?_, fun o => ?_, [], rfl, nofun⟩
    · exact Function.update_of_ne (fun h => ho (congrArg some h.symm)) _ _
    · dsimp only
      by_cases ho : o = owner
      · subst ho
        rw [Function.update_self]
        rfl
      · rw [Function.update_of_ne ho]
  next =>
    refine ⟨rfl, fun _ _ => rfl, fun _ => rfl, [_], rfl, fun e he => ?_⟩
    rw [List.mem_singleton.mp he]
    rfl

end NameState

/-- A change of what an owner has collected, in terms of the name state. -/
theorem ParseState.nameState_set (s : ParseState) (h : Holding) (o : Owner) :
    ParseState.nameState { s with names := s.names.set h o } =
      { s.nameState with scope := Function.update s.nameState.scope o h.scope } := by
  unfold ParseState.nameState
  congr 1
  · funext o'
    rw [Names.get_set, Function.update_apply]
    split <;> rfl
  · cases o <;> rfl
  · cases o <;> rfl

namespace Parser

/-- The parser changes the name state as its result says. -/
def Writes (f : α → NameState → NameState) (p : Parser α) : Prop :=
  ∀ s, (p.run s).2.nameState = f (p.run s).1 s.nameState

namespace Writes

variable {p : Parser α} {g : α → Parser β} {f : β → NameState → NameState}

theorem keepsNames [hp : p.KeepsNames] {f : α → NameState → NameState}
    (h : ∀ s l, f (p.run s).1 l = l) :
    p.Writes f := fun s => (hp.nameState s).trans (h s _).symm

theorem behind [hp : p.KeepsNames] (hg : ∀ a, (g a).Writes f) : (p >>= g).Writes f := fun s =>
  (hg _ _).trans (congrArg _ (hp.nameState s))

theorem before {f' : α → NameState → NameState} (hp : p.Writes f')
    [hg : ∀ a, (g a).KeepsNames]
    (h : ∀ a s l, f ((g a).run s).1 l = f' a l) : (p >>= g).Writes f := fun s =>
  ((hg _).nameState _).trans ((hp s).trans (h _ _ _).symm)

theorem ite {c : Prop} [Decidable c] {q : Parser α} {f : α → NameState → NameState}
    (hp : p.Writes f) (hq : q.Writes f) : (if c then p else q).Writes f := by
  split
  · exact hp
  · exact hq

end Writes

/-! ## Declarations -/

theorem writes_declareName (ctx : Context) (d : Declaration) :
    (declareName ctx d).Writes fun _ => .declareAll ctx.vars [d] := by
  intro s
  unfold declareName NameState.declareAll
  cases ctx.vars with
  | none => rfl
  | some owner =>
    have hnames : (getNames.run s).1.declare? owner d = ((s.nameState.scope owner).declare? d).map
        fun scope => s.names.set { s.names.get owner with scope } owner := rfl
    simp only [run_bind, List.foldl_cons, List.foldl_nil, NameState.declare, hnames]
    cases (s.nameState.scope owner).declare? d with
    | some scope => exact nameState_set s _ owner
    | none => rfl

theorem writes_declareAll (ctx : Context) (ds : List Declaration) :
    (declareAll ctx ds).Writes fun _ => .declareAll ctx.vars ds := by
  intro s
  induction ds generalizing s with
  | nil => simp [declareAll]
  | cons d ds ih =>
    calc ((declareAll ctx (d :: ds)).run s).2.nameState
        = ((declareName ctx d).run s).2.nameState.declareAll ctx.vars ds := ih _
      _ = (s.nameState.declareAll ctx.vars [d]).declareAll ctx.vars ds := by
        rw [writes_declareName ctx d s]
      _ = s.nameState.declareAll ctx.vars (d :: ds) := (NameState.declareAll_append _ [d] ds _).symm

/-- What holds before a loop and is kept by its rounds holds behind it. -/
theorem whileNext_keeps {I : σ → ParseState → Prop} {guard : σ → Parser (Option γ)}
    {body : σ → γ → Parser σ} (hguard : ∀ a s, I a s → I a ((guard a).run s).2)
    (hbody : ∀ a g s, I a s → I ((body a g).run s.read).1
      ((body a g).run s.read).2) (h : I a s) :
    I ((whileNext guard body a).run s).1 ((whileNext guard body a).run s).2 := by
  let stopping (g : Option γ) : Unit ⊕ γ := g.elim (.inl ()) .inr
  let guard' (a : σ) : Parser (Unit ⊕ γ) := do return stopping (← guard a)
  change I (loopFrom () guard' body a s).1.1 (loopFrom () guard' body a s).2
  fun_induction loopFrom () guard' body a s with
  | case1 a s b t hrun | case2 a s b t hrun =>
    have hkept := hguard a s h
    rwa [show ((guard a).run s).2 = t from congrArg Prod.snd hrun] at hkept
  | case3 a s g t hrun _ _ _ r ih =>
    have hkept := hguard a s h
    rw [show ((guard a).run s).2 = t from congrArg Prod.snd hrun] at hkept
    exact ih (hbody a g t hkept)

/-- A list declares what its items declare. -/
theorem writes_commaList {item : Parser (Option α)} {owner : Option Owner} {f : α → Declaration}
    (hitem : item.Writes fun a => .declareAll owner (a.toList.map f)) :
    (commaList item).Writes fun as => .declareAll owner (as.map f) := by
  intro s
  have htail (as : List α) (t : ParseState)
    (ht : t.nameState = s.nameState.declareAll owner (as.map f)) :
      ((commaTail item as).run t).2.nameState =
        s.nameState.declareAll owner (((commaTail item as).run t).1.map f) := by
    refine whileNext_keeps
      (I := fun (a : List α × Bool) t => t.nameState = s.nameState.declareAll owner (a.1.map f))
      (fun a t h => ?_) (fun a g t h => ?_) ht
    · exact (KeepsNames.nameState inferInstance t).trans h
    · have hnameState : (item.run t.read).2.nameState =
          t.nameState.declareAll owner ((item.run t.read).1.toList.map f) := hitem t.read
      rw [h, ← NameState.declareAll_append] at hnameState
      dsimp only
      rw [run_bind]
      generalize item.run t.read = r at hnameState ⊢
      obtain ⟨_ | b, u⟩ := r
      · simpa using hnameState
      · simpa using hnameState
  have hfirst := hitem s
  unfold commaList
  rw [run_bind]
  generalize item.run s = r at hfirst ⊢
  obtain ⟨_ | a, t⟩ := r
  · exact hfirst
  · exact htail [a] t hfirst

theorem writes_constant (levels : Nat) (ctx : Context) :
    (constant levels ctx).Writes fun c => .declareAll ctx.vars (c.toList.map .constant) := by
  unfold constant
  refine .behind fun named => ?_
  cases named with
  | none => exact .keepsNames fun s l => by simp
  | some named =>
    have hdeclare (c : Constant) :
        Writes (fun c => .declareAll ctx.vars (c.toList.map .constant)) (do
        declareName ctx (.constant c)
        return some c) := .before (writes_declareName ctx _) fun _ _ _ => rfl
    refine .behind fun untyped => ?_
    dsimp only
    refine .ite (.behind fun type => ?_) (.behind fun type => ?_) <;>
    exact .behind fun found => .ite (.behind fun value => hdeclare _)
      (.behind fun value => hdeclare _)

theorem writes_typeName (ctx : Context) :
    (typeName ctx).Writes fun t => .declareAll ctx.vars (t.toList.map .type) := by
  unfold typeName
  refine .behind fun named => ?_
  cases named with
  | none => exact .keepsNames fun s l => by simp
  | some named => exact .behind fun type => .before (writes_declareName ctx _) fun _ _ _ => rfl

theorem writes_bindCursor (ctx : Context) (name : String) (span : Span) (kind : CursorKind) :
    (bindCursor ctx (some (name, span)) kind).Writes fun _ =>
      .bind ctx.cursors ⟨name, span, kind⟩ := by
  intro s
  unfold bindCursor NameState.bind
  cases hclaim : Names.claim? ⟨name, span, kind⟩ s.nameState.loops with
  | some loops =>
    have hbind : (getNames.run s).1.bindCursor? ctx.cursors ⟨name, span, kind⟩ =
        some { s.names with loops } := by
      unfold Names.bindCursor?
      rw [show Names.claim? _ (getNames.run s).1.loops = _ from hclaim]
      rfl
    simp only [run_bind, hbind, hclaim]
    rfl
  | none =>
    have hbind : (getNames.run s).1.bindCursor? ctx.cursors ⟨name, span, kind⟩ =
        ctx.cursors.map fun o =>
          s.names.set
            { s.names.get o with
              scope := (s.names.get o).scope.bindCursor ⟨name, span, kind⟩ } o := by
      unfold Names.bindCursor?
      rw [show Names.claim? _ (getNames.run s).1.loops = _ from hclaim]
      rfl
    simp only [run_bind, hbind, hclaim]
    cases ctx.cursors with
    | some owner => exact nameState_set s _ owner
    | none => rfl

/-! ## Statements without a body -/

theorem writes_variablesStatement (word : Keyword) (ctx : Context) (o : Opening) :
    (variablesStatement word ctx o).Writes fun n => .declareAll ctx.vars n.kind.declarations :=
  .behind fun _ => .behind fun _ => .before (writes_declareAll ctx _) fun _ _ _ => rfl

theorem writes_constantsStatement (levels : Nat) (word : Keyword) (ctx : Context) (o : Opening) :
    (constantsStatement levels word ctx o).Writes fun n =>
      .declareAll ctx.vars n.kind.declarations :=
  .behind fun _ => .before (writes_commaList (writes_constant levels ctx)) fun _ _ _ => rfl

theorem writes_typesStatement (word : Keyword) (ctx : Context) (o : Opening) :
    (typesStatement word ctx o).Writes fun n => .declareAll ctx.vars n.kind.declarations :=
  .behind fun _ => .before (writes_commaList (writes_typeName ctx)) fun _ _ _ => rfl

/-- The name that is read is the next token. -/
theorem expectName_found (h : expectName.run s = (some (name, span), t)) (kind : CursorKind) :
    Cursor.NamedBy ⟨name, span, kind⟩ (s.input.tokenAt 1) := by
  obtain ⟨found, u, hname, h⟩ := run_of_bind h
  obtain ⟨token, v, hpeek, hname⟩ := run_of_bind hname
  obtain ⟨rfl, rfl⟩ := Prod.mk.inj hpeek
  split at hname
  next hcan =>
    obtain ⟨rfl, rfl⟩ := Prod.mk.inj hname
    obtain ⟨h, -⟩ := Prod.mk.inj h
    obtain ⟨rfl, rfl⟩ := Prod.mk.inj (Option.some.inj h)
    exact ⟨rfl, rfl, hcan⟩
  next =>
    obtain ⟨rfl, rfl⟩ := Prod.mk.inj hname
    cases h

/-- The statement writes down what its node declares; the cursor that it names, if any, has its name
from the next token. -/
structure Notes (owners : Owners) (s : ParseState) (n : Node) (t : ParseState) : Prop where
  nameState_eq : t.nameState = s.nameState.note owners (s.input.tokenAt 1).span n.kind
  named : ∀ {c}, n.kind.cursor? (s.input.tokenAt 1).span = some c →
    c.NamedBy (s.input.tokenAt 1)

/-- A statement that binds a cursor, if it has a name, and does nothing else about names. -/
theorem notes_binding {rest : Option (String × Span) → Parser Node}
    [∀ name, (rest name).KeepsNames]
    {ctx : Context} {kind : CursorKind} {s t : ParseState} {n : Node}
    (hcursor : ∀ name u, (rest name).run u = (n, t) →
      (∀ span, n.kind.cursor? span = name.map (⟨·.1, span, kind⟩)) ∧
      n.kind.declarations = [])
    (hrun : (do
      let name ← expectName
      bindCursor ctx name kind
      rest name).run s = (n, t)) : Notes ctx.owners s n t := by
  obtain ⟨name, u, hname, hrun⟩ := run_of_bind hrun
  obtain ⟨⟨⟩, v, hbind, hrun⟩ := run_of_bind hrun
  obtain ⟨hcursor, hdeclarations⟩ := hcursor name v hrun
  cases name with
  | none =>
    obtain ⟨-, rfl⟩ := Prod.mk.inj hbind
    refine ⟨?_, fun hc => ?_⟩
    · rw [KeepsNames.of_run inferInstance hrun, NameState.note, hcursor, hdeclarations]
      simpa using KeepsNames.of_run inferInstance hname
    · rw [hcursor] at hc
      cases hc
  | some name =>
    have hfound := expectName_found hname kind
    refine ⟨?_, fun hc => ?_⟩
    · have hwrites := writes_bindCursor ctx name.1 name.2 kind u
      rw [hbind, KeepsNames.of_run inferInstance hname,
        show name.2 = _ from hfound.span_eq] at hwrites
      rw [KeepsNames.of_run inferInstance hrun, NameState.note, hcursor]
      exact hwrites
    · rw [hcursor] at hc
      obtain rfl := Option.some.inj hc
      exact ⟨hfound.name_eq, rfl, hfound.canBeName⟩

theorem notes_prepareStatement (hrun : (prepareStatement levels ctx o).run s = (n, t)) :
    Notes ctx.owners s n t := by
  refine notes_binding (fun name u hrest => ?_) hrun
  have hkind : ∃ source, n.kind = .prepare (name.map (·.1)) source := by
    obtain ⟨found, v, -, hrest⟩ := run_of_bind hrest
    split at hrest
    · obtain ⟨source, w, -, hclose⟩ := run_of_bind hrest
      exact ⟨source, (closeStatement_eq hclose).2.1⟩
    · exact ⟨none, (closeStatement_eq hrest).2.1⟩
  obtain ⟨source, hkind⟩ := hkind
  rw [hkind]
  exact ⟨fun span => by cases name <;> rfl, rfl⟩

theorem notes_declareStatement (hrun : (declareStatement levels ctx o).run s = (n, t)) :
    Notes ctx.owners s n t := by
  unfold declareStatement at hrun
  refine notes_binding (fun name u hrest => ?_) hrun
  obtain ⟨scroll, _, -, hrest⟩ := run_of_bind hrest
  obtain ⟨_, _, -, hrest⟩ := run_of_bind hrest
  obtain ⟨withHold, _, -, hrest⟩ := run_of_bind hrest
  obtain ⟨⟨prepared, source⟩, _, -, hclose⟩ := run_of_bind hrest
  rw [(closeStatement_eq hclose).2.1]
  exact ⟨fun span => by cases name <;> rfl, rfl⟩

theorem cursor?_of_form {kind : NodeKind} (hform : kind.form? = some f)
    (hf : f ≠ .prepare ∧ f ≠ .declare) (span : Span) : kind.cursor? span = none := by
  cases kind with
  | prepare => exact absurd (Option.some.inj hform).symm hf.1
  | declare => exact absurd (Option.some.inj hform).symm hf.2
  | _ => rfl

theorem declarations_of_form {kind : NodeKind} (hform : kind.form? = some f)
    (hf : f ≠ .vars ∧ f ≠ .constants ∧ f ≠ .types) : kind.declarations = [] := by
  cases kind with
  | vars => exact absurd (Option.some.inj hform).symm hf.1
  | constants => exact absurd (Option.some.inj hform).symm hf.2.1
  | types => exact absurd (Option.some.inj hform).symm hf.2.2
  | _ => rfl

theorem block?_of_form {kind : NodeKind} {form : Form} (hform : kind.form? = some form)
    (hblock : form.isBlock = false) (hglobals : form ≠ .globals) : kind.block? = none := by
  cases kind with
  | globals =>
    obtain rfl := Option.some.inj hform
    exact absurd rfl hglobals
  | _ => first | rfl | (obtain rfl := Option.some.inj hform; cases hblock)

theorem scope?_of_form {kind : NodeKind} (hform : kind.form? = some f)
    (hblock : kind.block? = none) :
    kind.scope? = none := by
  cases kind with
  | module => cases hform
  | globals | main | function => cases hblock
  | _ => rfl

/-- A statement without a body writes down what its node declares. -/
theorem notes_leaf {body : BodyParser} {form : Form} (hleaf : form.isBlock = false)
    (hglobals : form ≠ .globals)
    (hrun : (formWith levels body form word ctx o).run s = (n, t))
    (hform : n.kind.form? = some form) : Notes ctx.owners s n t := by
  have hunnamed (hf : form ≠ .prepare ∧ form ≠ .declare) {c : Cursor}
      (hc : n.kind.cursor? (s.input.tokenAt 1).span = some c) : c.NamedBy (s.input.tokenAt 1) := by
    rw [cursor?_of_form hform hf] at hc
    cases hc
  have hkeepsNames {p : Parser Node} (hp : p.KeepsNames) (hrun : p.run s = (n, t))
      (hf : (form ≠ .vars ∧ form ≠ .constants ∧ form ≠ .types) ∧ form ≠ .prepare ∧
        form ≠ .declare) : Notes ctx.owners s n t := by
    refine ⟨?_, hunnamed hf.2⟩
    rw [NameState.note, cursor?_of_form hform hf.2, declarations_of_form hform hf.1,
      NameState.declareAll_nil]
    exact hp.of_run hrun
  have hdeclares {p : Parser Node}
      (hp : p.Writes fun n => .declareAll ctx.vars n.kind.declarations) (hrun : p.run s = (n, t))
      (hf : form ≠ .prepare ∧ form ≠ .declare) : Notes ctx.owners s n t := by
    refine ⟨?_, hunnamed hf⟩
    have hwrites := hp s
    rw [hrun] at hwrites
    rw [NameState.note, cursor?_of_form hform hf]
    exact hwrites
  unfold formWith at hrun
  cases form with
  | vars => exact hdeclares (writes_variablesStatement word ctx o) hrun (by decide)
  | constants => exact hdeclares (writes_constantsStatement levels word ctx o) hrun (by decide)
  | types => exact hdeclares (writes_typesStatement word ctx o) hrun (by decide)
  | prepare => exact notes_prepareStatement hrun
  | declare => exact notes_declareStatement hrun
  | assignment | call | returnValues | output | sleep | setNull | exit | continueLoop | cursor
  | whenever | run | importModule | database | menuControl =>
    exact hkeepsNames inferInstance hrun (by decide)
  | globals => exact absurd rfl hglobals
  | ifThen | whileLoop | forLoop | foreachLoop | caseOf | tryBlock | menu | main | function =>
    cases hleaf

end Parser

end FourGL
