import FourGL.Proofs.Grammar.NodesRead

/-!
# Declared names

Variables, constants and types belong to the routine or GLOBALS block around them, else to the
module. Each of these owners lists the first declaration of every name, whichever kind it is of; the
others are reported. What the GLOBALS blocks declare adds up in the module, where a name that an
earlier block has keeps its declaration.
-/

namespace FourGL

open FourGL.Parser FourGL.ParseState

theorem sameName_comm (a b : String) : sameName a b = sameName b a := by
  unfold sameName
  exact Bool.beq_comm

theorem sameName_congr {a b : String} (h : sameName a b = true) (c : String) :
    sameName a c = sameName b c := by
  unfold sameName
  rw [(sameName_iff a b).mp h]

/-- Each member of a list with those before it, where the list stands behind `before`. -/
def withEarlier (before : List α) : List α → List (List α × α)
  | [] => []
  | a :: as => (before, a) :: withEarlier (before ++ [a]) as

theorem withEarlier_append (before as bs : List α) :
    withEarlier before (as ++ bs) = withEarlier before as ++ withEarlier (before ++ as) bs := by
  induction as generalizing before with
  | nil => simp [withEarlier]
  | cons a as ih => simp [withEarlier, ih]

/-! ## First declarations of names -/

namespace Declaration

def asVariable? : Declaration → Option Variable
  | .variable v => some v
  | _ => none

def asConstant? : Declaration → Option Constant
  | .constant c => some c
  | _ => none

def asType? : Declaration → Option TypeName
  | .type t => some t
  | _ => none

/-- One of the declarations has the name, in any case. -/
def named (ds : List Declaration) (name : String) : Bool := ds.any (sameName ·.name name)

/-- The declarations whose name none before them has. -/
def firsts (ds : List Declaration) : List Declaration :=
  ((withEarlier [] ds).filter fun x => !named x.1 x.2.name).map (·.2)

/-- The declarations, behind others, whose name is taken. -/
def repeats (before ds : List Declaration) : List Declaration :=
  ((withEarlier before ds).filter fun x => named x.1 x.2.name).map (·.2)

/-- What is to be said about a declaration whose name is taken. -/
def refusal (d : Declaration) : Diagnostic := .of .alreadyDefined [d.name] (some d.span)

theorem firsts_concat (ds : List Declaration) (d : Declaration) :
    firsts (ds ++ [d]) = if named ds d.name then firsts ds else firsts ds ++ [d] := by
  unfold firsts
  rw [withEarlier_append, List.filter_append, List.map_append]
  split <;> simp_all [withEarlier]

theorem repeats_append (before ds es : List Declaration) :
    repeats before (ds ++ es) = repeats before ds ++ repeats (before ++ ds) es := by
  unfold repeats
  rw [withEarlier_append, List.filter_append, List.map_append]

theorem named_concat (ds : List Declaration) (d : Declaration) (name : String) :
    named (ds ++ [d]) name = (named ds name || sameName d.name name) := by
  simp [named]

/-- The first declarations have all the names. -/
theorem named_firsts (ds : List Declaration) (name : String) :
    named (firsts ds) name = named ds name := by
  induction ds using List.reverseRecOn with
  | nil => rfl
  | append_singleton ds d ih =>
    rw [firsts_concat, named_concat]
    split
    next htaken =>
      rw [ih]
      cases hsame : sameName d.name name with
      | false => rw [Bool.or_false]
      | true =>
        obtain ⟨e, he, hname⟩ := List.any_eq_true.mp htaken
        have hfound : named ds name = true := by
          refine List.any_eq_true.mpr ⟨e, he, ?_⟩
          rw [sameName_congr hname, hsame]
        rw [hfound, Bool.or_true]
    next => rw [named_concat, ih]

/-- No two first declarations have the same name. -/
theorem pairwise_firsts (ds : List Declaration) :
    (firsts ds).Pairwise fun d e => sameName d.name e.name = false := by
  induction ds using List.reverseRecOn with
  | nil => exact .nil
  | append_singleton ds d ih =>
    rw [firsts_concat]
    split
    · exact ih
    next hfree =>
      refine List.pairwise_append.mpr ⟨ih, List.pairwise_singleton _ _, fun e he f hf => ?_⟩
      rw [List.mem_singleton.mp hf]
      rw [← named_firsts, Bool.not_eq_true] at hfree
      exact Bool.eq_false_iff.mpr (List.any_eq_false.mp hfree e he)

/-- Declarations, sorted by what they declare. -/
theorem perm_kinds (ds : List Declaration) :
    ((ds.filterMap asVariable?).map Declaration.variable ++
      (ds.filterMap asConstant?).map Declaration.constant ++
      (ds.filterMap asType?).map Declaration.type).Perm ds := by
  induction ds with
  | nil => exact .nil
  | cons d ds ih =>
    cases d with
    | «variable» v => exact ih.cons _
    | constant c =>
      refine .trans ?_ (ih.cons _)
      simp only [List.filterMap_cons, asVariable?, asConstant?, asType?, List.map_cons,
        List.append_assoc]
      exact List.perm_middle
    | type t =>
      refine .trans ?_ (ih.cons _)
      simp only [List.filterMap_cons, asVariable?, asConstant?, asType?, List.map_cons]
      exact List.perm_middle

end Declaration

open Declaration

/-- The scope lists, of these declarations, the first of each name. -/
structure Scope.Lists (scope : Scope) (ds : List Declaration) : Prop where
  vars_eq : scope.vars = (firsts ds).filterMap asVariable?
  constants_eq : scope.constants = (firsts ds).filterMap asConstant?
  types_eq : scope.types = (firsts ds).filterMap asType?

namespace Scope

theorem declares_eq (s : Scope) (name : String) : s.declares name = named s.declarations name := by
  simp [declares, declarations, named, List.any_append, List.any_map, Function.comp_def,
    Declaration.name, Bool.or_assoc]

namespace Lists

theorem nil : Lists {} [] := ⟨rfl, rfl, rfl⟩

theorem perm {scope : Scope} (h : scope.Lists ds) : scope.declarations.Perm (firsts ds) := by
  unfold Scope.declarations
  rw [h.vars_eq, h.constants_eq, h.types_eq]
  exact perm_kinds _

theorem declares {scope : Scope} (h : scope.Lists ds) (name : String) :
    scope.declares name = named ds name := by
  rw [declares_eq, ← named_firsts ds]
  exact Bool.eq_iff_iff.mpr (by simp [named, h.perm.mem_iff])

theorem pairwise {scope : Scope} (h : scope.Lists ds) :
    scope.declarations.Pairwise fun d e => sameName d.name e.name = false :=
  (h.perm.pairwise_iff fun {d e} hne => by rwa [sameName_comm]).mpr (pairwise_firsts ds)

/-- A declaration more is listed if its name is free. -/
theorem declare? {scope : Scope} (h : scope.Lists ds) (d : Declaration) :
    scope.declare? d = none ∧ named ds d.name = true ∧ scope.Lists (ds ++ [d]) ∨
      ∃ scope', scope.declare? d = some scope' ∧ named ds d.name = false ∧
        scope'.Lists (ds ++ [d]) := by
  unfold Scope.declare?
  rw [h.declares]
  cases hnamed : named ds d.name with
  | true =>
    refine .inl ⟨rfl, rfl, ?_⟩
    constructor <;> rw [firsts_concat, if_pos hnamed]
    · exact h.vars_eq
    · exact h.constants_eq
    · exact h.types_eq
  | false =>
    refine .inr ?_
    cases d <;> refine ⟨_, rfl, rfl, ?_⟩ <;> constructor <;>
      simp [firsts_concat, hnamed, h.vars_eq, h.constants_eq, h.types_eq, asVariable?,
        asConstant?, asType?]

end Lists

end Scope

/-! ## Declaring for an owner -/

namespace NameState

/-- Declaring names one after the other lists the first of each name and reports the others. -/
theorem lists_declareAll {l : NameState} (h : (l.scope o).Lists before) (ds : List Declaration) :
    ((l.declareAll (some o) ds).scope o).Lists (before ++ ds) ∧
      (l.declareAll (some o) ds).told = ((repeats before ds).map refusal).reverse ++ l.told := by
  induction ds generalizing l before with
  | nil => exact ⟨by simpa using h, rfl⟩
  | cons d ds ih =>
    have hstep : ((l.declare o d).scope o).Lists (before ++ [d]) ∧
        (l.declare o d).told = ((repeats before [d]).map refusal).reverse ++ l.told := by
      unfold declare
      obtain ⟨hdeclare, hnamed, hlists⟩ | ⟨scope, hdeclare, hnamed, hlists⟩ := h.declare? d
      · rw [hdeclare]
        exact ⟨hlists, by simp [repeats, withEarlier, hnamed, refusal]⟩
      · rw [hdeclare]
        exact ⟨by simpa using hlists, by simp [repeats, withEarlier, hnamed]⟩
    obtain ⟨hlists, htold⟩ := ih hstep.1
    refine ⟨by simpa [declareAll] using hlists, ?_⟩
    rw [show l.declareAll (some o) (d :: ds) = (l.declare o d).declareAll
      (some o) ds from rfl, htold,
      hstep.2, show repeats before (d :: ds) = _ from repeats_append before [d] ds, List.map_append,
      List.reverse_append, List.append_assoc]

end NameState

/-! ## Owners in a tree -/

namespace Node

/-- The names that trees declare outside of the routines and GLOBALS blocks in them. -/
def owned (ns : List Node) : List Declaration :=
  (walkList [] ns).flatMap fun x =>
    if x.1.any (·.kind.scope?.isSome) then [] else x.2.kind.declarations

/-- What is to be said about the names that a module, routine or GLOBALS block owns. -/
def refusals (n : Node) : List Diagnostic :=
  if n.kind.scope?.isSome then (repeats [] (owned n.children)).map refusal else []

/-- What is to be said about all names that trees declare. -/
def allRefusals (ns : List Node) : List Diagnostic := (walkList [] ns).flatMap (·.2.refusals)

theorem owned_append (ns ms : List Node) : owned (ns ++ ms) = owned ns ++ owned ms := by
  unfold owned
  rw [walkList_append, List.flatMap_append]

theorem owned_singleton (n : Node) :
    owned [n] = n.kind.declarations ++ if n.kind.scope?.isSome then [] else owned n.children := by
  unfold owned
  rw [walkList, walkList, List.append_nil, walk_eq, List.flatMap_cons, walkList_around [n],
    List.flatMap_map]
  congr 1
  split
  next h => exact List.flatMap_eq_nil_iff.mpr fun x _ => by simp [h]
  next h => simp [Bool.not_eq_true _ ▸ h]

theorem allRefusals_append (ns ms : List Node) :
    allRefusals (ns ++ ms) = allRefusals ns ++ allRefusals ms := by
  unfold allRefusals
  rw [walkList_append, List.flatMap_append]

theorem allRefusals_singleton (n : Node) :
    allRefusals [n] = n.refusals ++ allRefusals n.children := by
  unfold allRefusals
  rw [walkList, walkList, List.append_nil, walk_eq, List.flatMap_cons, walkList_around [n],
    List.flatMap_map]

end Node

/-! ## What is read -/

/-- The diagnostic says that a name is taken. -/
def Diagnostic.aboutDeclaration (d : Diagnostic) : Bool := d.code == Message.alreadyDefined.code

theorem aboutDeclaration_refusal (d : Declaration) : d.refusal.aboutDeclaration = true :=
  beq_self_eq_true Message.alreadyDefined.code

/-- Nothing is told where all that is new does not pass. -/
theorem NameState.Tells.nothing {l l' : NameState} (h : l'.told = new ++ l.told)
    (hnew : ∀ d ∈ new, p d = false) : l.Tells p [] l' := by
  refine .of_eq ?_
  rw [h, List.filter_append, List.filter_eq_nil_iff.mpr fun d hd => by simp [hnew d hd]]

theorem NodeKind.scope?_of_isTransparent {kind : NodeKind} (h : kind.isTransparent = true) :
    kind.scope? = none := by
  cases kind <;> first | rfl | cases h

/-- Between the name states, an owner who has made the declarations `before` makes those in the
nodes, and what they and the owners in the nodes repeat is told. -/
structure NameState.Makes (o : Owner) (before : List Declaration) (l : NameState) (ns : List Node)
    (l' : NameState) : Prop where
  lists : (l'.scope o).Lists (before ++ Node.owned ns)
  tells : l.Tells (·.aboutDeclaration)
    ((repeats before (Node.owned ns)).map refusal ++ Node.allRefusals ns) l'

theorem Scope.Lists.congr {scope scope' : Scope} (h : scope.Lists ds)
    (heq : scope' = { scope with cursors := scope'.cursors }) : scope'.Lists ds := by
  rw [heq]
  exact ⟨h.vars_eq, h.constants_eq, h.types_eq⟩

namespace NameState.Makes

theorem append (h₁ : Makes o before l ns l')
    (h₂ : Makes o (before ++ Node.owned ns) l' ms l'') :
    Makes o before l (ns ++ ms) l'' := by
  refine ⟨?_, (h₁.tells.trans h₂.tells).perm ?_⟩
  · rw [Node.owned_append, ← List.append_assoc]
    exact h₂.lists
  · rw [Node.owned_append, repeats_append, Node.allRefusals_append, List.map_append,
      List.append_assoc, List.append_assoc]
    exact (List.perm_append_comm_assoc ..).append_left _

/-- A statement without a body makes its own declarations. -/
theorem leaf {l : NameState} {owners : Owners} (h : (l.scope o).Lists before)
    (howner : owners.vars = some o) (hscope : n.kind.scope? = none) (hchildren : n.children = [])
    (span : Span) : Makes o before l [n] (l.note owners span n.kind) := by
  have howned : Node.owned [n] = n.kind.declarations := by
    rw [Node.owned_singleton, hscope, hchildren]
    exact List.append_nil _
  have hrefusals : Node.allRefusals [n] = [] := by
    rw [Node.allRefusals_singleton, Node.refusals, hscope, hchildren]
    rfl
  unfold note
  split
  next c hc =>
    have hbound := bound_bind owners.cursors c l
    have hdeclarations : n.kind.declarations = [] := by
      cases hkind : n.kind <;> rw [hkind] at hc <;> first | rfl | cases hc
    rw [hdeclarations] at howned
    constructor
    · rw [howned, List.append_nil]
      exact h.congr (hbound.declarations_eq o)
    · obtain ⟨new, hnew, hcode⟩ := hbound.told
      rw [howned, hrefusals]
      exact .nothing hnew fun d hd => by rw [Diagnostic.aboutDeclaration, hcode d hd]; rfl
  next =>
    rw [howner]
    obtain ⟨hlists, htold⟩ := lists_declareAll h n.kind.declarations
    refine ⟨howned ▸ hlists, ?_⟩
    rw [howned, hrefusals, List.append_nil]
    refine List.Perm.trans (.of_eq ?_) ((List.reverse_perm _).append_right _)
    rw [htold, List.filter_append, List.filter_eq_self.mpr fun d hd => ?_]
    obtain ⟨e, -, rfl⟩ := List.mem_map.mp (List.mem_reverse.mp hd)
    exact aboutDeclaration_refusal e

/-- A block that leaves names to what is around it makes the declarations in it. -/
theorem through {l : NameState} (h : Makes o before l n.children l') (hscope : n.kind.scope? = none)
    (hdeclarations : n.kind.declarations = []) : Makes o before l [n] l' := by
  have howned : Node.owned [n] = Node.owned n.children := by
    rw [Node.owned_singleton, hscope, hdeclarations]
    rfl
  have hrefusals : Node.allRefusals [n] = Node.allRefusals n.children := by
    rw [Node.allRefusals_singleton, Node.refusals, hscope]
    rfl
  constructor
  · rw [howned]
    exact h.lists
  · rw [howned, hrefusals]
    exact h.tells

/-- What is told at the end of a loop is not about declarations. -/
theorem ofLoop {l : NameState} (h : Makes o before (l.enterLoop cursor) ns l') :
    Makes o before l ns l'.leaveLoop := by
  have htells : l.Tells (·.aboutDeclaration) _ l' := h.tells
  refine ⟨h.lists, (htells.trans ?_).perm (.of_eq (List.append_nil _))⟩
  refine .nothing rfl fun d hd => ?_
  obtain ⟨c, -, rfl⟩ := List.mem_map.mp (List.mem_reverse.mp hd)
  rfl

/-- A routine or a GLOBALS block makes no declaration for what is around it. -/
theorem around {l l₁ l₂ l' : NameState} (h : (l.scope o).Lists before)
    (hinner : Makes .block [] l₁ n.children l₂) (hscope : n.kind.scope?.isSome = true)
    (hdeclarations : n.kind.declarations = []) (hsame : l'.scope o = l.scope o)
    (hbefore : l₁.told = l.told) (hbehind : l'.told = l₂.told) : Makes o before l [n] l' := by
  have howned : Node.owned [n] = [] := by
    rw [Node.owned_singleton, hscope, hdeclarations]
    rfl
  constructor
  · rw [howned, hsame, List.append_nil]
    exact h
  · rw [howned, Node.allRefusals_singleton, Node.refusals, if_pos hscope]
    have htells := hinner.tells
    unfold Tells at htells ⊢
    rw [hbehind, ← hbefore]
    exact htells

end NameState.Makes

/-- What is read makes the declarations of its nodes. -/
theorem NodesRead.makes (h : NodesRead owners s ns t) (howner : owners.vars = some o)
    (hlists : (s.nameState.scope o).Lists before) : s.nameState.Makes o before ns t.nameState := by
  induction h generalizing o before with
  | idle _ hnameState =>
    rw [hnameState]
    exact ⟨by simpa [Node.owned, Node.walkList] using hlists, List.Perm.refl _⟩
  | append _ _ ih₁ ih₂ =>
    have hfirst := ih₁ howner hlists
    exact hfirst.append (ih₂ howner hfirst.lists)
  | leaf _ _ hscope hchildren _ hnameState =>
    rw [hnameState]
    exact .leaf hlists howner hscope hchildren _
  | node _ _ hinner _ hencloses ih =>
    have hdeclarations := hencloses.writes_nothing.1
    cases hencloses with
    | plain hkind hbefore hbehind =>
      rw [hbefore] at ih
      rw [hbehind]
      exact (ih howner hlists).through (NodeKind.scope?_of_isTransparent hkind) hdeclarations
    | loop hkind hbefore hbehind =>
      rw [hbefore] at ih
      rw [hbehind]
      exact (ih howner hlists).ofLoop.through (by rw [hkind]; rfl) hdeclarations
    | routine howners _ hscope hbefore hbehind =>
      obtain rfl : Owner.module = o :=
        Option.some.inj ((congrArg Owners.vars howners).symm.trans howner)
      have hsame := hinner.scope_eq (o := .module) nofun nofun
      rw [hbefore] at ih hsame
      refine .around hlists (ih rfl .nil) (by rw [hscope]; rfl) hdeclarations ?_ rfl ?_
      · rw [hbehind, NameState.scope_leaveBlock, if_neg (by decide), hsame,
          NameState.scope_enterBlock, if_neg (by decide)]
      · rw [hbehind]
        rfl
    | globals howners hkind hbefore hbehind =>
      obtain rfl : Owner.module = o :=
        Option.some.inj ((congrArg Owners.vars howners).symm.trans howner)
      have hsame := hinner.scope_eq (o := .module) nofun fun _ => rfl
      rw [hbefore] at ih hsame
      refine .around hlists (ih rfl .nil) (by rw [hkind]; rfl) hdeclarations ?_ rfl ?_
      · rw [hbehind, NameState.scope_mergeGlobals, NameState.scope_leaveBlock,
          if_neg (by decide), hsame, NameState.scope_enterBlock, if_neg (by decide)]
      · rw [hbehind]
        rfl

/-- What stands in a routine or a GLOBALS block belongs to it. -/
theorem NodesRead.lists_block {l : NameState} {inner : Owners} (h : NodesRead inner s ns t)
    (hvars : inner.vars = some .block)
    (hbefore : s.nameState = l.enterBlock) : (t.nameState.scope .block).Lists (Node.owned ns) := by
  have hempty : (s.nameState.scope .block).Lists [] := by
    rw [hbefore]
    exact .nil
  exact (h.makes hvars hempty).lists

/-- Every owner below the nodes lists what belongs to it. -/
theorem NodesRead.lists_below (h : NodesRead owners s ns t) {n : Node} (hn : n ∈ ns)
    (hreach : n.Reaches path m) (hscope : m.kind.scope? = some scope) :
    scope.Lists (Node.owned m.children) := by
  induction h generalizing n path with
  | idle => cases hn
  | append _ _ ih₁ ih₂ =>
    obtain hn | hn := List.mem_append.mp hn
    · exact ih₁ hn hreach
    · exact ih₂ hn hreach
  | leaf _ _ hleaf hchildren =>
    obtain rfl := List.mem_singleton.mp hn
    obtain ⟨-, rfl⟩ | ⟨c, hc, -⟩ := hreach.root_or_below
    · rw [hleaf] at hscope
      cases hscope
    · rw [hchildren] at hc
      cases hc
  | node _ _ hinner _ hencloses ih =>
    obtain rfl := List.mem_singleton.mp hn
    obtain ⟨-, rfl⟩ | ⟨c, hc, path', hreach, -⟩ := hreach.root_or_below
    · cases hencloses with
      | plain hkind =>
        rw [NodeKind.scope?_of_isTransparent hkind] at hscope
        cases hscope
      | loop hkind =>
        rw [hkind] at hscope
        cases hscope
      | routine _ _ hkind hbefore =>
        obtain rfl := Option.some.inj (hkind.symm.trans hscope)
        exact hinner.lists_block rfl hbefore
      | globals _ hkind hbefore =>
        rw [hkind] at hscope
        obtain rfl := Option.some.inj hscope
        exact hinner.lists_block rfl hbefore
    · exact ih hc hreach

/-! ## What the GLOBALS blocks declare -/

namespace Scope

/-- The scope without the names that one of the others declares. -/
def without (s : Scope) (others : List Scope) : Scope where
  vars := s.vars.filter fun v => !others.any (·.declares v.name)
  constants := s.constants.filter fun c => !others.any (·.declares c.name)
  types := s.types.filter fun t => !others.any (·.declares t.name)

/-- The declarations of scopes, one behind the other. -/
def concat (ss : List Scope) : Scope where
  vars := ss.flatMap (·.vars)
  constants := ss.flatMap (·.constants)
  types := ss.flatMap (·.types)

/-- Scopes one behind the other, each without the names that one before it declares. -/
def joined (ss : List Scope) : Scope := concat ((withEarlier [] ss).map fun x => x.2.without x.1)

theorem joined_concat (ss : List Scope) (s : Scope) :
    joined (ss ++ [s]) = concat [joined ss, s.without ss] := by
  simp [joined, concat, withEarlier_append, withEarlier]

theorem declares_congr (s : Scope) (h : sameName a b = true) : s.declares a = s.declares b := by
  simp only [declares, sameName_comm _ a, sameName_comm _ b, sameName_congr h]

/-- Declaring a name where it is free leaves it declared, and no other. -/
theorem declares_getD_declare? (s : Scope) (d : Declaration) (name : String) :
    ((s.declare? d).getD s).declares name = (s.declares name || sameName d.name name) := by
  unfold declare?
  split
  next htaken =>
    cases hsame : sameName d.name name with
    | false => rw [Bool.or_false, Option.getD_none]
    | true => rw [Option.getD_none, ← s.declares_congr hsame, htaken, Bool.true_or]
  next =>
    cases d <;> simp [declares, Declaration.name, Bool.or_assoc, Bool.or_comm, Bool.or_left_comm]

theorem declares_merge (s other : Scope) (name : String) :
    (s.merge other).declares name = (s.declares name || other.declares name) := by
  have hfold (ds : List Declaration) :
    (ds.foldl (fun s d => (s.declare? d).getD s) s).declares name =
      (s.declares name || named ds name) := by
    induction ds generalizing s with
    | nil => exact (Bool.or_false _).symm
    | cons d ds ih =>
      rw [List.foldl_cons, ih, declares_getD_declare?, Bool.or_assoc]
      rfl
  rw [declares_eq other]
  exact hfold _

theorem declares_foldl_merge (s : Scope) (ss : List Scope) (name : String) :
    (ss.foldl merge s).declares name = (s.declares name || ss.any (·.declares name)) := by
  induction ss generalizing s with
  | nil => exact (Bool.or_false _).symm
  | cons other ss ih => rw [List.foldl_cons, ih, declares_merge, List.any_cons, Bool.or_assoc]

/-- Of declarations with different names, those are added whose name is free. -/
theorem foldl_declare? (s : Scope) {ds : List Declaration}
    (h : ds.Pairwise fun d e => sameName d.name e.name = false) :
    ds.foldl (fun s d => (s.declare? d).getD s) s =
      { s with
        vars := s.vars ++ (ds.filter fun d => !s.declares d.name).filterMap asVariable?
        constants := s.constants ++ (ds.filter fun d => !s.declares d.name).filterMap asConstant?
        types := s.types ++ (ds.filter fun d => !s.declares d.name).filterMap asType? } := by
  induction ds generalizing s with
  | nil => simp
  | cons d ds ih =>
    obtain ⟨hd, hds⟩ := List.pairwise_cons.mp h
    have hrest : (ds.filter fun e => !((s.declare? d).getD s).declares e.name) =
        ds.filter fun e => !s.declares e.name :=
      List.filter_congr fun e he => by rw [declares_getD_declare?, hd e he, Bool.or_false]
    rw [List.foldl_cons, ih _ hds, hrest]
    cases htaken : s.declares d.name with
    | true => simp [declare?, htaken]
    | false =>
      rw [List.filter_cons_of_pos (by simp [htaken])]
      unfold declare?
      rw [htaken]
      cases d <;> simp [List.filterMap_cons, asVariable?, asConstant?, asType?]

/-- A scope with different names is merged as a whole, without the names that are taken. -/
theorem merge_eq_concat (s : Scope) {other : Scope} (hcursors : s.cursors = [])
    (h : other.declarations.Pairwise fun d e => sameName d.name e.name = false) :
    s.merge other = concat [s, other.without [s]] := by
  unfold merge
  rw [foldl_declare? s h]
  simp only [declarations, List.filter_append, List.filterMap_append, List.filter_map]
  simp [concat, without, Function.comp_def, List.filterMap_map, asVariable?, asConstant?, asType?,
    Declaration.name, hcursors]

end Scope

/-- What a GLOBALS block declares. -/
def NodeKind.globals? : NodeKind → Option Scope
  | .globals scope => some scope
  | _ => none

theorem NodeKind.scope?_of_globals? {kind : NodeKind} (h : kind.globals? = some scope) :
    kind.scope? = some scope := by
  cases kind <;> first | exact h | cases h

namespace Node

/-- What the GLOBALS blocks in trees declare, in source order. -/
def globalsScopes (ns : List Node) : List Scope := (walkList [] ns).filterMap (·.2.kind.globals?)

theorem globalsScopes_append (ns ms : List Node) :
    globalsScopes (ns ++ ms) = globalsScopes ns ++ globalsScopes ms := by
  unfold globalsScopes
  rw [walkList_append, List.filterMap_append]

theorem globalsScopes_singleton (n : Node) :
    globalsScopes [n] = n.kind.globals?.toList ++ globalsScopes n.children := by
  unfold globalsScopes
  rw [walkList, walkList, List.append_nil, walk_eq, List.filterMap_cons, walkList_around [n],
    List.filterMap_map]
  cases n.kind.globals? <;> rfl

end Node

theorem NodeKind.globals?_of_isTransparent {kind : NodeKind} (h : kind.isTransparent = true) :
    kind.globals? = none := by
  cases kind <;> first | rfl | cases h

theorem NodeKind.globals?_of_block? {kind : NodeKind} (h : kind.block? ≠ some .GLOBALS) :
    kind.globals? = none := by
  cases kind <;> first | rfl | exact absurd rfl h

/-- GLOBALS blocks stand only where variables belong to the module. -/
theorem NodesRead.globalsScopes_eq_nil (h : NodesRead owners s ns t)
    (hvars : owners.vars ≠ some .module) :
    Node.globalsScopes ns = [] := by
  induction h with
  | idle => rfl
  | append _ _ ih₁ ih₂ =>
    rw [Node.globalsScopes_append, ih₁ hvars, ih₂ hvars, List.nil_append]
  | leaf _ hkind _ hchildren =>
    rw [Node.globalsScopes_singleton, hchildren, NodeKind.globals?_of_block? (by simp [hkind])]
    rfl
  | node _ _ _ _ hencloses ih =>
    rw [Node.globalsScopes_singleton]
    cases hencloses with
    | plain hkind => rw [NodeKind.globals?_of_isTransparent hkind, ih hvars]; rfl
    | loop hkind => rw [hkind, ih hvars]; rfl
    | routine howners => exact absurd (congrArg Owners.vars howners) hvars
    | globals howners => exact absurd (congrArg Owners.vars howners) hvars

/-- What is read merges the GLOBALS blocks in it, one after the other. -/
theorem NodesRead.globals_eq (h : NodesRead owners s ns t) :
    t.nameState.globals = (Node.globalsScopes ns).foldl .merge s.nameState.globals := by
  induction h with
  | idle _ hnameState => rw [hnameState]; rfl
  | append _ _ ih₁ ih₂ => rw [Node.globalsScopes_append, List.foldl_append, ih₂, ih₁]
  | leaf _ hkind _ hchildren _ hnameState =>
    rw [Node.globalsScopes_singleton, hchildren,
      NodeKind.globals?_of_block? (by simp [hkind]), hnameState,
      NameState.note]
    split
    · exact (NameState.bound_bind _ _ _).globals_eq
    · exact (NameState.changesOnly_declareAll _ _ _).globals_eq
  | node _ _ hinner _ hencloses ih =>
    rw [Node.globalsScopes_singleton]
    cases hencloses with
    | plain hkind hbefore hbehind =>
      rw [NodeKind.globals?_of_isTransparent hkind, hbehind, ih, hbefore]
      rfl
    | loop hkind hbefore hbehind =>
      rw [hkind, hbehind]
      exact ih.trans (by rw [hbefore]; rfl)
    | routine _ hkind _ hbefore hbehind =>
      rw [hinner.globalsScopes_eq_nil (by decide)] at ih ⊢
      rw [NodeKind.globals?_of_block? (by obtain h | h := hkind <;> simp [h]), hbehind]
      exact ih.trans (by rw [hbefore]; rfl)
    | globals _ hkind hbefore hbehind =>
      rw [hinner.globalsScopes_eq_nil (by decide)] at ih ⊢
      rw [hkind, hbehind]
      exact congrArg (Scope.merge · _) (ih.trans (by rw [hbefore]; rfl))

/-- Merged one after the other, scopes without repeated names are joined. -/
theorem Scope.foldl_merge_eq_joined {ss : List Scope}
    (h : ∀ s ∈ ss, s.declarations.Pairwise fun d e => sameName d.name e.name = false) :
    ss.foldl merge {} = joined ss := by
  induction ss using List.reverseRecOn with
  | nil => rfl
  | append_singleton ss s ih =>
    have ih := ih fun s hs => h s (List.mem_append_left _ hs)
    have hnames (name : String) :
        List.any [ss.foldl merge {}] (·.declares name) = ss.any (·.declares name) := by
      simpa [declares_foldl_merge] using fun h => absurd h (by simp [declares])
    have hwithout : s.without [ss.foldl merge {}] = s.without ss := by
      unfold without
      simp only [hnames]
    rw [List.foldl_append, List.foldl_cons, List.foldl_nil, joined_concat,
      merge_eq_concat _ (by rw [ih]; rfl) (h s (by simp)), hwithout, ih]

/-! ## Modules -/

theorem Diagnostic.aboutNames_of_aboutDeclaration (d : Diagnostic) (h : d.aboutDeclaration = true) :
    d.aboutNames = true := by
  unfold aboutNames
  rw [show d.code = _ from beq_iff_eq.mp h]
  decide

/-- In the tree of a module, every module, routine and GLOBALS block lists of the variables,
constants and types that belong to it the first of each name. Each of the others is reported once.
What the module says about its GLOBALS blocks is what they declare, one behind the other, without
the names that an earlier block has. -/
theorem parseModule_declarations (text : String) (options : ParseOptions) :
    (∀ path n scope, (parseModule text options).module.Reaches path n →
        n.kind.scope? = some scope → scope.Lists (Node.owned n.children)) ∧
      ((parseModule text options).diagnostics.filter (·.aboutDeclaration)).Perm
        (options.placed (Node.allRefusals [(parseModule text options).module])) ∧
      ∃ scope functions imports, (parseModule text options).module.kind = .module scope
        (.joined (Node.globalsScopes [(parseModule text options).module])) functions imports := by
  obtain ⟨s, hnodesReadIn, hkind, -, hdiagnostics⟩ := nodesRead_parseModule text options
  have hmakes := hnodesReadIn.nodesRead.makes rfl (o := .module) .nil
  have hglobals := hnodesReadIn.nodesRead.globals_eq
  refine ⟨fun path n scope hreach hscope => ?_, ?_, ?_⟩
  · obtain ⟨-, rfl⟩ | ⟨c, hc, path', hreach, -⟩ := hreach.root_or_below
    · rw [hkind] at hscope
      obtain rfl := Option.some.inj hscope
      exact hmakes.lists
    · exact hnodesReadIn.nodesRead.lists_below hc hreach hscope
  · rw [hdiagnostics, options.filter_placed _ fun _ _ => rfl, Node.allRefusals_singleton,
      Node.refusals, hkind]
    exact placed_perm options ((hnodesReadIn.at_text.read.1.perm_told
      Diagnostic.aboutNames_of_aboutDeclaration).trans (hmakes.tells.told_perm rfl))
  · refine ⟨s.nameState.scope .module, s.names.functions, s.names.imports, ?_⟩
    have hpairwise : ∀ scope ∈ Node.globalsScopes (parseModule text options).module.children,
        scope.declarations.Pairwise fun d e => sameName d.name e.name = false :=
          fun scope hscope => by
      obtain ⟨⟨path, n⟩, hn, hglobals⟩ := List.mem_filterMap.mp hscope
      obtain ⟨c, hc, inner, hreach, -⟩ := (Node.mem_walkList [] _).mp hn
      have hn : n.kind.scope? = some scope := NodeKind.scope?_of_globals? hglobals
      exact (hnodesReadIn.nodesRead.lists_below hc hreach hn).pairwise
    rw [hkind, hglobals, Node.globalsScopes_singleton, hkind]
    exact congrArg (NodeKind.module _ · _ _) (Scope.foldl_merge_eq_joined hpairwise)

end FourGL
