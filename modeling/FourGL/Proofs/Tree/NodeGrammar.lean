import FourGL.Proofs.Tree.Extents

/-!
# The grammar of trees

Which nodes can stand in which: members stand in the module itself, clauses in their CASE or MENU,
and the second branch of an IF or a TRY behind everything else in it. `NodeKind.holds` says which
children a node may have. Every tree obeys it, whatever the text is like, because a body knows its
productions, and what an enclosing menu adds to them is known from the context.
-/

namespace FourGL

open FourGL.Parser FourGL.ParseState

/-! ## Kinds of nodes -/

namespace NodeKind

def isModule : NodeKind → Bool
  | module .. => true
  | _ => false

def isMember : NodeKind → Bool
  | importModule .. | database .. | globalsFile _ | globals _ | main _ | function .. => true
  | _ => false

def isDeclaration : NodeKind → Bool
  | vars .. | constants .. | types .. => true
  | _ => false

/-- Statements of bodies. -/
def isStatement (kind : NodeKind) : Bool := kind.form?.isSome && !kind.isMember

def isCaseClause : NodeKind → Bool
  | whenClause _ | otherwiseClause => true
  | _ => false

/-- The second branch of a block. -/
def isBranch : NodeKind → Bool
  | elseClause | catchClause => true
  | _ => false

def isMenuOption : NodeKind → Bool
  | menuOption _ => true
  | _ => false

def isMenuControl : NodeKind → Bool
  | menuControl .. => true
  | _ => false

/-- Clauses and second branches. -/
def isClause (kind : NodeKind) : Bool := kind.isCaseClause || kind.isBranch || kind.isMenuOption

/-- Statements that are all header: they have no body. -/
def isLine : NodeKind → Bool
  | importModule .. | database .. | globalsFile _ | vars .. | constants .. | types .. => true
  | assignment .. | call .. | returnValues _ | output .. | sleep _ | setNull _ | exit .. => true
  | continueLoop _ | prepare .. | declare .. | cursor .. | whenever .. | run .. => true
  | menuControl .. => true
  | _ => false

/-- Whether a node may have a child. -/
def holds (kind child : NodeKind) : Bool :=
  match kind with
  | module .. => child.isMember || child.isDeclaration
  | globals _ => child.isDeclaration
  | caseOf _ => child.isCaseClause
  | menu _ => child.isMenuOption
  | ifThen _ => child.isStatement || (child matches .elseClause)
  | tryBlock => child.isStatement || (child matches .catchClause)
  | main _ | function .. | whileLoop _ | forLoop .. | foreachLoop .. => child.isStatement
  | elseClause | catchClause | whenClause _ | otherwiseClause | menuOption _ => child.isStatement
  | _ => false

variable {kind child : NodeKind}

theorem isMember_of_form (h : kind.form? = some f) : kind.isMember = f.isMember := by
  cases kind <;> cases h <;> rfl

theorem isDeclaration_of_form (h : kind.form? = some f) : kind.isDeclaration = f.isDeclaration := by
  cases kind <;> cases h <;> rfl

theorem isBranch_of_form (h : kind.form? = some f) : kind.isBranch = false := by
  cases kind <;> cases h <;> rfl

theorem form?_of_isMenuControl (h : kind.isMenuControl = true) :
    kind.form? = some .menuControl := by
  cases kind <;> first | rfl | cases h

theorem form?_of_globals (h : kind.block? = some .GLOBALS) : kind.form? = some .globals := by
  cases kind <;> first | rfl | cases h

theorem isClause_of_branch {k : Keyword} (h : k.secondBranch? = some (word, kind)) :
    kind.isClause = true := by
  unfold Keyword.secondBranch? at h
  split at h <;> cases h <;> rfl

theorem holds_of_isClause (h : kind.isClause = true) (hchild : child.isStatement = true) :
    kind.holds child = true := by
  cases kind <;> first | exact hchild | cases h

theorem holds_of_block (h : kind.block? = some k) (hclauses : k.hasClauses = false)
    (hglobals : k ≠ .GLOBALS) (hchild : child.isStatement = true) : kind.holds child = true := by
  cases kind
  case globals => cases h; exact absurd rfl hglobals
  case caseOf | menu => cases h; cases hclauses
  case ifThen | tryBlock => simp [holds, hchild]
  case main | function | whileLoop | forLoop | foreachLoop => exact hchild
  all_goals cases h

end NodeKind

/-! ## Trees that obey the grammar -/

namespace Node

/-- The children of a node are such that it may have, and a second branch is the last of them. -/
structure Holds (n : Node) : Prop where
  children : ∀ c ∈ n.children, n.kind.holds c.kind = true
  branch_last : ∀ c ∈ n.children.dropLast, c.kind.isBranch = false

/-- A node and all nodes below it hold what they may. Below it, or around it as `inMenu` says, each
control of a menu stands in a clause of a menu. -/
def Valid (inMenu : Prop) (n : Node) : Prop :=
  ∀ path m, n.Reaches path m → m.Holds ∧
    (m.kind.isMenuControl = true → inMenu ∨ ∃ a ∈ path, a.kind.isMenuOption = true)

theorem Valid.mono {inMenu inMenu' : Prop} {n : Node} (h : n.Valid inMenu)
    (himp : inMenu → inMenu') :
    n.Valid inMenu' := fun path m hreach =>
  ⟨(h path m hreach).1, fun hcontrol => ((h path m hreach).2 hcontrol).imp_left himp⟩

theorem valid_of_children {inMenu : Prop} {n : Node} (hn : n.Holds)
    (hcontrol : n.kind.isMenuControl = true → inMenu)
    (h : ∀ c ∈ n.children, c.Valid (inMenu ∨ n.kind.isMenuOption = true)) :
    n.Valid inMenu := by
  intro path m hreach
  obtain ⟨rfl, rfl⟩ | ⟨c, hc, path', hreach', rfl⟩ := hreach.root_or_below
  · exact ⟨hn, fun h => .inl (hcontrol h)⟩
  · obtain ⟨hholds, hmenu⟩ := h c hc path' m hreach'
    refine ⟨hholds, fun h => ?_⟩
    obtain (hin | hn) | ⟨a, ha, hoption⟩ := hmenu h
    · exact .inl hin
    · exact .inr ⟨n, by simp, hn⟩
    · exact .inr ⟨a, List.mem_append_left _ ha, hoption⟩

end Node

/-! ## Contexts -/

/-- Enclosing blocks add only controls of a menu, and these only in a menu. -/
def Context.Adds (ctx : Context) (inMenu : Prop) : Prop :=
  ∀ p ∈ ctx.extra, p.form = .menuControl ∧ inMenu

theorem Context.Adds.within {ctx : Context} {inMenu : Prop} (h : ctx.Adds inMenu) (k : Keyword) :
    (ctx.within k).Adds (inMenu ∨ k = .MENU) := by
  intro p hp
  unfold Context.within at hp
  split at hp
  case h_4 =>
    obtain hp | hp := List.mem_append.mp hp
    · exact ⟨(h p hp).1, .inr rfl⟩
    · rw [List.mem_singleton.mp hp]
      exact ⟨rfl, .inr rfl⟩
  case h_6 | h_7 => exact absurd hp List.not_mem_nil
  all_goals exact ⟨(h p hp).1, .inl (h p hp).2⟩

theorem Context.Adds.within_of_plain {ctx : Context} {inMenu : Prop} (h : ctx.Adds inMenu)
    (hk : k.hasClauses = false) : (ctx.within k).Adds inMenu := fun p hp => by
  refine (h.within k p hp).imp_right fun hmenu => hmenu.resolve_right ?_
  rintro rfl
  cases hk

theorem Context.Adds.within_of_branch {ctx : Context} {inMenu : Prop} (h : ctx.Adds inMenu)
    (hk : k.secondBranch? = some second) : (ctx.within k).Adds inMenu := by
  refine h.within_of_plain ?_
  unfold Keyword.secondBranch? at hk
  split at hk <;> first | rfl | cases hk

/-- A region has no controls of a menu of its own, and GLOBALS only where nothing is added. -/
structure Parser.Region.Fixed (ctx : Context) (region : Region) : Prop where
  control : ∀ p ∈ region.productions, p.form ≠ .menuControl
  globals : (∀ p ∈ region.productions, p.form ≠ .globals) ∨ ctx.extra = []

theorem Parser.Region.Fixed.of_within {region : Region} (ctx : Context) (k : Keyword)
    (hps : region.productions = Production.within k) : region.Fixed ctx := by
  have hwithin : ∀ p ∈ Production.within k, p.form ≠ .menuControl ∧
      p.form ≠ .globals := by
    unfold Production.within
    split <;> decide
  exact ⟨fun p hp => (hwithin p (hps ▸ hp)).1, .inl fun p hp => (hwithin p (hps ▸ hp)).2⟩

namespace Parser.Region.Fixed

variable {region : Region} {ctx : Context} {inMenu : Prop} {p : Production} (h : region.Fixed ctx)
  (hadds : ctx.Adds inMenu) (hp : p ∈ ctx.extra ++ region.productions)
include h hadds hp

/-- GLOBALS can be chosen only where nothing is added. -/
theorem extra_eq (hform : p.form = .globals) : ctx.extra = [] := by
  obtain hp | hp := List.mem_append.mp hp
  · cases (hadds p hp).1.symm.trans hform
  · exact h.globals.resolve_left fun hglobals => hglobals p hp hform

/-- A control can be chosen only in a menu. -/
theorem inMenu_of_control (hform : p.form = .menuControl) : inMenu := by
  obtain hp | hp := List.mem_append.mp hp
  · exact (hadds p hp).2
  · exact absurd hform (h.control p hp)

end Parser.Region.Fixed

/-! ## What is read -/

/-- The node is of a form that can stand there. -/
def Node.FormIn (n : Node) (ps : List Production) : Prop := ∃ p ∈ ps, n.kind.form? = some p.form

theorem Node.FormIn.isStatement {n : Node} {ctx : Context} {inMenu : Prop}
    (h : n.FormIn (ctx.extra ++ Production.statements)) (hadds : ctx.Adds inMenu) :
    n.kind.isStatement = true := by
  obtain ⟨p, hp, hform⟩ := h
  have hmember : p.form.isMember = false := by
    obtain hp | hp := List.mem_append.mp hp
    · rw [(hadds p hp).1]
      rfl
    · have hall : ∀ p ∈ Production.statements, p.form.isMember = false := by decide
      exact hall p hp
  simp [NodeKind.isStatement, hform, NodeKind.isMember_of_form hform, hmember]

theorem Node.FormIn.isBranch {n : Node} (h : n.FormIn ps) : n.kind.isBranch = false := by
  obtain ⟨p, -, hform⟩ := h
  exact NodeKind.isBranch_of_form hform

/-- What a judgment says about which nodes stand where. -/
def Judgment.Grammatical (text : String) : Judgment → Prop
  | .rounds _ ctx region s p _ => ∀ inMenu, ctx.Adds inMenu → region.Fixed ctx → At text s →
      ∀ n ∈ p.nodes, n.Valid inMenu ∧ n.FormIn (ctx.extra ++ region.productions)
  | .body _ ctx region s ns _ _ => ∀ inMenu, ctx.Adds inMenu →
      region.Fixed ctx → At text s →
      ∀ n ∈ ns, n.Valid inMenu ∧ n.FormIn (ctx.extra ++ region.productions)
  | .clauseRounds _ _ inner k s p _ => ∀ inMenu, inner.Adds (inMenu ∨ k = .MENU) →
      k.hasClauses = true → At text s →
      ∀ n ∈ p.nodes, n.Valid inMenu ∧
        (k = .CASE ∧ n.kind.isCaseClause ∨ k = .MENU ∧ n.kind.isMenuOption)
  | .content _ ctx k s ns _ _ => ∀ inMenu, ctx.Adds inMenu →
      (k = .GLOBALS → ctx.extra = []) →
      At text s → (∀ n ∈ ns, n.Valid inMenu) ∧ ∀ n : Node, n.kind.block? = some k →
      n.children = ns → n.Holds
  | .clause _ ctx region _ s n _ _ => ∀ inMenu, ctx.Adds (inMenu ∨
      n.kind.isMenuOption = true) →
      region.productions = Production.statements → n.kind.isClause = true →
      At text s → n.Valid inMenu
  | .statement _ ctx _ s n _ => ∀ inMenu, ctx.Adds inMenu →
      (n.kind.form? = some .globals → ctx.extra = []) →
      (n.kind.form? = some .menuControl → inMenu) → At text s → n.Valid inMenu

namespace Parser

theorem kind_clauseBody (h : (clauseBody body ctx o kind).run s = (n, t)) : n.kind = kind := by
  obtain ⟨header, u, -, h⟩ := run_of_bind h
  obtain ⟨⟨nodes, stop⟩, v, -, h⟩ := run_of_bind h
  exact (closeNode_eq h).2.1

theorem kind_branch (h : (branch body ctx k kind o).run s = ((n, stop), t)) : n.kind = kind := by
  obtain ⟨header, u, -, h⟩ := run_of_bind h
  obtain ⟨⟨nodes, stop'⟩, v, -, h⟩ := run_of_bind h
  obtain ⟨n', w, hclose, h⟩ := run_of_bind h
  obtain ⟨hn, -⟩ := Prod.mk.inj h
  obtain ⟨rfl, -⟩ := Prod.mk.inj hn
  exact (closeNode_eq hclose).2.1

theorem kind_clauseAt {k : Keyword} (hk : k.hasClauses = true)
    (h : (clauseAt levels ctx k before o).run s = (n, t)) :
    k = .CASE ∧ n.kind.isCaseClause = true ∨ k = .MENU ∧ n.kind.isMenuOption = true := by
  unfold Keyword.hasClauses at hk
  split at hk
  · refine .inl ⟨rfl, ?_⟩
    change (caseClause levels (bodyAt levels) ctx before o).run s = (n, t) at h
    unfold caseClause at h
    split at h
    · obtain ⟨conditions, u, -, h⟩ := run_of_bind h
      rw [kind_clauseBody h]
      rfl
    · split at h
      · obtain ⟨_, u, -, h⟩ := run_of_bind h
        rw [kind_clauseBody h]
        rfl
      · rw [kind_clauseBody h]
        rfl
  · refine .inr ⟨rfl, ?_⟩
    obtain ⟨clause, u, -, h⟩ :=
      run_of_bind (show (menuClause levels (bodyAt levels) ctx o).run s = (n, t) from h)
    rw [kind_clauseBody h]
    rfl
  · cases hk

end Parser

/-- What a block holds that has a body of its own. -/
theorem Node.holds_of_body {n : Node} {ctx : Context} {inMenu : Prop}
    (hblock : n.kind.block? = some k)
    (hplain : k.hasClauses = false) (hglobals : k = .GLOBALS → ctx.extra = [])
    (hadds : (ctx.within k).Adds inMenu)
    (h : ∀ c ∈ n.children, c.FormIn ((ctx.within k).extra ++ Production.within k)) :
    n.Holds := by
  refine ⟨fun c hc => ?_, fun c hc => (h c (List.dropLast_subset _ hc)).isBranch⟩
  by_cases hk : k = .GLOBALS
  · subst hk
    obtain ⟨p, hp, hform⟩ := h c hc
    have hp : p ∈ Production.globalsMembers := by
      rw [show (ctx.within .GLOBALS).extra = [] from hglobals rfl] at hp
      exact hp
    have hall : ∀ p ∈ Production.globalsMembers, p.form.isDeclaration = true := by decide
    cases hkind : n.kind <;> rw [hkind] at hblock <;> cases hblock
    exact (NodeKind.isDeclaration_of_form hform).trans (hall p hp)
  · have hps : Production.within k = Production.statements := by
      unfold Production.within
      split
      · exact absurd rfl hk
      · rfl
    exact NodeKind.holds_of_block hblock hplain hk (FormIn.isStatement (hps ▸ h c hc) hadds)

/-- What a block holds that has clauses. -/
theorem Node.holds_of_clauses {n : Node} (hblock : n.kind.block? = some k)
    (h : ∀ c ∈ n.children, k = .CASE ∧ c.kind.isCaseClause = true ∨
      k = .MENU ∧ c.kind.isMenuOption = true) : n.Holds := by
  have hclause (c : Node) (hc : c ∈ n.children) :
      n.kind.holds c.kind = true ∧ c.kind.isBranch = false := by
    obtain ⟨rfl, hc⟩ | ⟨rfl, hc⟩ := h c hc <;>
      cases hkind : n.kind <;> rw [hkind] at hblock <;> cases hblock
    · exact ⟨hc, by cases hckind : c.kind <;> rw [hckind] at hc <;> first | rfl | cases hc⟩
    · exact ⟨hc, by cases hckind : c.kind <;> rw [hckind] at hc <;> first | rfl | cases hc⟩
  exact ⟨fun c hc => (hclause c hc).1, fun c hc => (hclause c (List.dropLast_subset _ hc)).2⟩

/-- What a block holds that has a second branch. -/
theorem Node.holds_of_branch {n m : Node} {ctx : Context} {inMenu : Prop}
    (hblock : n.kind.block? = some k) (hword : k.secondBranch? = some (word, m.kind))
    (hadds : (ctx.within k).Adds inMenu) (hchildren : n.children = ns ++ [m])
    (h : ∀ c ∈ ns, c.FormIn ((ctx.within k).extra ++ Production.statements)) : n.Holds := by
  have hplain : k.hasClauses = false ∧ k ≠ .GLOBALS ∧ n.kind.holds m.kind = true := by
    unfold Keyword.secondBranch? at hword
    split at hword
    iterate 2
      · refine ⟨rfl, Keyword.noConfusion, ?_⟩
        obtain ⟨-, hm⟩ := Prod.mk.inj (Option.some.inj hword)
        cases hkind : n.kind <;> rw [hkind] at hblock <;> cases hblock
        rw [← hm]
        rfl
    · cases hword
  obtain ⟨hclauses, hglobals, hm⟩ := hplain
  refine ⟨?_, ?_⟩
  · rw [hchildren]
    refine List.forall_mem_append.mpr ⟨fun c hc => ?_, List.forall_mem_singleton.mpr hm⟩
    exact NodeKind.holds_of_block hblock hclauses hglobals ((h c hc).isStatement hadds)
  · rw [hchildren, List.dropLast_concat]
    exact fun c hc => (h c hc).isBranch

/-- Every account obeys the grammar of trees. -/
theorem Account.grammatical {J : Judgment} (h : Account J) : J.Grammatical text := by
  induction h with
  | noRound | noClause => exact fun _ _ _ _ _ hn => absurd hn List.not_mem_nil
  | @addStatement _ ctx region _ _ _ f _ _ n _ _ _ hbefore hchoice _ hform _ _ _
      ihBefore ihStatement =>
    intro inMenu hadds hfixed hat
    obtain ⟨hlaid, -⟩ := laidOut_of_derivable hbefore.derives hat
    obtain ⟨honward, -, -⟩ := hlaid.1.1.opens hchoice.passes.ne_endOfFile hchoice.looks 0
    obtain ⟨p, hp, rfl⟩ := hchoice.mem
    refine Node.forall_insert ⟨ihStatement inMenu hadds ?_ ?_ honward.1, p, hp, hform⟩
      (ihBefore inMenu hadds hfixed hat)
    · exact fun hglobals => hfixed.extra_eq hadds hp (Option.some.inj (hform.symm.trans hglobals))
    · exact fun hcontrol => hfixed.inMenu_of_control hadds hp
        (Option.some.inj (hform.symm.trans hcontrol))
  | @skip _ _ _ _ p _ _ q _ _ hskip ih =>
    intro inMenu hadds hfixed hat n hn
    have hnodes : q.nodes = p.nodes := hskip.nodes_eq
    exact ih inMenu hadds hfixed hat n (hnodes ▸ hn)
  | addClause hbefore hpass hlook hrun _ ihBefore ihClause =>
    intro inMenu hadds hk hat
    obtain ⟨hlaid, -⟩ := laidOut_of_derivable hbefore.derives hat
    obtain ⟨honward, -, -⟩ := hlaid.1.1.opens hpass.ne_endOfFile hlook 0
    have hkind := kind_clauseAt hk hrun
    refine Node.forall_insert ⟨ihClause inMenu (fun p hp => ?_) rfl ?_ honward.1, hkind⟩
      (ihBefore inMenu hadds hk hat)
    · refine ⟨(hadds p hp).1, (hadds p hp).2.imp_right fun hmenu => ?_⟩
      obtain ⟨rfl, -⟩ | ⟨-, hoption⟩ := hkind
      · cases hmenu
      · exact hoption
    · obtain ⟨-, hclause⟩ | ⟨-, hclause⟩ := hkind <;> simp [NodeKind.isClause, hclause]
  | skipClause _ _ _ _ _ ih | body _ _ _ ih => exact ih
  | holdsClauses hk _ _ _ ih =>
    intro inMenu hadds hglobals hat
    have hclauses := ih inMenu (hadds.within _) hk hat
    refine ⟨fun n hn => (hclauses n hn).1, fun n hblock hchildren => ?_⟩
    exact Node.holds_of_clauses hblock fun c hc => (hclauses c (hchildren ▸ hc)).2
  | holdsBody hplain _ ih =>
    intro inMenu hadds hglobals hat
    have hinner := hadds.within_of_plain hplain
    have hbody := ih inMenu hinner (.of_within _ _ rfl) hat
    refine ⟨fun n hn => (hbody n hn).1, fun n hblock hchildren => ?_⟩
    exact Node.holds_of_body hblock hplain hglobals hinner fun c hc =>
      (hbody c (hchildren ▸ hc)).2
  | holdsBranches hword hbody hrun hbranch ihBody ihBranch =>
    intro inMenu hadds _ hat
    obtain ⟨hlaid, -⟩ := laidOut_of_derivable hbody.derives hat
    have hne := hbody.stops_body.ne_endOfFile
    obtain ⟨honward, -, -⟩ := hlaid.1.1.opens hne (.refl _) 0
    obtain rfl := kind_branch hrun
    have hinner := hadds.within_of_branch hword
    have hfirst := ihBody inMenu hinner (.of_within _ .IF rfl) hat
    have hsecond := ihBranch inMenu (fun p hp => ⟨(hadds p hp).1, .inl (hadds p hp).2⟩) rfl
      (NodeKind.isClause_of_branch hword) honward.1
    rw [hlaid.appends hne (.refl _) fun hat hopens =>
      (laidOut_of_derivable hbranch.derives hat hopens).1]
    refine ⟨List.forall_mem_append.mpr
      ⟨fun n hn => (hfirst n hn).1, List.forall_mem_singleton.mpr hsecond⟩,
      fun n hblock hchildren => ?_⟩
    exact Node.holds_of_branch hblock hword hinner hchildren fun c hc => (hfirst c hc).2
  | clause hheader _ _ hform hkind hclose ih =>
    intro inMenu hadds hps hclause hat
    obtain ⟨-, rfl, rfl⟩ := closeNode_eq hclose
    have hbody := ih _ hadds (.of_within _ .IF hps) (hat.steps hheader.steps).1
    refine Node.valid_of_children ⟨fun c hc => ?_, fun c hc => ?_⟩ (fun hcontrol => ?_)
      fun c hc => (hbody c hc).1
    · exact NodeKind.holds_of_isClause hclause
        (Node.FormIn.isStatement (hps ▸ (hbody c hc).2) hadds)
    · exact (hbody c (List.dropLast_subset _ hc)).2.isBranch
    · cases hform.symm.trans (NodeKind.form?_of_isMenuControl hcontrol)
  | leaf _ _ hclose =>
    intro inMenu hadds _ hcontrol _
    obtain ⟨-, -, hchildren⟩ := closeStatement_eq hclose
    refine Node.valid_of_children ⟨by simp [hchildren], by simp [hchildren]⟩ (fun h => ?_)
      (by simp [hchildren])
    exact hcontrol (NodeKind.form?_of_isMenuControl h)
  | block hheader _ hbefore _ _ _ _ hkind hclose ih =>
    intro inMenu hadds hglobals hcontrol hat
    obtain ⟨-, rfl, rfl⟩ := closeNode_eq hclose
    have hat₂ := ((hat.steps hheader.steps).1.steps hbefore.stays.1).1
    obtain ⟨hvalid, hholds⟩ := ih inMenu hadds
      (fun hk => hglobals (NodeKind.form?_of_globals (hk ▸ hkind))) hat₂
    refine Node.valid_of_children (hholds _ hkind rfl) (fun h => ?_) fun c hc =>
      (hvalid c hc).mono .inl
    exact hcontrol (NodeKind.form?_of_isMenuControl h)

/-! ## Where nodes stand -/

namespace NodeKind

variable {kind child : NodeKind} (h : kind.holds child = true)
include h

theorem isModule_of_holds (hchild : child.isMember = true) : kind.isModule = true := by
  cases child <;> cases hchild <;> cases kind <;> first | rfl | cases h

theorem not_isModule_of_holds : child.isModule = false := by
  cases child <;> first | rfl | (cases kind <;> cases h)

/-- A clause or second branch stands in a block of its own kind. -/
theorem block?_of_holds :
    (child = .elseClause → kind.block? = some .IF) ∧
    (child = .catchClause → kind.block? = some .TRY) ∧
    (child.isCaseClause = true → kind.block? = some .CASE) ∧
    (child.isMenuOption = true → kind.block? = some .MENU) := by
  refine ⟨?_, ?_, ?_, ?_⟩
  · rintro rfl
    cases kind <;> first | rfl | cases h
  · rintro rfl
    cases kind <;> first | rfl | cases h
  · intro hchild
    cases child <;> cases hchild <;> cases kind <;> first | rfl | cases h
  · intro hchild
    cases child <;> cases hchild
    cases kind <;> first | rfl | cases h

theorem isLine_of_holds : kind.isLine = false := by
  cases kind <;> first | rfl | cases h

/-- GLOBALS, CASE and MENU hold only what belongs to them. -/
theorem child_of_holds :
    (kind.block? = some .GLOBALS → child.isDeclaration = true) ∧
    (kind.block? = some .CASE → child.isCaseClause = true) ∧
    (kind.block? = some .MENU → child.isMenuOption = true) := by
  refine ⟨?_, ?_, ?_⟩ <;>
  · intro hblock
    cases kind <;> cases hblock
    exact h

end NodeKind

namespace Node

/-- The node is the last child of the node around it, a block of a keyword, and the only child there
of its kind. -/
def IsBranchOf (n : Node) (path : List Node) (k : Keyword) : Prop :=
  ∃ parent rest before, path = parent :: rest ∧ parent.kind.block? = some k ∧
    parent.children = before ++ [n] ∧ ∀ c ∈ before, c.kind ≠ n.kind

/-- The node around the node is a block of a keyword. -/
def IsClauseOf (path : List Node) (k : Keyword) : Prop :=
  ∃ parent rest, path = parent :: rest ∧ parent.kind.block? = some k

/-- A node stands in a tree where the grammar allows it, with the nodes of `path` around it, and it
holds what the grammar allows. -/
structure WellPlaced (root : Node) (path : List Node) (n : Node) : Prop where
  member : n.kind.isMember = true → path = [root]
  globals : n.kind.block? = some .GLOBALS → ∀ c ∈ n.children, c.kind.isDeclaration = true
  elseClause : n.kind = .elseClause → n.IsBranchOf path .IF
  catchClause : n.kind = .catchClause → n.IsBranchOf path .TRY
  caseOf : n.kind.block? = some .CASE → ∀ c ∈ n.children, c.kind.isCaseClause = true
  caseClause : n.kind.isCaseClause = true → IsClauseOf path .CASE
  menu : n.kind.block? = some .MENU → ∀ c ∈ n.children, c.kind.isMenuOption = true
  menuOption : n.kind.isMenuOption = true → IsClauseOf path .MENU
  menuControl : n.kind.isMenuControl = true → ∃ a ∈ path, a.kind.isMenuOption = true
  line : n.kind.isLine = true → n.children = []

/-- A second branch is the last child of what it stands in. -/
theorem Holds.isBranchOf {m n : Node} (h : m.Holds) (hn : n ∈ m.children)
    (hbranch : n.kind.isBranch = true)
    (hblock : m.kind.block? = some k) : n.IsBranchOf (m :: path) k := by
  obtain ⟨before, last, hchildren⟩ : ∃ before last, m.children = before ++ [last] :=
    ⟨_, _, (List.dropLast_concat_getLast (List.ne_nil_of_mem hn)).symm⟩
  have hbefore : ∀ c ∈ before, c.kind.isBranch = false := by
    have hlast := h.branch_last
    rwa [hchildren, List.dropLast_concat] at hlast
  refine ⟨m, path, before, rfl, hblock, ?_, fun c hc hkind => ?_⟩
  · rw [hchildren, List.mem_append, List.mem_singleton] at hn
    obtain hn | rfl := hn
    · cases hbranch.symm.trans (hbefore n hn)
    · exact hchildren
  · cases hbranch.symm.trans (hkind ▸ hbefore c hc)

/-- In a valid tree under a module every node is well placed. -/
theorem Valid.wellPlaced {root n : Node} (h : root.Valid False) (hroot : root.kind.isModule = true)
    (hreach : root.Reaches path n) : WellPlaced root path n := by
  obtain ⟨hholds, hcontrol⟩ := h path n hreach
  have hchild (c : Node) (hc : c ∈ n.children) := NodeKind.child_of_holds (hholds.children c hc)
  have hline (hn : n.kind.isLine = true) : n.children = [] :=
    List.eq_nil_iff_forall_not_mem.mpr fun c hc =>
      Bool.noConfusion (hn.symm.trans (NodeKind.isLine_of_holds (hholds.children c hc)))
  have hmenu (hn : n.kind.isMenuControl = true) : ∃ a ∈ path, a.kind.isMenuOption = true :=
    (hcontrol hn).resolve_left id
  cases hreach with
  | root =>
    cases hkind : root.kind <;> rw [hkind] at hroot <;> cases hroot
    constructor <;> rw [hkind] <;> intro hn <;> cases hn
  | @child path m _ hm hn =>
    obtain ⟨hparent, -⟩ := h path m hm
    have hstands := hparent.children n hn
    obtain ⟨helse, hcatch, hcase, hoption⟩ := NodeKind.block?_of_holds hstands
    refine ⟨fun hmember => ?_, fun hk c hc => (hchild c hc).1 hk, fun hkind => ?_,
      fun hkind => ?_,
      fun hk c hc => (hchild c hc).2.1 hk, fun hkind => ⟨m, path, rfl, hcase hkind⟩,
      fun hk c hc => (hchild c hc).2.2 hk,
        fun hkind => ⟨m, path, rfl, hoption hkind⟩, hmenu, hline⟩
    · -- Only a module holds members, and nothing holds a module.
      have hmodule := NodeKind.isModule_of_holds hstands hmember
      cases hm with
      | root => rfl
      | @child path m' _ hm' hm =>
        cases hmodule.symm.trans (NodeKind.not_isModule_of_holds ((h path m' hm').1.children m hm))
    · exact hparent.isBranchOf hn (by rw [hkind]; rfl) (helse hkind)
    · exact hparent.isBranchOf hn (by rw [hkind]; rfl) (hcatch hkind)

end Node

/-- The module holds only members and declarations, and its tree is valid. -/
theorem valid_parseModule (text : String) (options : ParseOptions) :
    (∀ c ∈ (parseModule text options).module.children,
      c.kind.isMember = true ∨ c.kind.isDeclaration = true) ∧
    (parseModule text options).module.Valid False := by
  obtain ⟨s, stop, hbody, -⟩ := account_parseModule text options
  have hmembers := hbody.grammatical False (fun p hp => absurd hp List.not_mem_nil)
    ⟨by decide, .inr rfl⟩ (at_ofText options.mode text)
  have hchild (c : Node) (hc : c ∈ (parseModule text options).module.children) :
      c.kind.isMember = true ∨ c.kind.isDeclaration = true := by
    obtain ⟨p, hp, hform⟩ := (hmembers c hc).2
    have hall : ∀ p ∈ Production.members, p.form.isMember = true ∨
        p.form.isDeclaration = true := by
      decide
    rw [NodeKind.isMember_of_form hform, NodeKind.isDeclaration_of_form hform]
    exact hall p hp
  refine ⟨hchild, Node.valid_of_children ⟨fun c hc => Bool.or_eq_true_iff.mpr (hchild c hc),
    fun c hc => (hmembers c (List.dropLast_subset _ hc)).2.isBranch⟩ Bool.noConfusion
    fun c hc => (hmembers c hc).1.mono .inl⟩

/-- Every tree of a module obeys the grammar of nodes, whatever the text is: the module holds only
members and declarations, and every node below it is well placed. -/
theorem parseModule_grammar (text : String) (options : ParseOptions) :
    (parseModule text options).module.kind.isModule = true ∧
    (∀ c ∈ (parseModule text options).module.children,
      c.kind.isMember = true ∨ c.kind.isDeclaration = true) ∧
    ∀ path n, (parseModule text options).module.Reaches path n →
      Node.WellPlaced (parseModule text options).module path n := by
  obtain ⟨hchild, hvalid⟩ := valid_parseModule text options
  exact ⟨rfl, hchild, fun path n hreach => hvalid.wellPlaced rfl hreach⟩

end FourGL
