import FourGL.Proofs.Grammar.TokensRead
import FourGL.Proofs.Grammar.Reports
import FourGL.Proofs.Tree.Extents

/-!
# Jumps

EXIT and CONTINUE name a loop around them. While a body is read, the context knows which loops that
could be; afterwards the tree does. Both agree, so that exactly those jumps are reported that have
no such loop around them in the tree.
-/

namespace FourGL

open FourGL.Parser FourGL.ParseState

/-! ## Jumps of a tree -/

/-- The keyword of a block that EXIT and CONTINUE can name. -/
def NodeKind.loop? : NodeKind → Option Keyword
  | .forLoop .. => some .FOR
  | .foreachLoop .. => some .FOREACH
  | .whileLoop _ => some .WHILE
  | .caseOf _ => some .CASE
  | .menu _ => some .MENU
  | _ => none

theorem NodeKind.loop?_of_block? {kind : NodeKind} (h : kind.block? = none) :
    kind.loop? = none := by
  cases kind <;> first | rfl | cases h

namespace Node

/-- None of the nodes is a loop of the keyword. -/
def OutsideLoop (around : List Node) (k : Keyword) : Prop :=
  ∀ a ∈ around, a.kind.loop? ≠ some k

instance (around : List Node) (k : Keyword) : Decidable (OutsideLoop around k) :=
  inferInstanceAs (Decidable (∀ a ∈ around, _))

/-- What is to be said about a node that has the nodes `around` it: EXIT has to leave the program or
a loop around it, and CONTINUE has to repeat one, but not a CASE or a DISPLAY. -/
def strayJump? (around : List Node) (n : Node) : Option Diagnostic :=
  match n.kind with
  | .exit (some k) _ =>
    if k ≠ .PROGRAM ∧ OutsideLoop around k then
      some (.of .noEnclosingBlock ["exit", k.text] (some n.extent.span))
    else none
  | .continueLoop (some k) =>
    if k = .CASE ∨ k = .DISPLAY ∨ OutsideLoop around k then
      some (.of .noEnclosingBlock ["continue", k.text] (some n.extent.span))
    else none
  | _ => none

/-- What is to be said about all jumps in trees. -/
def strayJumps (around ns : List Node) : List Diagnostic :=
  (walkList around ns).filterMap fun x => x.2.strayJump? x.1

theorem strayJumps_append (around ns ms : List Node) :
    strayJumps around (ns ++ ms) = strayJumps around ns ++ strayJumps around ms := by
  unfold strayJumps
  rw [walkList_append, List.filterMap_append]

theorem strayJumps_singleton (around : List Node) (n : Node) :
    strayJumps around [n] =
      (n.strayJump? around).toList ++ strayJumps (n :: around) n.children := by
  unfold strayJumps
  rw [walkList, walkList, List.append_nil, walk_eq, List.filterMap_cons]
  cases n.strayJump? around <;> simp

theorem strayJump?_of_form {n : Node} (h : n.kind.form? = none) (around : List Node) :
    n.strayJump? around = none := by
  unfold strayJump?
  split
  next hkind => rw [hkind] at h; cases h
  next hkind => rw [hkind] at h; cases h
  next => rfl

end Node

/-! ## Contexts and trees -/

/-- The context of a place knows the loops among the nodes around it. It adds no routines. -/
structure Context.Suits (ctx : Context) (around : List Node) : Prop where
  exits_iff : ∀ k, .keyword k ∈ ctx.exits ↔ ¬ Node.OutsideLoop around k
  extra_plain : ∀ p ∈ ctx.extra, p.form ≠ .main ∧ p.form ≠ .function

namespace Context.Suits

theorem mem_cons {k : Keyword} {n : Node} {around : List Node} :
    ¬ Node.OutsideLoop (n :: around) k ↔
      n.kind.loop? = some k ∨ ¬ Node.OutsideLoop around k := by
  rw [Node.OutsideLoop, List.forall_mem_cons, not_and_or, not_not, Node.OutsideLoop]

/-- A node that is no loop changes nothing. -/
theorem cons {ctx : Context} (h : ctx.Suits around) {n : Node} (hn : n.kind.block? = none) :
    ctx.Suits (n :: around) := by
  refine ⟨fun k => ?_, h.extra_plain⟩
  rw [mem_cons, NodeKind.loop?_of_block? hn, h.exits_iff]
  simp

/-- The context in which a block reads what it holds suits the nodes there. Routines forget the
loops around them, but there are none. -/
theorem within {ctx : Context} (h : ctx.Suits around) {n : Node} (hn : n.kind.block? = some k)
    (hroutine : n.kind.block? = some .MAIN ∨ n.kind.block? = some .FUNCTION → ctx.exits = []) :
    (ctx.within k).Suits (n :: around) := by
  have hsame : n.kind.loop? = none → ∀ j, .keyword j ∈ ctx.exits ↔
      ¬ Node.OutsideLoop (n :: around) j := fun hloop j => by
    rw [mem_cons, hloop, h.exits_iff]
    simp
  have hloop : n.kind.loop? = some k → ∀ j, .keyword j ∈ Kind.keyword k :: ctx.exits ↔
      ¬ Node.OutsideLoop (n :: around) j := fun hloop j => by
    rw [mem_cons, hloop, List.mem_cons, h.exits_iff, Kind.keyword.injEq, Option.some.injEq, eq_comm]
  have hnone : n.kind.loop? = none → ctx.exits = [] →
      ∀ j, .keyword j ∈ ([] : List Kind) ↔ ¬ Node.OutsideLoop (n :: around) j :=
    fun hloop hexits j => hexits ▸ hsame hloop j
  cases hkind : n.kind <;> rw [hkind] at hn hroutine hsame hloop hnone <;> cases hn
  case ifThen | tryBlock | globals => exact ⟨hsame rfl, h.extra_plain⟩
  case whileLoop | forLoop | foreachLoop | caseOf => exact ⟨hloop rfl, h.extra_plain⟩
  case main => exact ⟨hnone rfl (hroutine (.inl rfl)), by simp [Context.within, routine]⟩
  case function => exact ⟨hnone rfl (hroutine (.inr rfl)), by simp [Context.within, routine]⟩
  case menu =>
    refine ⟨hloop rfl, fun p hp => ?_⟩
    obtain hp | hp := List.mem_append.mp hp
    · exact h.extra_plain p hp
    · rw [List.mem_singleton.mp hp]
      decide

theorem secondBranch {ctx : Context} (h : (ctx.within k).Suits around)
    (hword : k.secondBranch? = some second) : (ctx.withEnd (.keyword k)).Suits around := by
  unfold Keyword.secondBranch? at hword
  split at hword
  · exact ⟨h.exits_iff, h.extra_plain⟩
  · exact ⟨h.exits_iff, h.extra_plain⟩
  · cases hword

end Context.Suits

/-! ## Reports about jumps -/

/-- The diagnostic is about a jump. -/
def Diagnostic.aboutJump (d : Diagnostic) : Bool := d.code == Message.noEnclosingBlock.code

/-- The messages that are not about jumps. -/
def silentMessages : Set Message := {m | m.code ≠ Message.noEnclosingBlock.code}

theorem Diagnostic.IsFrom.not_aboutJump {d : Diagnostic} (h : d.IsFrom M)
    (hM : M ⊆ silentMessages) : d.aboutJump = false := by
  obtain ⟨m, hm, args, span, rfl⟩ := h
  exact beq_false_of_ne (hM hm)

theorem scanMessages_subset_silent : scanMessages ⊆ silentMessages := by
  rintro m (rfl | rfl | rfl | rfl) <;> exact show _ ≠ _ by decide

theorem statementMessages_subset_silent : statementMessages ⊆ silentMessages :=
  fun _ hm => (code_of_mem_statementMessages hm).2.2

namespace ParseState

/-- What has been reported about jumps. -/
def jumps (s : ParseState) : List Diagnostic := s.reports.filter (·.aboutJump)

/-- Between the states nothing is said about jumps. -/
def SameJumps (s t : ParseState) : Prop := t.jumps = s.jumps

theorem SameJumps.trans (h₁ : SameJumps s t) (h₂ : SameJumps t u) :
    SameJumps s u := Eq.trans h₂ h₁

theorem Steps.sameJumps (h : Steps M s t) (hM : M ⊆ silentMessages) : SameJumps s t := by
  obtain ⟨new, heq, hmem⟩ := h.reports
  have hnew : new.filter (·.aboutJump) = [] :=
    List.filter_eq_nil_iff.mpr fun d hd => by simp [(hmem d hd).not_aboutJump hM]
  unfold SameJumps jumps
  rw [heq, List.filter_append, hnew, List.nil_append]

theorem Looks.sameJumps (h : Looks s t) : SameJumps s t := by
  unfold SameJumps jumps
  rw [h.reports]

theorem Moves.sameJumps (h : Moves R statementMessages s t) : SameJumps s t :=
  h.steps.sameJumps statementMessages_subset_silent

theorem sameJumps_read (s : ParseState) : SameJumps s s.read := rfl

end ParseState

namespace Parser

theorem Runs.sameJumps {p : Parser α} (h : p.Runs R M s) (hM : M ⊆ silentMessages)
    (hrun : p.run s = (a, t)) : SameJumps s t := (h.of_run hrun).steps.sameJumps hM

theorem sameJumps_skipUnexpected {m : Message} (hm : m ∈ silentMessages)
    (h : (skipUnexpected m isFirst).run s = ((), t)) : SameJumps s t := by
  refine (careful_skipUnexpected m isFirst s).sameJumps ?_ h
  rintro m' (rfl | rfl)
  · exact hm
  · exact show _ ≠ _ by decide

theorem sameJumps_closeBlock (h : (closeBlock o header k stop).run s = ((), t)) : SameJumps s t :=
  (runs_closeBlock o header k stop s).sameJumps (by rintro m rfl; exact show _ ≠ _ by decide) h

theorem Skip.sameJumps {atLimit : Bool} {ctx : Context} {region : Region}
    {a b : Progress × ParseState}
    (h : Skip atLimit ctx region a b) (hregion : region.unexpected ∈ silentMessages) :
    SameJumps a.2 b.2 := by
  cases h with
  | unavailable hchoice hreport =>
    have hM : {.requiresVersion} ⊆ silentMessages := by
      rintro m rfl
      exact show _ ≠ _ by decide
    exact (hchoice.looks.sameJumps.trans (sameJumps_read _)).trans
      ((careful_report (Set.mem_singleton _) _ _ _).sameJumps hM hreport)
  | tooDeep hchoice hlimit =>
    have hM := phraseMessages_subset.trans statementMessages_subset_silent
    exact (hchoice.looks.sameJumps.trans ((careful_reportLimit .rfl _).sameJumps hM hlimit)).trans
      (sameJumps_read _)
  | unexpected hchoice hskip =>
    exact (hchoice.looks.sameJumps.trans (sameJumps_read _)).trans
      (sameJumps_skipUnexpected hregion hskip)

/-- A jump is reported if and only if no loop around it in the tree allows it. -/
theorem checkJump_reports {ctx : Context} (h : ctx.Suits around)
    (hrun : (checkJump ctx n).run s = ((), t)) :
    t.jumps = (n.strayJump? around).toList ++ s.jumps := by
  have htold {word : String} {k : Keyword} {possible : Bool} {stray : Prop} [Decidable stray]
      (hstray : stray ↔ ¬ (possible = true ∧ Kind.keyword k ∈ ctx.exits))
      (hrun : (if possible && ctx.exits.contains (.keyword k) then pure ()
        else report .noEnclosingBlock [word, k.text] n.extent.span : Parser Unit).run s = ((), t)) :
      t.jumps = (if stray then some (Diagnostic.of .noEnclosingBlock [word, k.text]
        (some n.extent.span)) else none).toList ++ s.jumps := by
    by_cases hs : stray
    · rw [if_neg (by simpa using hstray.mp hs)] at hrun
      obtain ⟨-, rfl⟩ := Prod.mk.inj hrun
      rw [if_pos hs]
      rfl
    · rw [if_pos (by simpa using not_not.mp (mt hstray.mpr hs))] at hrun
      obtain ⟨-, rfl⟩ := Prod.mk.inj hrun
      rw [if_neg hs]
      rfl
  have hexits (k : Keyword) : Node.OutsideLoop around k ↔ Kind.keyword k ∉ ctx.exits := by
    rw [h.exits_iff, not_not]
  unfold checkJump jump? at hrun
  unfold Node.strayJump?
  split
  next k _ hkind =>
    rw [hkind] at hrun
    by_cases hprogram : k = .PROGRAM
    · dsimp only at hrun
      rw [if_pos hprogram] at hrun
      obtain ⟨-, rfl⟩ := Prod.mk.inj hrun
      simp [hprogram]
    · dsimp only at hrun
      rw [if_neg hprogram] at hrun
      exact htold (by simp [hprogram, hexits]) hrun
  next k hkind =>
    rw [hkind] at hrun
    refine htold ?_ hrun
    rw [hexits]
    by_cases hcase : k = .CASE <;> by_cases hdisplay : k = .DISPLAY <;> simp [hcase, hdisplay]
  next hexit hcontinue =>
    split at hrun
    next =>
      obtain ⟨-, rfl⟩ := Prod.mk.inj hrun
      rfl
    next hjump =>
      split at hjump
      · exact absurd ‹_› (hexit _ _)
      · exact absurd ‹_› (hcontinue _)
      · cases hjump

end Parser

/-! ## What is read -/

/-- Between the states exactly the jumps in the nodes are reported. -/
def TellsJumps (around : List Node) (s t : ParseState) (ns : List Node) : Prop :=
  ∃ new, t.jumps = new ++ s.jumps ∧ new.Perm (Node.strayJumps around ns)

namespace TellsJumps

theorem nil (h : SameJumps s t) : TellsJumps around s t [] := ⟨[], h, .nil⟩

theorem behind (hsameJumps : SameJumps s t) (h : TellsJumps around t u ns) :
    TellsJumps around s u ns := by
  obtain ⟨new, heq, hperm⟩ := h
  exact ⟨new, hsameJumps ▸ heq, hperm⟩

theorem before (h : TellsJumps around s t ns) (hsameJumps : SameJumps t u) :
    TellsJumps around s u ns := by
  obtain ⟨new, heq, hperm⟩ := h
  exact ⟨new, Eq.trans hsameJumps heq, hperm⟩

theorem append (h₁ : TellsJumps around s t ns) (h₂ : TellsJumps around t u ms) :
    TellsJumps around s u (ns ++ ms) := by
  obtain ⟨new₁, heq₁, hperm₁⟩ := h₁
  obtain ⟨new₂, heq₂, hperm₂⟩ := h₂
  refine ⟨new₂ ++ new₁, by rw [heq₂, heq₁, List.append_assoc], ?_⟩
  rw [Node.strayJumps_append]
  exact List.perm_append_comm.trans (hperm₁.append hperm₂)

/-- What is told about a node is told about its children, and about the node itself. -/
theorem node (h : TellsJumps (n :: around) s t n.children)
    (hn : u.jumps = (n.strayJump? around).toList ++ t.jumps) : TellsJumps around s u [n] := by
  obtain ⟨new, heq, hperm⟩ := h
  refine ⟨(n.strayJump? around).toList ++ new, by rw [hn, heq, List.append_assoc], ?_⟩
  rw [Node.strayJumps_singleton]
  exact hperm.append_left _

end TellsJumps

/-- A body where routines stand only outside of loops, and that says nothing about jumps itself. -/
structure Parser.Region.Plain (ctx : Context) (region : Region) : Prop where
  routines : (∀ p ∈ region.productions, p.form ≠ .main ∧
    p.form ≠ .function) ∨ ctx.exits = []
  unexpected : region.unexpected ∈ silentMessages

theorem Parser.Region.Plain.of_within {region : Region} (ctx : Context) (k : Keyword)
    (hps : region.productions = Production.within k)
    (hunexpected : region.unexpected = .unexpectedToken) : region.Plain ctx := by
  refine ⟨.inl ?_, hunexpected ▸ show _ ≠ _ by decide⟩
  rw [hps]
  unfold Production.within
  split <;> decide

/-- A routine is chosen only where nothing is to be left. -/
theorem Parser.Chooses.exits_eq {ctx : Context} {region : Region}
    (h : Chooses atLimit ctx region s (.form f word) t) (hsuits : ctx.Suits around)
    (hplain : region.Plain ctx) (hf : f = .main ∨ f = .function) : ctx.exits = [] := by
  obtain ⟨p, hp, rfl⟩ := h.mem
  have hroutine : ¬ (p.form ≠ .main ∧ p.form ≠ .function) := by
    rintro ⟨hmain, hfunction⟩
    exact hf.elim hmain hfunction
  obtain hp | hp := List.mem_append.mp hp
  · exact absurd (hsuits.extra_plain p hp) hroutine
  · obtain hplain | hexits := hplain.routines
    · exact absurd (hplain p hp) hroutine
    · exact hexits

theorem NodeKind.form?_of_routine {kind : NodeKind}
    (h : kind.block? = some .MAIN ∨ kind.block? = some .FUNCTION) (hform : kind.form? = some f) :
    f = .main ∨ f = .function := by
  cases kind with
  | main => exact .inl (Option.some.inj hform).symm
  | function => exact .inr (Option.some.inj hform).symm
  | _ => obtain h | h := h <;> cases h

/-- What a judgment says about jumps. -/
def Judgment.JumpsTold (text : String) : Judgment → Prop
  | .rounds _ ctx region s p t => ∀ around, ctx.Suits around →
      region.Plain ctx → At text s → TellsJumps around s t p.nodes
  | .clauseRounds _ _ inner _ s p t => ∀ around, inner.Suits around → At text s →
      TellsJumps around s t p.nodes
  | .body _ ctx region s ns _ t => ∀ around, ctx.Suits around →
      region.Plain ctx → At text s → TellsJumps around s t ns
  | .content _ ctx k s ns _ t => ∀ around, (ctx.within k).Suits around → At text s →
      TellsJumps around s t ns
  | .clause _ ctx region o s n _ t => ∀ around, ctx.Suits around →
      region.Plain ctx → At text s → Opens o s → TellsJumps around s t [n]
  | .statement _ ctx o s n t => ∀ around, ctx.Suits around →
      (n.kind.block? = some .MAIN ∨ n.kind.block? = some .FUNCTION →
        ctx.exits = []) → At text s →
      Opens o s → TellsJumps (n :: around) s t n.children

/-- Every account tells exactly the jumps that the tree shows. -/
theorem Account.jumpsTold {J : Judgment} (h : Account J) : J.JumpsTold text := by
  induction h with
  | noRound _ _ _ s => exact fun _ _ _ _ => .nil rfl
  | noClause _ _ _ _ s => exact fun _ _ _ => .nil rfl
  | addStatement hbefore hchoice _ hform hstatement hjump hleave ihBefore ihStatement =>
    intro around hsuits hplain hat
    obtain ⟨hlaid, -⟩ := laidOut_of_derivable hbefore.derives hat
    have hne := hchoice.passes.ne_endOfFile
    obtain ⟨honward, hopens, -⟩ := hlaid.1.1.opens hne hchoice.looks _
    have hchildren := ihStatement around hsuits
      (fun hroutine => hchoice.exits_eq hsuits hplain (NodeKind.form?_of_routine hroutine hform))
      honward.1 hopens
    have hnode := (hchildren.node (checkJump_reports hsuits hjump)).behind
      (hchoice.looks.sameJumps.trans (sameJumps_read _))
    rw [hlaid.appends hne hchoice.looks fun hat hopens =>
      (laidOut_of_derivable hstatement.derives hat hopens).1]
    exact (ihBefore around hsuits hplain hat).append (hnode.before hleave.sameJumps)
  | @skip _ _ _ _ p _ _ q _ _ hskip ih =>
    intro around hsuits hplain hat
    have hnodes : q.nodes = p.nodes := hskip.nodes_eq
    rw [hnodes]
    exact (ih around hsuits hplain hat).before (hskip.sameJumps hplain.unexpected)
  | addClause hbefore hpass hlook _ hclause ihBefore ihClause =>
    intro around hsuits hat
    obtain ⟨hlaid, -⟩ := laidOut_of_derivable hbefore.derives hat
    obtain ⟨honward, hopens, -⟩ := hlaid.1.1.opens hpass.ne_endOfFile hlook _
    have hnode := (ihClause around hsuits (.of_within _ .CASE rfl rfl) honward.1 hopens).behind
      (hlook.sameJumps.trans (sameJumps_read _))
    rw [hlaid.appends hpass.ne_endOfFile hlook fun hat hopens =>
      (laidOut_of_derivable hclause.derives hat hopens).1]
    exact (ihBefore around hsuits hat).append hnode
  | skipClause _ _ _ hlook hskip ih =>
    intro around hsuits hat
    exact (ih around hsuits hat).before ((hlook.sameJumps.trans (sameJumps_read _)).trans
      (sameJumps_skipUnexpected (show _ ≠ _ by decide) hskip))
  | body _ _ hlook ih =>
    exact fun around hsuits hplain hat => (ih around hsuits hplain hat).before hlook.sameJumps
  | holdsClauses _ _ _ hlook ih =>
    exact fun around hsuits hat => (ih around hsuits hat).before hlook.sameJumps
  | holdsBody _ _ ih => exact fun around hsuits hat => ih around hsuits (.of_within _ _ rfl rfl) hat
  | holdsBranches hword hbody _ hbranch ihBody ihBranch =>
    intro around hsuits hat
    obtain ⟨hlaid, -⟩ := laidOut_of_derivable hbody.derives hat
    have hne := hbody.stops_body.ne_endOfFile
    obtain ⟨honward, hopens, -⟩ := hlaid.1.1.opens hne (.refl _) _
    have hnode := (ihBranch around (hsuits.secondBranch hword) (.of_within _ .IF rfl rfl) honward.1
      hopens).behind (sameJumps_read _)
    rw [hlaid.appends hne (.refl _) fun hat hopens =>
      (laidOut_of_derivable hbranch.derives hat hopens).1]
    exact (ihBody around hsuits (.of_within _ .IF rfl rfl) hat).append hnode
  | clause hheader _ _ hform hkind hclose ih =>
    intro around hsuits hplain hat _
    obtain ⟨rfl, rfl, rfl⟩ := closeNode_eq hclose
    have hchildren := ih _ (hsuits.cons hkind) hplain (hat.steps hheader.steps).1
    refine (hchildren.behind hheader.sameJumps).node ?_
    rw [Node.strayJump?_of_form hform]
    rfl
  | leaf hmoves _ hclose =>
    intro around _ _ _ _
    obtain ⟨rfl, -, hchildren⟩ := closeStatement_eq hclose
    rw [hchildren]
    exact .nil hmoves.sameJumps
  | block hheader _ hbefore _ hbehind hend hafter hkind hclose ih =>
    intro around hsuits hroutine hat _
    obtain ⟨rfl, rfl, rfl⟩ := closeNode_eq hclose
    have hat₂ := ((hat.steps hheader.steps).1.steps hbefore.stays.1).1
    have hchildren := (ih _ (hsuits.within hkind hroutine) hat₂).behind
      (hheader.sameJumps.trans hbefore.1.sameJumps)
    exact hchildren.before ((hbehind.1.sameJumps.trans (sameJumps_closeBlock hend)).trans
      hafter.1.sameJumps)

/-! ## Whole texts -/

theorem filter_placed (options : ParseOptions) (ds : List Diagnostic) :
    (options.placed ds).filter (·.aboutJump) = options.placed (ds.filter (·.aboutJump)) :=
  options.filter_placed ds fun _ _ => rfl

/-- Of what a state has to say, only reports are about jumps. -/
theorem ParseState.At.perm_jumps (h : At text s) :
    (s.diagnostics.filter (·.aboutJump)).Perm s.jumps :=
  h.perm_filter fun _ hd => hd.not_aboutJump scanMessages_subset_silent

/-- A body that is read from the beginning of a text on has told the jumps in it. -/
theorem Account.perm_jumps {ctx : Context}
    (h : Account (.body levels ctx region (.ofText mode text) ns stop s))
    (hsuits : ctx.Suits around) (hplain : region.Plain ctx) :
    s.jumps.Perm (Node.strayJumps around ns) := by
  obtain ⟨new, heq, hperm⟩ := h.jumpsTold around hsuits hplain (at_ofText mode text)
  rwa [heq, show (ofText mode text).jumps = [] from rfl, List.append_nil]

/-- The jumps that are reported, in a module or in statements that stand alone, are exactly those
that no loop around them in the tree allows. -/
theorem diagnostics_jumps (text : String) (options : ParseOptions) :
    ((parseModule text options).diagnostics.filter (·.aboutJump)).Perm
        (options.placed (Node.strayJumps [] [(parseModule text options).module])) ∧
      ((parseStatements text options).diagnostics.filter (·.aboutJump)).Perm
        (options.placed (Node.strayJumps [] (parseStatements text options).statements)) := by
  constructor
  · obtain ⟨s, stop, hbody, -, -, hform, hblock, hdiagnostics⟩ :=
      account_parseModule text options
    have hroot : (Context.root options.version).Suits [] :=
      ⟨by simp [Node.OutsideLoop, Context.root], by simp [Context.root]⟩
    have hjumps := hbody.perm_jumps (hroot.cons hblock) ⟨.inr rfl, show _ ≠ _ by decide⟩
    have hat := (hbody.later.onward (at_ofText options.mode text)).1.read.1
    rw [hdiagnostics, filter_placed, Node.strayJumps_singleton, Node.strayJump?_of_form hform]
    exact placed_perm options (hat.perm_jumps.trans hjumps)
  · obtain ⟨s, stop, hbody, hdiagnostics⟩ := account_parseStatements text options
    have hsnippet : (Context.snippet options.version).Suits [] :=
      ⟨by simp [Node.OutsideLoop, Context.snippet], by simp [Context.snippet]⟩
    have hjumps := hbody.perm_jumps hsnippet (.of_within _ .IF rfl rfl)
    have hat := (hbody.later.onward (at_ofText options.mode text)).1
    rw [hdiagnostics, filter_placed]
    exact placed_perm options (hat.perm_jumps.trans hjumps)

end FourGL
