import FourGL.Proofs.Grammar.Derivation

/-!
# Accounts

A derivation leaves open in which context a block reads what it holds and how its header is read. An
account says this as well: each block has its own contexts (`Context.within`), its node is of the
form that was chosen, and headers are read carefully. Every run of a body has an account, and an
account is a derivation.
-/

namespace FourGL

open FourGL.Parser FourGL.ParseState

/-- The context in which a block of a keyword reads its body, its first branch or its clauses. -/
def Context.within (ctx : Context) : Keyword → Context
  | .IF => (ctx.withEnd (.keyword .IF)).withStops [.keyword .ELSE]
  | .TRY => (ctx.withEnd (.keyword .TRY)).withStops [.keyword .CATCH]
  | .CASE => (ctx.insideLoop .CASE).withStops [.keyword .WHEN, .keyword .OTHERWISE]
  | .MENU => ctx.insideMenu
  | .GLOBALS => ctx.insideGlobals
  | .MAIN => ctx.routine (.keyword .MAIN) none
  | .FUNCTION => ctx.routine (.keyword .FUNCTION) (some .block)
  | k => ctx.insideLoop k

theorem Context.inside_within (ctx : Context) (k : Keyword) : ctx.Inside k (ctx.within k) := by
  unfold within
  split
  · exact .branch _ (.inl rfl)
  · exact .branch _ (.inr rfl)
  · exact .caseOf
  · exact .menu
  · exact .globals
  · exact .routine _ _
  · exact .routine _ _
  · exact .loop _

/-- What can stand in the body of a block. -/
def Production.within : Keyword → List Production
  | .GLOBALS => globalsMembers
  | _ => statements

/-- The word that opens the second branch of a block, and what that branch is. -/
def Keyword.secondBranch? : Keyword → Option (Keyword × NodeKind)
  | .IF => some (.ELSE, .elseClause)
  | .TRY => some (.CATCH, .catchClause)
  | _ => none

/-- The keyword of a block that holds clauses. -/
def Keyword.hasClauses : Keyword → Bool
  | .CASE | .MENU => true
  | _ => false

/-- Where the header of a statement or clause may read: the attributes of an output statement and
the keys of a command are read whatever they are. -/
def NodeKind.reads : NodeKind → Set ParseState
  | .output .. | .menuOption (.command ..) => Set.univ
  | _ => careful

theorem NodeKind.careful_subset_reads (kind : NodeKind) : careful ⊆ kind.reads := by
  unfold reads
  split
  · exact Set.subset_univ _
  · exact Set.subset_univ _
  · exact .rfl

/-- Moves that read nothing and do not look ahead. -/
def ParseState.Rests (s t : ParseState) : Prop :=
  Moves careful statementMessages s t ∧ t.input = s.input

namespace ParseState.Rests

theorem refl (s : ParseState) : Rests s s := ⟨.refl s, rfl⟩

theorem trans (h₁ : Rests s t) (h₂ : Rests t u) : Rests s u :=
  ⟨h₁.1.trans h₂.1, h₂.2.trans h₁.2⟩

theorem rename (s : ParseState) (names : Names) : Rests s { s with names } :=
  ⟨.single (.rename names), rfl⟩

theorem report (s : ParseState) {m : Message} (args : List String) (span : Span)
    (hm : m ∈ statementMessages) :
    Rests s { s with reports := .of m args (some span) :: s.reports } :=
  ⟨.single (.report args span hm), rfl⟩

theorem stays (h : Rests s t) : Stays s t := ⟨h.1.steps, h.2⟩

end ParseState.Rests

/-- How a judgment comes about in full. -/
inductive Account : Judgment → Prop where
  | noRound (levels : Nat) (ctx : Context) (region : Region) (s : ParseState) :
      Account (.rounds levels ctx region s {} s)
  | addStatement (hbefore : Account (.rounds (levels + 1) ctx region s p t))
      (hchoice : Chooses false ctx region t (.form f word) u)
      (hrun : (formWith levels (bodyAt levels) f word ctx ⟨u.read.input.last, t.errorCount⟩).run
        u.read = (n, v))
      (hform : n.kind.form? = some f)
      (hstatement : Account (.statement levels ctx
        ⟨u.read.input.last, t.errorCount⟩ u.read n v))
      (hjump : (checkJump ctx n).run v = ((), w)) (hleave : Looks w x) :
      Account (.rounds (levels + 1) ctx region s ⟨n.insert p.nodes, false⟩ x)
  | skip (hbefore : Account (.rounds levels ctx region s p t))
      (hskip : Skip atLimit ctx region (p, t) (q, u)) : Account (.rounds levels ctx region s q u)
  | noClause (levels : Nat) (ctx inner : Context) (k : Keyword) (s : ParseState) :
      Account (.clauseRounds levels ctx inner k s {} s)
  | addClause {ctx inner : Context} (hbefore : Account (.clauseRounds levels ctx inner k s p t))
      (hpass : Passes ctx (some (.keyword k)) t) (hlook : Looks t u)
      (hrun : (clauseAt levels inner k p.nodes ⟨u.read.input.last, t.errorCount⟩).run u.read =
        (n, v))
      (hclause : Account
        (.clause levels inner {} ⟨u.read.input.last, t.errorCount⟩ u.read n stop v)) :
      Account (.clauseRounds levels ctx inner k s ⟨n.insert p.nodes, false⟩ v)
  | skipClause {ctx inner : Context} (hbefore : Account (.clauseRounds levels ctx inner k s p t))
      (hpass : Passes ctx (some (.keyword k)) t) (hmem : t.kindAt 1 ∉ ctx.stops)
        (hlook : Looks t u)
      (hskip : (skipUnexpected .unexpectedToken (!p.skipping)).run u.read = ((), v)) :
      Account (.clauseRounds levels ctx inner k s { p with skipping := true } v)
  | body (hrounds : Account (.rounds levels ctx region s p t))
      (hstop : Stops ctx region.terminator t stop) (hlook : Looks t u) :
      Account (.body levels ctx region s p.nodes stop u)
  | holdsBody (hplain : k.hasClauses = false) (hbody : Account
        (.body levels (ctx.within k) (.upTo (Production.within k) k) s nodes stop t)) :
      Account (.content levels ctx k s nodes stop t)
  | holdsBranches (hword : k.secondBranch? = some (word, kind))
      (hbody : Account (.body levels (ctx.within k) (.upTo Production.statements k) s nodes
        (.stopToken (.keyword word)) t))
      (hrun : (branch (bodyAt levels) (ctx.withEnd (.keyword k)) k kind
        ⟨t.read.input.last, t.errorCount⟩).run t.read = ((n, stop), u))
      (hbranch : Account (.clause levels (ctx.withEnd (.keyword k)) (.upTo Production.statements k)
        ⟨t.read.input.last, t.errorCount⟩ t.read n stop u)) :
      Account (.content levels ctx k s (n.insert nodes) stop u)
  | holdsClauses (hclauses : k.hasClauses = true) (hrounds : Account
        (.clauseRounds levels (ctx.withEnd (.keyword k)) (ctx.within k) k s p t))
      (hstop : Stops (ctx.withEnd (.keyword k)) (some (.keyword k)) t stop) (hlook : Looks t u) :
      Account (.content levels ctx k s p.nodes stop u)
  | clause (hheader : Moves kind.reads statementMessages s t)
      (hstop : header = max t.input.last.stop o.token.start)
      (hbody : Account (.body levels ctx region t nodes stop u)) (hform : kind.form? = none)
      (hkind : kind.block? = none) (hclose : (closeNode o header kind nodes).run u = (n, v)) :
      Account (.clause levels ctx region o s n stop v)
  | leaf (hmoves : Moves kind.reads statementMessages s t) (hkind : kind.block? = none)
      (hclose : (closeStatement o kind).run t = (n, u)) : Account (.statement levels ctx o s n u)
  | block (hheader : Moves careful statementMessages s s₁)
      (hstop : header = max s₁.input.last.stop o.token.start) (hbefore : Rests s₁ s₂)
      (hcontent : Account (.content levels ctx k s₂ nodes stop s₃)) (hbehind : Rests s₃ s₄)
      (hend : (closeBlock o header k stop).run s₄ = ((), s₅)) (hafter : Rests s₅ s₆)
      (hkind : kind.block? = some k) (hclose : (closeNode o header kind nodes).run s₆ = (n, t)) :
      Account (.statement levels ctx o s n t)

theorem Account.derives {J : Judgment} (h : Account J) : Derivable J := by
  induction h with
  | noRound levels ctx region s => exact .noRound levels ctx region s
  | addStatement _ hchoice hrun _ _ hjump hleave ihBefore ihStatement =>
    exact .addStatement ihBefore hchoice hrun ihStatement hjump hleave trivial
  | skip _ hskip ih => exact .skip ih hskip
  | noClause levels ctx inner k s => exact .noClause levels ctx inner k s
  | addClause _ hpass hlook hrun _ ihBefore ihClause =>
    exact .addClause ihBefore hpass hlook hrun ihClause trivial
  | skipClause _ hpass hmem hlook hskip ih => exact .skipClause ih hpass hmem hlook hskip
  | body _ hstop hlook ih => exact .body ih hstop hlook
  | holdsBody _ _ ih => exact .holdsBody (Context.inside_within _ _) ih
  | holdsBranches _ _ hrun _ ihBody ihBranch =>
    exact .holdsBranches (Context.inside_within _ _) ihBody (.plain _) hrun ihBranch trivial
  | holdsClauses _ _ hstop hlook ih =>
    exact .holdsClauses (.plain _) (Context.inside_within _ _) ih hstop hlook
  | clause hheader hstop _ _ hkind hclose ih =>
    exact .clause ⟨hheader.steps, hstop⟩ ih hkind hclose
  | leaf hmoves hkind hclose => exact .leaf hmoves.steps hkind hclose
  | block hheader hstop hbefore _ hbehind hend hafter hkind hclose ih =>
    exact .block ⟨hheader.steps, hstop⟩ hbefore.stays ih hbehind.stays hend hafter.stays hkind
      hclose

theorem Account.stops_body (h : Account (.body levels ctx region s nodes stop t)) :
    Stops ctx region.terminator t stop := h.derives.stops_body

namespace Parser

theorem closeNode_eq (h : (closeNode o header kind nodes).run s = (n, t)) :
    t = s ∧ n.kind = kind ∧ n.children = nodes := by
  obtain ⟨rfl, rfl⟩ := Prod.mk.inj h
  exact ⟨rfl, rfl, rfl⟩

theorem closeStatement_eq (h : (closeStatement o kind).run s = (n, t)) :
    t = s ∧ n.kind = kind ∧ n.children = [] := by
  obtain ⟨rfl, rfl⟩ := Prod.mk.inj h
  exact ⟨rfl, rfl, rfl⟩

/-- Every body that is read where `levels` levels of nesting are left has an account. -/
def AccountsBodies (levels : Nat) : Prop :=
  ∀ ctx region s, Account (.body levels ctx region s ((bodyAt levels ctx region).run s).1.1
    ((bodyAt levels ctx region).run s).1.2 ((bodyAt levels ctx region).run s).2)

/-- The parser reads a statement of a form from the state on. -/
def Accounts (levels : Nat) (ctx : Context) (o : Opening) (f : Form) (p : Parser Node)
    (s : ParseState) : Prop :=
  Account (.statement levels ctx o s (p.run s).1 (p.run s).2) ∧ (p.run s).1.kind.form? = some f

theorem Accounts.of_run {ctx : Context} {o : Opening} {p : Parser Node}
    (h : Accounts levels ctx o f p s) (hrun : p.run s = (n, t)) :
    Account (.statement levels ctx o s n t) ∧ n.kind.form? = some f := by
  unfold Accounts at h
  rwa [hrun] at h

/-- The parser reads the rest of a statement of a form behind its header. -/
def AccountsTail (levels : Nat) (ctx : Context) (o : Opening) (f : Form) (p : Parser Node)
    (t : ParseState) : Prop :=
  ∀ s, Moves careful statementMessages s t →
    Account (.statement levels ctx o s (p.run t).1 (p.run t).2) ∧ (p.run t).1.kind.form? = some f

theorem accounts_of_leads {ctx : Context} {o : Opening} {p : Parser Node}
    (h : p.Leads careful statementMessages (AccountsTail levels ctx o f) s) :
    Accounts levels ctx o f p s := by
  obtain ⟨t, q, hmoves, htail, hrun⟩ := h
  unfold Accounts
  rw [hrun]
  exact htail s hmoves

/-- A statement that is no block is accounted for if its kind allows what it reads. -/
theorem accounts_of_closes {ctx : Context} {o : Opening} {p : Parser Node}
    (h : p.Leads R statementMessages (Closes o f) s)
    (hR : ∀ kind : NodeKind, kind.form? = some f → R ⊆ kind.reads) :
    Accounts levels ctx o f p s := by
  obtain ⟨t, q, hmoves, ⟨kind, hform, hblock, rfl⟩, hrun⟩ := h
  unfold Accounts
  rw [hrun]
  exact ⟨.leaf (hmoves.mono (hR kind hform) .rfl) hblock rfl, hform⟩

theorem accounts_of_careful {ctx : Context} {o : Opening} {p : Parser Node}
    (h : p.Leads careful statementMessages (Closes o f) s) : Accounts levels ctx o f p s :=
  accounts_of_closes h fun kind _ => kind.careful_subset_reads

/-- The parser reads nothing and does not look ahead. -/
def ReadsNothing (p : Parser α) : Prop := ∀ s, Rests s (p.run s).2

theorem readsNothing_ask (f : ParseState → α) : (ask f).ReadsNothing := fun s => .refl s

theorem readsNothing_modifyNames (f : Names → Names) :
    (modifyNames f).ReadsNothing := fun s => .rename s _

theorem readsNothing_report {m : Message} (hm : m ∈ statementMessages)
    (args : List String) (span : Span) :
    (report m args span).ReadsNothing := fun s => .report s args span hm

/-- The parser reads the rest of a block of a form whose header ends at `header`. -/
def AccountsBlock (levels : Nat) (ctx : Context) (o : Opening) (f : Form) (header : Nat)
    (p : Parser Node) : Prop :=
  ∀ s t u, Moves careful statementMessages s t →
    header = max t.input.last.stop o.token.start →
    Rests t u → Account (.statement levels ctx o s (p.run u).1 (p.run u).2) ∧
      (p.run u).1.kind.form? = some f

theorem AccountsBlock.bind {ctx : Context} {o : Opening} {header : Nat} {p : Parser α}
    {f : α → Parser Node} (hp : p.ReadsNothing)
    (hf : ∀ a, AccountsBlock levels ctx o g header (f a)) :
    AccountsBlock levels ctx o g header (p >>= f) :=
  fun s t _ hmoves hheader hrests => hf _ s t _ hmoves hheader (hrests.trans (hp _))

theorem AccountsBlock.ite {ctx : Context} {o : Opening} {header : Nat} {c : Prop} [Decidable c]
    {p q : Parser Node} (hp : AccountsBlock levels ctx o f header p)
    (hq : AccountsBlock levels ctx o f header q) :
    AccountsBlock levels ctx o f header (if c then p else q) := by
  split
  · exact hp
  · exact hq

theorem accountsTail_of_block {ctx : Context} {o : Opening} {g : Nat → Parser Node}
    (h : ∀ header, AccountsBlock levels ctx o f header (g header)) (t : ParseState) :
    AccountsTail levels ctx o f (headerStop o >>= g) t :=
  fun s hmoves => h _ s t t hmoves rfl (.refl t)

section

variable {levels : Nat} (hbody : AccountsBodies levels) (ctx : Context) (o : Opening)
include hbody

/-! ## Blocks with one body -/

theorem accountsTail_simpleBlock {k : Keyword} (hplain : k.hasClauses = false) {kind : NodeKind}
    {inner : Context} (hctx : ctx.within k = inner)
    (hps : Production.within k = Production.statements)
    (hform : kind.form? = some f) (hkind : kind.block? = some k) (t : ParseState) :
    AccountsTail levels ctx o f (simpleBlock (bodyAt levels) inner o k kind) t := by
  intro s hmoves
  subst hctx
  refine ⟨.block hmoves rfl (.refl _) (.holdsBody hplain ?_) (.refl _) rfl
    (.refl _) hkind rfl, hform⟩
  rw [hps]
  exact hbody _ _ _

theorem accounts_whileStatement (s : ParseState) :
    Accounts levels ctx o .whileLoop (whileStatement levels (bodyAt levels) ctx o) s :=
  accounts_of_leads <| .after (careful_expectExpression phraseMessages_subset levels) fun _ t =>
    .here (accountsTail_simpleBlock hbody ctx o rfl rfl rfl rfl rfl t)

theorem accounts_forStatement (s : ParseState) :
    Accounts levels ctx o .forLoop (forStatement levels (bodyAt levels) ctx o) s := by
  have hexpect := careful_expect phraseMessages_subset
  have htail (counter : Option Designator) (t : ParseState) :
      Leads careful statementMessages (AccountsTail levels ctx o .forLoop) (do
        let first ← expressionBehind levels (expect (.mark .equal))
        let last ← expressionBehind levels (expect (.keyword .TO))
        let step ← expressionBehind levels (optional (.keyword .STEP))
        simpleBlock (bodyAt levels) (ctx.insideLoop .FOR) o .FOR (.forLoop counter first last step))
        t :=
    .after (careful_expressionBehind levels (hexpect _ (by decide))) fun _ _ =>
      .after (careful_expressionBehind levels (hexpect _ (by decide))) fun _ _ =>
      .after (careful_expressionBehind levels (careful_optional _ (by decide))) fun _ t =>
      .here (accountsTail_simpleBlock hbody ctx o rfl rfl rfl rfl rfl t)
  refine accounts_of_leads ?_
  unfold forStatement
  refine .after (careful_designator? phraseMessages_subset levels) fun counter t => ?_
  split
  · exact .after (careful_reportNext (by simp [statementMessages]) _) fun _ => htail counter
  · exact htail counter t

omit hbody in
theorem readsNothing_reportRedeclared (cs : List Cursor) : (reportRedeclared cs).ReadsNothing := by
  induction cs with
  | nil => exact fun s => .refl s
  | cons c cs ih =>
    exact fun s => .trans (readsNothing_report (by simp [statementMessages])
      [c.name] c.span s) (ih _)

theorem accountsTail_cursorLoop (cursor : String) {kind : List Cursor → NodeKind}
    (hform : ∀ redeclared, (kind redeclared).form? = some .foreachLoop)
    (hkind : ∀ redeclared, (kind redeclared).block? = some .FOREACH) (t : ParseState) :
    AccountsTail levels ctx o .foreachLoop (cursorLoop (bodyAt levels) ctx o cursor kind) t := by
  refine accountsTail_of_block (fun header => ?_) t
  intro s t u hmoves hheader hrests
  exact ⟨.block hmoves hheader (hrests.trans (.rename u _)) (.holdsBody rfl (hbody _ _ _))
    (.trans (.rename _ _) (readsNothing_reportRedeclared _ _)) rfl (.refl _)
      (hkind _) rfl, hform _⟩

theorem accounts_foreachStatement (s : ParseState) :
    Accounts levels ctx o .foreachLoop (foreachStatement levels (bodyAt levels) ctx o) s := by
  have htail (cursor : Option String) (arguments : List Expression) (into : List Designator)
      (reoptimization : Bool) (t : ParseState) : AccountsTail levels ctx o .foreachLoop
        (cursorLoop (bodyAt levels) ctx o (cursor.getD "")
          (.foreachLoop cursor arguments into reoptimization)) t :=
    accountsTail_cursorLoop hbody ctx o _ (fun _ => rfl) (fun _ => rfl) t
  refine accounts_of_leads ?_
  unfold foreachStatement
  refine .after (careful_expectNameText phraseMessages_subset) fun cursor _ => ?_
  refine .after (careful_listBehind levels (by decide)) fun arguments _ => ?_
  refine .after (careful_designatorsBehind levels (by decide)) fun into t => ?_
  refine .bind (careful_nextAre _ _ t) fun reoptimization u hnext => ?_
  split
  next hfound =>
    rw [hfound] at hnext
    obtain ⟨hwith, hword⟩ := kindAt_of_nextAre hnext
    refine .bind (.next (careful_of_eq hwith (by decide))) fun _ v hread => ?_
    obtain ⟨-, rfl⟩ := Prod.mk.inj hread
    exact .bind (.next (careful_of_eq ((kindAt_read u 0).trans hword) (by decide))) fun _ _ _ =>
      .here (htail _ _ _ _ _)
  next => exact .here (htail _ _ _ _ _)

theorem accounts_globalsMember (s : ParseState) :
    Accounts levels ctx o .globals (globalsMember (bodyAt levels) ctx o) s := by
  have htail (t : ParseState) :
      AccountsTail levels ctx o .globals (globalsBlock (bodyAt levels) ctx o) t := by
    refine accountsTail_of_block (fun header => ?_) t
    intro s t u hmoves hheader hrests
    exact ⟨.block hmoves hheader (hrests.trans (.rename u _)) (.holdsBody rfl (hbody _ _ _))
      (.rename _ _) rfl (.rename _ _) rfl rfl, rfl⟩
  refine accounts_of_leads ?_
  unfold globalsMember
  refine .bind (careful_nextIs _ s) fun isFile t hnext => ?_
  split
  next hfile =>
    rw [hfile] at hnext
    have hread := careful_of_eq (kindAt_of_nextIs hnext) (by decide)
    refine .bind (.next hread) fun file u _ => .here fun s hmoves => ?_
    exact ⟨.leaf (hmoves.mono (NodeKind.careful_subset_reads _) .rfl) rfl rfl, rfl⟩
  next => exact .here (htail t)

theorem accountsBlock_routineBlock (header : Nat) {k : Keyword} (hplain : k.hasClauses = false)
    {returns : Option Owner} {kind : Holding → NodeKind}
    (hctx : ctx.within k = ctx.routine (.keyword k) returns)
    (hps : Production.within k = Production.statements)
    (hform : ∀ held, (kind held).form? = some f) (hkind : ∀ held, (kind held).block? = some k) :
    AccountsBlock levels ctx o f header
      (routineBlock (bodyAt levels) ctx o header k returns kind) := by
  intro s t u hmoves hheader hrests
  have hcontent (u : ParseState) : Account (.body levels (ctx.within k)
      (.upTo (Production.within k) k) u
      ((statementsUpTo (bodyAt levels) (ctx.routine (.keyword k) returns) k).run u).1.1
      ((statementsUpTo (bodyAt levels) (ctx.routine (.keyword k) returns) k).run u).1.2
      ((statementsUpTo (bodyAt levels) (ctx.routine (.keyword k) returns) k).run u).2) := by
    rw [hctx, hps]
    exact hbody _ _ _
  exact ⟨.block hmoves hheader (hrests.trans (.rename u _))
    (.holdsBody hplain (hcontent _)) (.rename _ _)
    rfl (.refl _) (hkind _) rfl, hform _⟩

theorem accounts_mainMember (h : Fits .main word s) :
    Accounts levels ctx o .main (mainMember (bodyAt levels) word ctx o) s := by
  have hblock (header : Nat) : AccountsBlock levels ctx o .main header (do
      modifyNames fun n => { n with hasMain := true }
      routineBlock (bodyAt levels) ctx o header .MAIN none fun held => .main held.scope) :=
    .bind (readsNothing_modifyNames _) fun _ =>
      accountsBlock_routineBlock hbody ctx o header rfl rfl rfl (fun _ => rfl) fun _ => rfl
  have htail (t : ParseState) : AccountsTail levels ctx o .main (do
      let header ← headerStop o
      if (← getNames).hasMain then
        report .secondMain [] (.between o.token.start header)
      modifyNames fun n => { n with hasMain := true }
      routineBlock (bodyAt levels) ctx o header .MAIN none fun held => .main held.scope) t := by
    refine accountsTail_of_block (fun header => .bind (readsNothing_ask _) fun names => ?_) t
    refine .ite (.bind (readsNothing_report ?_ _ _) fun _ => hblock header) (hblock header)
    simp [statementMessages]
  refine accounts_of_leads ?_
  unfold mainMember
  refine .bind (h.runs_accessOf rfl (by decide)) fun access t _ => ?_
  split
  · exact .here (htail t)
  · exact .after (careful_report (by simp [statementMessages]) _ _) fun _ u => .here (htail u)

omit hbody in
theorem careful_parameters : parameters.Careful statementMessages := by
  unfold parameters
  have hexpect := careful_expect phraseMessages_subset
  refine .bind (hexpect _ (by decide)) fun found => .ite ?_ (.pure _)
  refine .bind (careful_nextIs _) fun isEmpty => ?_
  split
  · exact .bind (.pure _) fun _ => .bind (hexpect _ (by decide)) fun _ => .pure _
  · exact .bind (careful_commaList (careful_expectNameText phraseMessages_subset)) fun _ =>
      .bind (hexpect _ (by decide)) fun _ => .pure _

theorem accounts_functionMember (h : Fits .function word s) :
    Accounts levels ctx o .function (functionMember (bodyAt levels) word ctx o) s := by
  refine accounts_of_leads ?_
  unfold functionMember
  refine .bind (h.runs_accessOf rfl (by decide)) fun access _ _ => ?_
  refine .after (careful_expectName phraseMessages_subset) fun named _ => ?_
  refine .after careful_lastStop fun stop _ => .after careful_parameters fun parameters t => ?_
  refine .here (accountsTail_of_block (fun header => ?_) t)
  dsimp only
  refine .ite (.bind (readsNothing_modifyNames _) fun _ => ?_) ?_
  · exact accountsBlock_routineBlock hbody ctx o header rfl rfl rfl (fun _ => rfl) fun _ => rfl
  · exact accountsBlock_routineBlock hbody ctx o header rfl rfl rfl (fun _ => rfl) fun _ => rfl

/-! ## Two branches -/

/-- The second branch of a block, if there is one, behind the first. -/
theorem account_secondBranch {k word : Keyword} {branch : NodeKind}
    (hword : k.secondBranch? = some (word, branch))
    (hctx : ctx.within k = (ctx.withEnd (.keyword k)).withStops [.keyword word])
    (hps : Production.within k = Production.statements) (hform : branch.form? = none)
    (hbranch : branch.block? = none) {s t : ParseState}
    {first : List Node × Stop}
    (hfirst : (statementsUpTo (bodyAt levels)
      ((ctx.withEnd (.keyword k)).withStops [.keyword word]) k).run s = (first, t)) :
    Account (.content levels ctx k s
      ((secondBranch (bodyAt levels) (ctx.withEnd (.keyword k)) k word branch first).run t).1.1
      ((secondBranch (bodyAt levels) (ctx.withEnd (.keyword k)) k word branch first).run t).1.2
      ((secondBranch (bodyAt levels) (ctx.withEnd (.keyword k)) k word branch first).run t).2) := by
  have haccount := hbody ((ctx.withEnd (.keyword k)).withStops [.keyword word])
    { terminator := some (.keyword k) } s
  rw [show (bodyAt levels _ _).run s = (first, t) from hfirst, ← hctx] at haccount
  unfold secondBranch
  by_cases hstop : first.2 = .stopToken (.keyword word)
  · rw [if_pos hstop]
    rw [hstop] at haccount
    exact .holdsBranches hword haccount rfl
      (.clause (.refl _) rfl (hbody _ _ _) hform hbranch rfl)
  · rw [if_neg hstop]
    refine .holdsBody ?_ ?_
    · unfold Keyword.secondBranch? at hword
      split at hword <;> first | rfl | cases hword
    · rw [hps]
      exact haccount

theorem accountsTail_branchedBlock {k word : Keyword} {kind branch : NodeKind}
    (hword : k.secondBranch? = some (word, branch))
    (hctx : ctx.within k = (ctx.withEnd (.keyword k)).withStops [.keyword word])
    (hps : Production.within k = Production.statements) (hform : kind.form? = some f)
    (hkind : kind.block? = some k) (hbranchForm : branch.form? = none)
    (hbranch : branch.block? = none) (t : ParseState) :
    AccountsTail levels ctx o f (branchedBlock (bodyAt levels) ctx o k word kind branch) t := by
  refine accountsTail_of_block (fun header => ?_) t
  intro s t u hmoves hheader hrests
  exact ⟨.block hmoves hheader hrests
    (account_secondBranch hbody ctx hword hctx hps hbranchForm hbranch rfl) (.refl _) rfl (.refl _)
    hkind rfl, hform⟩

theorem accounts_ifStatement (s : ParseState) :
    Accounts levels ctx o .ifThen (ifStatement levels (bodyAt levels) ctx o) s :=
  accounts_of_leads <| .after (careful_expectExpression phraseMessages_subset levels) fun _ _ =>
    .after (careful_expect phraseMessages_subset _ (by decide)) fun _ t =>
    .here (accountsTail_branchedBlock hbody ctx o rfl rfl rfl rfl rfl rfl rfl t)

theorem accounts_tryStatement (s : ParseState) :
    Accounts levels ctx o .tryBlock (tryStatement (bodyAt levels) ctx o) s :=
  accounts_of_leads (.here (accountsTail_branchedBlock hbody ctx o rfl rfl rfl rfl rfl rfl rfl s))

/-! ## Clauses -/

/-- The parser reads a clause behind its first token. -/
def AccountsClause (levels : Nat) (ctx : Context) (o : Opening) (p : Parser Node) (s : ParseState) :
    Prop := ∃ stop, Account (.clause levels ctx {} o s (p.run s).1 stop (p.run s).2)

/-- The parser reads the body of a clause whose kind allows the states of `R` to be read in. -/
def ReadsBody (levels : Nat) (ctx : Context) (o : Opening) (R : Set ParseState) (p : Parser Node)
    (_ : ParseState) : Prop :=
  ∃ kind : NodeKind, R ⊆ kind.reads ∧ kind.form? = none ∧ kind.block? = none ∧
    p = clauseBody (bodyAt levels) ctx o kind

theorem accountsClause_of_body {ctx : Context} {o : Opening} {p : Parser Node}
    (h : p.Leads R statementMessages (ReadsBody levels ctx o R) s) :
    AccountsClause levels ctx o p s := by
  obtain ⟨t, q, hmoves, ⟨kind, hR, hform, hkind, rfl⟩, hrun⟩ := h
  unfold AccountsClause
  rw [hrun]
  exact ⟨_, .clause (hmoves.mono hR .rfl) rfl (hbody _ _ _) hform hkind rfl⟩

omit hbody in
theorem account_clauses {k : Keyword} (hk : k.hasClauses = true) {starts : Parser Bool}
    (hstarts : starts.Peeks)
    (hclause : ∀ before errors s t, starts.run s = (true, t) →
      AccountsClause levels (ctx.within k) ⟨t.read.input.last, errors⟩
        (clauseAt levels (ctx.within k) k before ⟨t.read.input.last, errors⟩) t.read)
    (s : ParseState) :
    Account (.content levels ctx k s
      ((clauses (ctx.withEnd (.keyword k)) (.keyword k) starts
        (clauseAt levels (ctx.within k) k)).run s).1.1
      ((clauses (ctx.withEnd (.keyword k)) (.keyword k) starts
        (clauseAt levels (ctx.within k) k)).run s).1.2
      ((clauses (ctx.withEnd (.keyword k)) (.keyword k) starts
        (clauseAt levels (ctx.within k) k)).run s).2) := by
  have hround : ∀ a b,
      ClauseRound (ctx.withEnd (.keyword k)) (.keyword k) starts
        (clauseAt levels (ctx.within k) k) a b →
      Account (.clauseRounds levels (ctx.withEnd (.keyword k)) (ctx.within k) k s a.1 a.2) →
      Account (.clauseRounds levels (ctx.withEnd (.keyword k)) (ctx.within k) k s b.1 b.2) := by
    intro a b hround haccount
    cases hround with
    | @clause n u p t s₁ t₁ hpass hlook hfound hrun =>
      obtain ⟨stop, hclause⟩ := hclause p.nodes t.errorCount s₁ t₁ hfound
      rw [hrun] at hclause
      exact .addClause haccount hpass (hlook.trans (hstarts.of_run hfound)) hrun hclause
    | unexpected hpass hlook hfound hmem hlook' hskip =>
      have hpeek := hstarts.of_run hfound
      exact .skipClause haccount hpass hmem (hlook.trans (hpeek.trans hlook')) hskip
  generalize hrun :
    (clauses (ctx.withEnd (.keyword k)) (.keyword k) starts
      (clauseAt levels (ctx.within k) k)).run s = r
  obtain ⟨⟨ns, stop⟩, u⟩ := r
  obtain ⟨p, t, haccount, rfl, hstop, hlook⟩ := clauses_keeps hstarts
    (I := fun p t => Account (.clauseRounds levels (ctx.withEnd (.keyword k))
      (ctx.within k) k s p t))
    (.noClause _ _ _ _ _) hround hrun
  exact .holdsClauses hk haccount hstop hlook

omit hbody in
theorem peeks_startsCaseClause : startsCaseClause.Peeks := .bind peeks_peekKind fun _ => .pure _

theorem accountsClause_caseClause (before : List Node) (s : ParseState) :
    AccountsClause levels ctx o (caseClause levels (bodyAt levels) ctx before o) s := by
  refine accountsClause_of_body (R := careful) hbody ?_
  unfold caseClause
  split
  · exact .after (careful_expressionList phraseMessages_subset levels) fun _ _ =>
      .here ⟨_, .rfl, rfl, rfl, rfl⟩
  · dsimp only
    split
    · exact .after (careful_report (by simp [statementMessages]) _ _) fun _ _ =>
        .here ⟨_, .rfl, rfl, rfl, rfl⟩
    · exact .here ⟨_, .rfl, rfl, rfl, rfl⟩

theorem accounts_caseStatement (s : ParseState) :
    Accounts levels ctx o .caseOf (caseStatement levels (bodyAt levels) ctx o) s := by
  refine accounts_of_leads ?_
  unfold caseStatement
  refine .after (careful_expression? phraseMessages_subset levels) fun subject t => .here ?_
  refine accountsTail_of_block (fun header => ?_) t
  intro s t u hmoves hheader hrests
  exact ⟨.block hmoves hheader hrests
    (account_clauses ctx rfl peeks_startsCaseClause
      (fun before errors _ t _ => accountsClause_caseClause hbody (ctx.within .CASE)
        ⟨t.read.input.last, errors⟩ before t.read) u)
    (.refl _) rfl (.refl _) rfl rfl, rfl⟩

omit hbody in
/-- Any keyword counts as a key. -/
theorem runs_menuKey (s : ParseState) : menuKey.Runs .univ statementMessages s := by
  unfold menuKey
  refine .bind (careful_peek s).free fun t u _ => .ite (fun _ => ?_) fun _ => ?_
  · exact .bind (.next trivial) fun _ _ _ => .pure _ _
  · exact .bind (careful_reportNext (phraseMessages_subset (by simp [phraseMessages])) _ u).free
      fun _ _ _ => .pure _ _

omit hbody in
theorem runs_menuKeys (s : ParseState) : menuKeys.Runs .univ statementMessages s := by
  have hexpect (m : Mark) : (expect (.mark m)).Careful statementMessages :=
    careful_expect phraseMessages_subset _ Kind.noConfusion
  unfold menuKeys
  refine .bind (careful_both (careful_optional _ (by decide)) (hexpect _) s).free fun found t _ =>
    .ite (fun _ => ?_) fun _ => .pure _ _
  refine .bind (runs_commaList (Set.subset_univ _) runs_menuKey t) fun keys u _ => ?_
  exact .bind (hexpect _ u).free fun _ _ _ => .pure _ _

omit hbody in
theorem runs_commandClause (levels : Nat) (s : ParseState) :
    (commandClause levels).Runs .univ statementMessages s := by
  unfold commandClause
  refine .bind (runs_menuKeys s) fun keys t _ => ?_
  refine .bind (careful_expression? phraseMessages_subset levels t).free fun name u _ => ?_
  split
  · exact .bind (careful_expressionOnLine? levels u).free fun _ _ _ => .pure _ _
  · exact .bind (.pure _ _) fun _ _ _ => .pure _ _

omit hbody in
theorem commandClause_eq (h : (commandClause levels).run s = (clause, t)) :
    ∃ keys name help, clause = .command keys name help := by
  obtain ⟨keys, u, -, h⟩ := run_of_bind h
  obtain ⟨name, v, -, h⟩ := run_of_bind h
  split at h
  · obtain ⟨help, w, -, h⟩ := run_of_bind h
    exact ⟨keys, name, help, (Prod.mk.inj h).1.symm⟩
  · exact ⟨keys, name, none, (Prod.mk.inj h).1.symm⟩

omit hbody in
theorem peeks_startsMenuClause : startsMenuClause.Peeks := by
  unfold startsMenuClause
  refine .bind peeks_peekKind fun kind => ?_
  split
  · exact peeks_secondIs _
  · exact .pure _
  · exact .bind (peeks_peekAt 2) fun _ => .pure _
  · exact .pure _

omit hbody in
/-- A clause of a menu starts with COMMAND, or with two words. -/
theorem startsMenuClause_found (h : startsMenuClause.run s = (true, t)) :
    t.kindAt 1 = .keyword .COMMAND ∨ t.read ∈ careful := by
  obtain ⟨kind, u, hpeek, h⟩ := run_of_bind h
  have hsecond (hkind : t.kindAt 2 ≠ .keyword .END) : t.read ∈ careful :=
    careful_of_ne ((kindAt_read t 0).symm ▸ hkind)
  split at h
  · refine .inr (hsecond ?_)
    rw [kindAt_of_secondIs h]
    decide
  · cases h
    exact .inl (kindAt_of_peekKind hpeek)
  · obtain ⟨second, v, hpeek', h⟩ := run_of_bind h
    obtain ⟨hfound, rfl⟩ := Prod.mk.inj h
    refine .inr (hsecond fun hend => ?_)
    rw [kindAt, tokenAt_of_peekAt hpeek'] at hend
    rw [hend] at hfound
    cases hfound
  · cases h

theorem accountsClause_menuClause (h : o.token.kind = .keyword .COMMAND ∨ s ∈ careful) :
    AccountsClause levels ctx o (menuClause levels (bodyAt levels) ctx o) s := by
  by_cases hcommand : o.token.kind = .keyword .COMMAND
  · refine accountsClause_of_body (R := .univ) hbody ?_
    unfold menuClause menuClauseHeader
    rw [if_pos hcommand]
    refine .bind (runs_commandClause levels s) fun clause t hrun => ?_
    obtain ⟨keys, name, help, rfl⟩ := commandClause_eq hrun
    exact .here ⟨_, .rfl, rfl, rfl, rfl⟩
  · refine accountsClause_of_body (R := careful) hbody ?_
    have hclause (clause : MenuClause) (t : ParseState) :
        Leads careful statementMessages (ReadsBody levels ctx o careful)
          (clauseBody (bodyAt levels) ctx o (.menuOption clause)) t :=
      .here ⟨_, NodeKind.careful_subset_reads _, rfl, rfl, rfl⟩
    unfold menuClause menuClauseHeader
    rw [if_neg hcommand]
    refine .bind ?_ fun clause t _ => hclause clause t
    refine .bind (.next (h.resolve_left hcommand)) fun word t _ => ?_
    split
    · exact .bind (careful_expectNameText phraseMessages_subset t) fun _ _ _ => .pure _ _
    · exact .bind (careful_expectExpression phraseMessages_subset levels t) fun _ _ _ => .pure _ _
    · exact .pure _ _

theorem accountsTail_menuBlock (title : Option Expression) (t : ParseState) :
    AccountsTail levels ctx o .menu (menuBlock levels (bodyAt levels) ctx o title) t := by
  refine accountsTail_of_block (fun header => ?_) t
  intro s t u hmoves hheader hrests
  have hclauses := account_clauses ctx (k := .MENU) rfl peeks_startsMenuClause
    (fun _ errors _ t h => accountsClause_menuClause hbody (ctx.within .MENU)
      ⟨t.read.input.last, errors⟩ ?_) u
  · simp only [run_bind]
    split
    · exact ⟨.block hmoves hheader hrests hclauses (.refl _) rfl (.refl _) rfl rfl, rfl⟩
    · exact ⟨.block hmoves hheader hrests hclauses
        (.report _ _ _ (by simp [statementMessages])) rfl (.refl _) rfl rfl, rfl⟩
  · rw [last_read]
    exact startsMenuClause_found h

theorem accounts_menuStatement (s : ParseState) :
    Accounts levels ctx o .menu (menuStatement levels (bodyAt levels) ctx o) s := by
  refine accounts_of_leads ?_
  unfold menuStatement
  refine .after careful_peekKind fun kind t => ?_
  split
  · exact .bind (.pure _ _) fun _ u _ => .here (accountsTail_menuBlock hbody ctx o _ u)
  · exact .after (careful_expression? phraseMessages_subset levels) fun _ u =>
      .here (accountsTail_menuBlock hbody ctx o _ u)

/-! ## All forms and bodies -/

omit hbody in
theorem NodeKind.reads_of_output {kind : NodeKind} (h : kind.form? = some .output) :
    kind.reads = Set.univ := by
  cases kind with
  | output => rfl
  | _ => cases h

theorem accounts_formWith {form : Form} (h : Fits form word s) :
    Accounts levels ctx o form (formWith levels (bodyAt levels) form word ctx o) s := by
  cases form with
  | vars => exact accounts_of_careful (leads_variablesStatement o ctx h)
  | constants => exact accounts_of_careful (leads_constantsStatement levels o ctx h)
  | types => exact accounts_of_careful (leads_typesStatement o ctx h)
  | assignment => exact accounts_of_careful (leads_assignmentStatement levels o)
  | call => exact accounts_of_careful (leads_callStatement levels o)
  | returnValues => exact accounts_of_careful (leads_returnStatement levels o ctx)
  | output =>
    exact accounts_of_closes (leads_outputStatement levels o word) fun _ hform =>
      (NodeKind.reads_of_output hform).symm.subset
  | sleep => exact accounts_of_careful (leads_sleepStatement levels o)
  | setNull => exact accounts_of_careful (leads_setNullStatement levels o)
  | exit => exact accounts_of_careful (leads_exitStatement levels o)
  | continueLoop => exact accounts_of_careful (leads_continueStatement o)
  | prepare => exact accounts_of_careful (leads_prepareStatement levels o ctx)
  | declare => exact accounts_of_careful (leads_declareStatement levels o ctx)
  | cursor => exact accounts_of_careful (leads_cursorStatement levels o word)
  | whenever => exact accounts_of_careful (leads_wheneverStatement o)
  | run => exact accounts_of_careful (leads_runStatement levels o)
  | ifThen => exact accounts_ifStatement hbody ctx o s
  | whileLoop => exact accounts_whileStatement hbody ctx o s
  | forLoop => exact accounts_forStatement hbody ctx o s
  | foreachLoop => exact accounts_foreachStatement hbody ctx o s
  | caseOf => exact accounts_caseStatement hbody ctx o s
  | tryBlock => exact accounts_tryStatement hbody ctx o s
  | menu => exact accounts_menuStatement hbody ctx o s
  | importModule => exact accounts_of_careful (leads_importStatement o)
  | database => exact accounts_of_careful (leads_databaseStatement o word)
  | globals => exact accounts_globalsMember hbody ctx o s
  | main => exact accounts_mainMember hbody ctx o h
  | function => exact accounts_functionMember hbody ctx o h
  | menuControl => exact accounts_of_careful (leads_menuControlStatement levels o h)

end

/-- Bodies have accounts if every round of one can be added to an account. -/
theorem accountsBodies_of_rounds {statement : Option FormParser}
    (hbodyAt : bodyAt levels = bodyWith statement)
    (hround : ∀ {ctx region s p t q u}, Account (.rounds levels ctx region s p t) →
      Round statement ctx region (p, t) (q, u) → Account (.rounds levels ctx region s q u)) :
    AccountsBodies levels := by
  intro ctx region s
  rw [hbodyAt]
  generalize hrun : (bodyWith statement ctx region).run s = r
  obtain ⟨⟨ns, stop⟩, u⟩ := r
  obtain ⟨p, t, haccount, rfl, hstop, hlook⟩ :=
    bodyWith_keeps (I := fun p t => Account (.rounds levels ctx region s p t)) (.noRound _ _ _ _)
      (fun _ _ hlast hbefore => hround hbefore hlast) hrun
  exact .body haccount hstop hlook

/-- Every body that is read has an account, however deep it is nested. -/
theorem accountsBodies (levels : Nat) : AccountsBodies levels := by
  induction levels with
  | zero =>
    -- Where no level is left, a body reads no statement.
    refine accountsBodies_of_rounds rfl fun hbefore hround => ?_
    cases hround with
    | statement hparse => cases hparse
    | skip hskip => exact .skip hbefore hskip
  | succ levels ih =>
    -- The bodies inside a statement are read with one level less.
    refine accountsBodies_of_rounds rfl fun hbefore hround => ?_
    cases hround with
    | statement hparse hchoice hrun hjump hleave =>
      cases hparse
      obtain ⟨hnode, hform⟩ := (accounts_formWith ih _ _ hchoice.fits).of_run hrun
      exact .addStatement hbefore hchoice hrun hform hnode hjump hleave
    | skip hskip => exact .skip hbefore hskip

end Parser

/-! ## Whole texts -/

/-- The members of a module are read as a body, which has an account; behind them only the end of
the text is read. -/
theorem account_parseModule (text : String) (options : ParseOptions) :
    ∃ s stop, Account (.body maxNesting (.root options.version) .members
        (.ofText options.mode text) (parseModule text options).module.children stop s) ∧
      ((moduleNode options.version).run (.ofText options.mode text)).2 = s.read ∧
      (parseModule text options).module.extent =
        ⟨0, s.read.input.length, 0, s.read.errorCount == 0⟩ ∧
      (parseModule text options).module.kind.form? = none ∧
      (parseModule text options).module.kind.block? = none ∧
      (parseModule text options).diagnostics = options.placed s.read.diagnostics :=
  ⟨_, _, accountsBodies maxNesting _ _ _, rfl, rfl, rfl, rfl, rfl⟩

theorem account_parseStatements (text : String) (options : ParseOptions) :
    ∃ s stop, Account (.body maxNesting (.snippet options.version) {} (.ofText options.mode text)
        (parseStatements text options).statements stop s) ∧
      (parseStatements text options).diagnostics = options.placed s.diagnostics :=
  ⟨_, _, accountsBodies maxNesting _ _ _, rfl⟩

/-- The body of a module has a derivation. -/
theorem derives_parseModule (text : String) (options : ParseOptions) :
    ∃ s stop, (bodyAt maxNesting (.root options.version) .members).run
      (.ofText options.mode text) =
        (((parseModule text options).module.children, stop), s) ∧
      Derivable (.body maxNesting (.root options.version) .members (.ofText options.mode text)
        (parseModule text options).module.children stop s) ∧
      (parseModule text options).module.extent.start = 0 ∧
      (parseModule text options).module.extent.stop = s.read.input.length ∧
      (parseModule text options).module.extent.headerStop = 0 ∧
      (parseModule text options).module.kind.block? = none ∧
      (parseModule text options).diagnostics = options.placed s.read.diagnostics := by
  have hbody := accountsBodies maxNesting (.root options.version) .members
    (.ofText options.mode text)
  exact ⟨_, _, rfl, hbody.derives, rfl, rfl, rfl, rfl, rfl⟩

end FourGL
