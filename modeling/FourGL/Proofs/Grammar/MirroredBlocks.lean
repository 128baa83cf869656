import FourGL.Proofs.Grammar.MirroredBodies

/-!
# Blocks in a larger text

Blocks that are read without an error are read from the larger text as well, if the bodies in them
are; so, level by level, are all forms of statements. Behind a body it matters why it has stopped:
only where it has are there sure to be tokens, such as those of the END.
-/

namespace FourGL

open FourGL.Parser FourGL.ParseState

variable {k : Nat} {b : Bool}

theorem Context.closing_none : Context.Closing none := ⟨nofun, nofun⟩

theorem Context.closing_keyword {word : Keyword} (h : word ≠ .FUNCTION) :
    Context.Closing (some (.keyword word)) :=
  ⟨nofun, fun heq => h (Kind.keyword.inj (Option.some.inj heq))⟩

namespace Parser

/-! ## The ends of blocks -/

theorem mirrors_closeBlock (keyword : Keyword) (stop : Stop) {o o' : Opening} :
    Mirrors k true stop.ahead id (closeBlock o header keyword stop)
      (closeBlock o' header' keyword stop.enclosed) := by
  cases stop with
  | terminator => exact .next fun _ _ _ => .next fun _ _ _ => .pure rfl
  | ancestorEnd | stopToken | endOfFile => exact .of_not_clean fun _ _ _ => Clean.not_report rfl

theorem Stop.enclosed_eq_stopToken {stop : Stop} :
    stop.enclosed = .stopToken word ↔ stop = .stopToken word := by
  cases stop <;> simp [Stop.enclosed]

/-- Bodies that mirror each other wherever statements can stand. -/
structure MirrorsBodies (k : Nat) (body body' : BodyParser) : Prop where
  mirrors : ∀ {c : Context} {word : Option Kind}, c.Standalone → Context.Closing word →
    Mirrors k true 0 (Prod.map (List.map (·.shift k)) Stop.enclosed)
      (body c { terminator := word }) (body' c.enclosed { terminator := word })
  stops : ∀ {c : Context} {region : Region} {s ns stop t}, (body c region).run s =
    ((ns, stop), t) → Stops c region.terminator t stop

section

variable {body body' : BodyParser} (hbody : MirrorsBodies k body body')
include hbody

theorem MirrorsBodies.stops_branch {keyword : Keyword} {kind : NodeKind}
    (h : (branch body c keyword kind o).run s = ((n, stop), t)) :
    Stops c (some (.keyword keyword)) t stop := by
  obtain ⟨header, u, -, h⟩ := run_of_bind h
  obtain ⟨⟨ns, stop'⟩, v, hrun, h⟩ := run_of_bind h
  obtain ⟨n', w, hclose, h⟩ := run_of_bind h
  obtain ⟨hresult, rfl⟩ := Prod.mk.inj h
  obtain rfl : v = w := (Prod.mk.inj hclose).2
  obtain rfl : stop' = stop := (Prod.mk.inj hresult).2
  exact hbody.stops hrun

theorem MirrorsBodies.ahead_secondBranch (hc : c.Standalone)
    {kind : NodeKind} {keyword word : Keyword}
    {first : List Node × Stop} (hfirst : first.2.ahead < s.left)
    (h : (secondBranch body c keyword word kind first).run s = ((ns, stop), t))
    (hmirrored : Mirrored k true t u) : stop.ahead < t.left := by
  unfold secondBranch at h
  split at h
  · obtain ⟨errors, s₁, -, h⟩ := run_of_bind h
    obtain ⟨token, s₂, -, h⟩ := run_of_bind h
    obtain ⟨⟨n, stop'⟩, s₃, hbranch, h⟩ := run_of_bind h
    obtain ⟨hresult, rfl⟩ := Prod.mk.inj h
    obtain rfl : stop' = stop := (Prod.mk.inj hresult).2
    exact (hbody.stops_branch hbranch).ahead_lt hc.notMem_stops.1 nofun hmirrored
  · obtain ⟨rfl, rfl⟩ := Prod.mk.inj h
    exact hfirst

theorem MirrorsBodies.stops_cursorLoop {cursor : String} {keyword : Keyword}
    (h : (insideCursorLoop cursor (statementsUpTo body c keyword)).run s = (((ns, stop), cs), t)) :
    Stops c (some (.keyword keyword)) t stop := by
  obtain ⟨_, u, -, h⟩ := run_of_bind h
  obtain ⟨⟨ns', stop'⟩, v, hrun, h⟩ := run_of_bind h
  obtain ⟨hresult, rfl⟩ := Prod.mk.inj h
  obtain rfl : stop' = stop := congrArg (·.1.2) hresult
  exact (hbody.stops hrun).congr rfl rfl

variable [∀ c region, (body c region).Flows]

/-- Behind a body, why it has stopped tells what comes next. -/
theorem MirrorsBodies.behind {c : Context} {word : Option Kind} (hc : c.Standalone)
    (hword : Context.Closing word) {f : List Node × Stop → Parser α}
    {g : List Node × Stop → Parser β}
    (hf : ∀ ns stop, Mirrors k true stop.ahead τ (f (ns, stop))
      (g (ns.map (·.shift k), stop.enclosed)))
    [∀ a, (f a).Flows] [∀ c, (g c).Flows] :
    Mirrors k true 0 τ (body c { terminator := word } >>= f)
      (body' c.enclosed { terminator := word } >>= g) :=
  .bindAhead (fun r => r.2.ahead) (hbody.mirrors hc hword)
    (fun _ hmirrored hrun => (hbody.stops hrun).ahead_lt hc.notMem_stops.1 hword.1 hmirrored)
    fun r => hf r.1 r.2

section

variable [∀ c region, (body' c region).Flows] {c : Context} (hc : c.Standalone) {o o' : Opening}
    (ho : o.Moved k o')
include hc ho

theorem mirrors_simpleBlock (kind : NodeKind) {keyword : Keyword} (hword : keyword ≠ .FUNCTION) :
    Mirrors k true 0 (·.shift k) (simpleBlock body c o keyword kind)
      (simpleBlock body' c.enclosed o' keyword (kind.shift k)) :=
  .bind (mirrors_headerStop ho) fun header => hbody.behind hc (Context.closing_keyword hword)
    fun ns stop => .past (mirrors_closeBlock keyword stop) fun _ =>
      mirrors_closeNode ho header kind ns

theorem mirrors_branch (kind : NodeKind) {keyword : Keyword} (hword : keyword ≠ .FUNCTION) :
    Mirrors k true 0 (Prod.map (·.shift k) Stop.enclosed) (branch body c keyword kind o)
      (branch body' c.enclosed keyword (kind.shift k) o') :=
  .bind (mirrors_headerStop ho) fun header =>
    .bind (hbody.mirrors hc (Context.closing_keyword hword))
    fun r => .bind (mirrors_closeNode ho header kind r.1) fun _ => .pure rfl

omit ho in
theorem mirrors_secondBranch (kind : NodeKind) {keyword word : Keyword}
    (hword : keyword ≠ .FUNCTION)
    (first : List Node × Stop) :
    Mirrors k true first.2.ahead (Prod.map (List.map (·.shift k)) Stop.enclosed)
      (secondBranch body c keyword word kind first)
      (secondBranch body' c.enclosed keyword word (kind.shift k)
        (first.1.map (·.shift k), first.2.enclosed)) := by
  obtain ⟨ns, stop⟩ := first
  unfold secondBranch
  by_cases hopens : stop = .stopToken (.keyword word)
  · rw [if_pos hopens, if_pos (Stop.enclosed_eq_stopToken.mpr hopens)]
    subst hopens
    refine .errorCount (.next fun t u hmoved =>
      .bind (mirrors_branch hbody hc ⟨hmoved, rfl, rfl⟩ kind hword)
      fun r => .pure ?_)
    rw [Node.insert_shift]
    rfl
  · rw [if_neg hopens, if_neg fun h => hopens (Stop.enclosed_eq_stopToken.mp h)]
    exact .pure rfl

theorem mirrors_branchedBlock (kind branchKind : NodeKind) {keyword word : Keyword}
    (hword : keyword ≠ .FUNCTION)
    (hstop : [.keyword word] ⊆ Context.stopWords.map Kind.keyword) :
    Mirrors k true 0 (·.shift k) (branchedBlock body c o keyword word kind branchKind)
      (branchedBlock body' c.enclosed o' keyword word (kind.shift k) (branchKind.shift k)) := by
  have hinner := hc.withEnd keyword
  refine .bind (mirrors_headerStop ho) fun header => hbody.behind (hinner.withStops hstop)
    (Context.closing_keyword hword) fun ns stop => ?_
  refine .bindAhead (fun r => r.2.ahead)
    (mirrors_secondBranch hbody hinner branchKind hword (ns, stop))
    (fun hleft hmirrored hrun => hbody.ahead_secondBranch hinner hleft hrun hmirrored) fun r => ?_
  exact .past (mirrors_closeBlock keyword r.2) fun _ => mirrors_closeNode ho header kind r.1

section

variable (levels : Nat)

theorem mirrors_ifStatement :
    Mirrors k true 0 (·.shift k) (ifStatement (levels + 1) body c o)
      (ifStatement levels body' c.enclosed o') :=
  .bind (mirrors_expectExpression levels) fun condition => .expect (by decide)
    (mirrors_branchedBlock hbody hc ho (.ifThen (some condition)) .elseClause
      (by decide) (by decide))

theorem mirrors_tryStatement :
    Mirrors k true 0 (·.shift k) (tryStatement body c o) (tryStatement body' c.enclosed o') :=
  mirrors_branchedBlock hbody hc ho .tryBlock .catchClause (by decide) (by decide)

theorem mirrors_whileStatement :
    Mirrors k true 0 (·.shift k) (whileStatement (levels + 1) body c o)
      (whileStatement levels body' c.enclosed o') :=
  .bind (mirrors_expectExpression levels) fun condition =>
    mirrors_simpleBlock hbody (hc.insideLoop .WHILE) ho (.whileLoop (some condition)) (by decide)

theorem mirrors_forStatement :
    Mirrors k true 0 (·.shift k) (forStatement (levels + 1) body c o)
      (forStatement levels body' c.enclosed o') := by
  have hbounds (counter : Option Designator) : Mirrors k true 0 (Node.shift k)
      (do let first ← expressionBehind (levels + 1) (expect (.mark .equal))
          let last ← expressionBehind (levels + 1) (expect (.keyword .TO))
          let step ← expressionBehind (levels + 1) (optional (.keyword .STEP))
          simpleBlock body (c.insideLoop .FOR) o .FOR (.forLoop counter first last step))
      (do let first ← expressionBehind levels (expect (.mark .equal))
          let last ← expressionBehind levels (expect (.keyword .TO))
          let step ← expressionBehind levels (optional (.keyword .STEP))
          simpleBlock body' (c.enclosed.insideLoop .FOR) o' .FOR
            (.forLoop (counter.map (·.shift k)) first last step)) :=
    .bind (mirrors_expressionBehind levels (mirrors_expect (by decide))) fun first =>
      .bind (mirrors_expressionBehind levels (mirrors_expect (by decide))) fun last =>
        .bind (mirrors_expressionBehind levels (mirrors_optional (by decide))) fun step =>
          mirrors_simpleBlock hbody (hc.insideLoop .FOR) ho (.forLoop counter first last step)
            (by decide)
  refine .bind (mirrors_designator? levels) fun counter => ?_
  cases counter with
  | some counter => exact hbounds (some counter)
  | none => exact .reportNext rfl

/-! ## Loops over cursors -/

omit hc hbody ho in
theorem mirrors_insideCursorLoop {p : Parser α} {q : Parser β} [p.Flows] [q.Flows]
    (cursor : String) (h : Mirrors k b 0 σ p q) :
    Mirrors k b 0 (Prod.map σ (List.map (·.shift k))) (insideCursorLoop cursor p)
      (insideCursorLoop cursor q) := by
  refine .past (mirrors_modifyNames fun n m hnames => ⟨hnames.block_eq, ?_⟩) fun _ =>
      .bind h fun a =>
    .getNames fun n m hnames => .past (mirrors_setNames ⟨hnames.block_eq, ?_⟩) fun _ => .pure ?_
  · rw [hnames.loops_eq]
    rfl
  · dsimp only
    rw [hnames.loops_eq, List.map_tail]
  · rw [hnames.loops_eq]
    cases n.loops <;> rfl

omit hc hbody ho in
theorem mirrors_reportRedeclared (cs : List Cursor) :
    Mirrors k b n id (reportRedeclared cs) (reportRedeclared (cs.map (·.shift k))) := by
  induction cs with
  | nil => exact .pure rfl
  | cons c cs ih => exact .still (mirrors_report nofun) (fun _ => rfl) fun _ => ih

omit hc hbody ho in
theorem left_reportRedeclared (cs : List Cursor) (s : ParseState) :
    ((reportRedeclared cs).run s).2.left = s.left := by
  induction cs generalizing s with
  | nil => rfl
  | cons c cs ih => exact ih _

theorem mirrors_cursorLoop (cursor : String) (kind : List Cursor → NodeKind)
    {kind' : List Cursor → NodeKind}
    (hkind : ∀ cs, kind' (cs.map (·.shift k)) = (kind cs).shift k) :
    Mirrors k true 0 (·.shift k) (cursorLoop body c o cursor kind)
      (cursorLoop body' c.enclosed o' cursor kind') := by
  have hinner := hc.insideLoop .FOREACH
  have hword : Keyword.FOREACH ≠ .FUNCTION := by decide
  refine .bind (mirrors_headerStop ho) fun header => .bindAhead (fun r => r.1.2.ahead)
    (mirrors_insideCursorLoop cursor (hbody.mirrors hinner (Context.closing_keyword hword)))
    (fun _ hmirrored hrun =>
      (hbody.stops_cursorLoop hrun).ahead_lt hinner.notMem_stops.1 nofun hmirrored) fun r => ?_
  refine .still (mirrors_reportRedeclared r.2) (left_reportRedeclared r.2) fun _ =>
    .past (mirrors_closeBlock .FOREACH r.1.2) fun _ => ?_
  rw [show kind' _ = _ from hkind r.2]
  exact mirrors_closeNode ho header (kind r.2) r.1.1

theorem mirrors_foreachStatement :
    Mirrors k true 0 (·.shift k) (foreachStatement (levels + 1) body c o)
      (foreachStatement levels body' c.enclosed o') := by
  refine .past mirrors_expectNameText fun cursor =>
    .bind (mirrors_listBehind levels (by decide)) fun arguments =>
      .bind (mirrors_designatorsBehind levels (by decide)) fun into => ?_
  have hloop (reoptimization : Bool) := mirrors_cursorLoop hbody hc ho (cursor.getD "")
    (.foreachLoop cursor arguments into reoptimization) fun _ => rfl
  exact .ifNextAre (by decide) (by decide) (.next fun _ _ _ => .next fun _ _ _ => hloop true)
    (hloop false)

/-! ## Clauses -/

end

theorem mirrors_clauseBody (kind : NodeKind) :
    Mirrors k true 0 (·.shift k) (clauseBody body c o kind)
      (clauseBody body' c.enclosed o' (kind.shift k)) :=
  .bind (mirrors_headerStop ho) fun header => .bind (hbody.mirrors hc Context.closing_none) fun r =>
    mirrors_closeNode ho header kind r.1

theorem mirrors_caseClause (levels : Nat) (before : List Node) :
    Mirrors k true 0 (·.shift k) (caseClause (levels + 1) body c before o)
      (caseClause levels body' c.enclosed (before.map (·.shift k)) o') := by
  unfold caseClause
  rw [ho.token.kind_eq]
  refine .ite (.bind (mirrors_expressionList levels) fun conditions =>
    mirrors_clauseBody hbody hc ho (.whenClause conditions)) ?_
  have hany : (before.map (·.shift k)).any isOtherwise = before.any isOtherwise := by
    rw [List.any_map]
    exact congrArg before.any (funext isOtherwise_shift)
  rw [hany]
  exact .ite (.report rfl) (mirrors_clauseBody hbody hc ho .otherwiseClause)

omit hbody hc ho in
theorem opens_caseClause :
    Opens startsCaseClause (fun first _ => caseWords.contains first) fun _ => 0 where
  peeks := peeks_startsCaseClause
  run_eq _ := rfl
  not_end _ := ⟨by decide, by decide⟩
  second_end _ := rfl
  ahead _ := .inl rfl

theorem mirrors_caseStatement (levels : Nat) :
    Mirrors k true 0 (·.shift k) (caseStatement (levels + 1) body c o)
      (caseStatement levels body' c.enclosed o') := by
  have hinner := hc.withEnd .CASE
  have hclauses : Mirrors k true 0 (Prod.map (List.map (·.shift k)) Stop.enclosed)
      (clauses (c.withEnd (.keyword .CASE)) (.keyword .CASE) startsCaseClause
        (caseClause (levels + 1) body ((c.insideLoop .CASE).withStops caseWords)))
      (clauses (c.enclosed.withEnd (.keyword .CASE)) (.keyword .CASE) startsCaseClause
        (caseClause levels body' ((c.enclosed.insideLoop .CASE).withStops caseWords))) :=
    mirrors_clauses opens_caseClause hinner
      (Context.closing_keyword (by decide)) fun before _ _ ho =>
      mirrors_caseClause hbody ((hc.insideLoop .CASE).withStops (by decide)) ho levels before
  refine .bind (mirrors_expression? levels) fun subject =>
      .bind (mirrors_headerStop ho) fun header =>
    .bindAhead (fun r => r.2.ahead) hclauses (fun _ hmirrored hrun => ?_) fun r =>
      .past (mirrors_closeBlock .CASE r.2) fun _ =>
        mirrors_closeNode ho header (.caseOf subject) r.1
  exact (stops_clauses peeks_startsCaseClause hrun).ahead_lt hinner.notMem_stops.1 nofun hmirrored

/-! ## Menus -/

omit hbody hc ho in
theorem mirrors_menuKeys : Mirrors k true 0 id menuKeys menuKeys := by
  have hkey : Mirrors k true 0 id menuKey menuKey := by
    unfold menuKey
    refine .peek (fun t u hmoved _ _ => ?_) fun t u hkind _ _ => ?_
    · rw [hmoved.kind_eq]
      exact .ite (.next fun t u hmoved => .pure (congrArg some hmoved.value_eq.symm))
        (.reportNext rfl)
    · -- A key is missing at the end of the text, where there is an END in the larger text.
      rw [hkind]
      exact .reportNext rfl
  refine .past (.past (mirrors_optional (by decide)) fun _ =>
    .ite (mirrors_expect (by decide)) (.pure rfl))
    fun _ => .ite (.past (mirrors_commaListOf hkey) fun _ => ?_) (.pure rfl)
  exact .past (mirrors_expect (by decide)) fun _ => .pure rfl

omit hbody hc ho in
theorem mirrors_commandClause (levels : Nat) :
    Mirrors k true 0 (·.shift k) (commandClause (levels + 1)) (commandClause levels) := by
  refine .past mirrors_menuKeys fun keys => .bind (mirrors_expression? levels) fun name => ?_
  cases name with
  | none => exact .pure rfl
  | some name => exact .bind (mirrors_expressionOnLine? levels) fun help => .pure rfl

/-- How many tokens are sure to come behind the first word of a clause of a menu. -/
def menuClauseAhead (first : Kind) : Nat := if first = .keyword .COMMAND then 0 else 1

omit hbody hc ho in
theorem mirrors_menuClauseHeader (levels : Nat) (first : Kind) :
    Mirrors k true (menuClauseAhead first) (·.shift k) (menuClauseHeader (levels + 1) first)
      (menuClauseHeader levels first) := by
  unfold menuClauseHeader menuClauseAhead
  split
  · exact mirrors_commandClause levels
  · refine .next (F := fun t => ?_) fun t u hmoved => ?_
    · rw [hmoved.kind_eq]
      split
      · exact .past mirrors_expectNameText fun _ => .pure rfl
      · exact .bind (mirrors_expectExpression levels) fun _ => .pure rfl
      · exact .pure rfl
    · split <;> infer_instance

/-- Whether a clause of a menu starts with the two words. -/
def opensMenuClause (first second : Kind) : Bool :=
  match first with
  | .keyword .BEFORE => second == .keyword .MENU
  | .keyword .COMMAND => true
  | .keyword .ON => second == .keyword .ACTION || second == .keyword .IDLE
  | _ => false

omit hbody hc ho in
theorem opens_menuClause : Opens startsMenuClause opensMenuClause menuClauseAhead where
  peeks := peeks_startsMenuClause
  run_eq s := by
    unfold startsMenuClause opensMenuClause
    rw [run_bind, show (peekKind.run s).1 = s.kindAt 1 from rfl]
    generalize s.kindAt 1 = first
    cases first with
    | keyword word => cases word <;> rfl
    | _ => rfl
  not_end _ := ⟨rfl, rfl⟩
  second_end first := by
    unfold opensMenuClause
    split <;> rfl
  ahead first := by
    unfold menuClauseAhead opensMenuClause
    split
    next => exact .inl rfl
    next hne =>
      refine .inr ⟨rfl, ?_⟩
      split
      · rfl
      · exact absurd rfl hne
      · rfl
      · rfl

theorem mirrors_menuClause (levels : Nat) :
    Mirrors k true (menuClauseAhead o.token.kind) (·.shift k) (menuClause (levels + 1) body c o)
      (menuClause levels body' c.enclosed o') := by
  unfold menuClause
  rw [ho.token.kind_eq]
  exact .bind (mirrors_menuClauseHeader levels _) fun clause =>
    mirrors_clauseBody hbody hc ho (.menuOption clause)

theorem mirrors_menuBlock (levels : Nat) (title : Option Expression) :
    Mirrors k true 0 (·.shift k) (menuBlock (levels + 1) body c o title)
      (menuBlock levels body' c.enclosed o' (title.map (·.shift k))) := by
  have hinner := hc.withEnd .MENU
  have hclauses : Mirrors k true 0 (Prod.map (List.map (·.shift k)) Stop.enclosed)
      (clauses (c.withEnd (.keyword .MENU)) (.keyword .MENU) startsMenuClause
        fun _ o => menuClause (levels + 1) body c.insideMenu o)
      (clauses (c.enclosed.withEnd (.keyword .MENU)) (.keyword .MENU) startsMenuClause
        fun _ o => menuClause levels body' c.enclosed.insideMenu o) :=
    mirrors_clauses opens_menuClause hinner (Context.closing_keyword (by decide)) fun _ _ _ ho =>
      mirrors_menuClause hbody hc.insideMenu ho levels
  refine .bind (mirrors_headerStop ho) fun header => .bindAhead (fun r => r.2.ahead) hclauses
    (fun _ hmirrored hrun =>
      (stops_clauses peeks_startsMenuClause hrun).ahead_lt hinner.notMem_stops.1 nofun
        hmirrored) fun r => ?_
  have hany : (r.1.map (·.shift k)).any isSelectable = r.1.any isSelectable := by
    rw [List.any_map]
    exact congrArg r.1.any (funext isSelectable_shift)
  have hclose : Mirrors k true r.2.ahead (Node.shift k)
      (do closeBlock o header .MENU r.2; closeNode o header (.menu title) r.1)
      (do closeBlock o' (header + k) .MENU r.2.enclosed
          closeNode o' (header + k) (.menu (title.map (·.shift k))) (r.1.map (·.shift k))) :=
    .past (mirrors_closeBlock .MENU r.2) fun _ => mirrors_closeNode ho header (.menu title) r.1
  dsimp only [Prod.map]
  rw [hany]
  exact .ite hclose (.still (mirrors_report nofun) (fun _ => rfl) fun _ => hclose)

theorem mirrors_menuStatement (levels : Nat) :
    Mirrors k true 0 (·.shift k) (menuStatement (levels + 1) body c o)
      (menuStatement levels body' c.enclosed o') := by
  have hblock := mirrors_menuBlock hbody hc ho levels
  have htitle : Mirrors k true 0 (·.shift k)
      (expression? (levels + 1) >>= menuBlock (levels + 1) body c o)
      (expression? levels >>= menuBlock levels body' c.enclosed o') :=
    .bind (mirrors_expression? levels) hblock
  exact .peekKind (fun first _ => .ite ((hblock none).mono (Nat.zero_le 1))
    (htitle.mono (Nat.zero_le 1))) htitle

end

end

/-! ## All forms -/

/-- Every form of statement mirrors itself, if the bodies inside it do. -/
theorem mirrors_formWith {body body' : BodyParser} (hbody : MirrorsBodies k body body')
    [∀ c region, (body c region).Flows] [∀ c region, (body' c region).Flows] {c : Context}
    (hc : c.Standalone) (levels : Nat) (hstarts : StartsWith f word) (ho : o.Moved k o') :
    Mirrors k true (formAhead f) (·.shift k) (formWith (levels + 1) body f word c o)
      (formWith levels body' f word c.enclosed o') := by
  have hword : word ≠ .PUBLIC ∧ word ≠ .PRIVATE :=
    ⟨hstarts.notMem.2.1, hstarts.notMem.2.2.1⟩
  cases f with
  | vars => exact mirrors_variablesStatement hc ho hword
  | constants => exact mirrors_constantsStatement hc ho hword levels
  | types => exact mirrors_typesStatement hc ho hword
  | assignment => exact mirrors_assignmentStatement levels ho
  | call => exact mirrors_callStatement levels ho
  | returnValues => exact mirrors_returnStatement levels ho hc
  | output => exact mirrors_outputStatement levels ho word
  | sleep => exact mirrors_sleepStatement levels ho
  | setNull => exact mirrors_setNullStatement levels ho
  | exit => exact mirrors_exitStatement levels ho
  | continueLoop => exact mirrors_continueStatement ho
  | prepare => exact mirrors_prepareStatement levels ho hc
  | declare => exact mirrors_declareStatement levels ho hc
  | cursor => exact mirrors_cursorStatement levels ho word
  | whenever => exact mirrors_wheneverStatement ho
  | run => exact mirrors_runStatement levels ho
  | ifThen => exact mirrors_ifStatement hbody hc ho levels
  | whileLoop => exact mirrors_whileStatement hbody hc ho levels
  | forLoop => exact mirrors_forStatement hbody hc ho levels
  | foreachLoop => exact mirrors_foreachStatement hbody hc ho levels
  | caseOf => exact mirrors_caseStatement hbody hc ho levels
  | tryBlock => exact mirrors_tryStatement hbody hc ho
  | menu => exact mirrors_menuStatement hbody hc ho levels
  | menuControl => exact mirrors_menuControlStatement levels ho word
  | importModule | database | globals | main | function =>
    exact absurd hstarts.form_notMem (by decide)

/-- Bodies mirror each other, however deep they nest; in the larger text they have one level
less. -/
theorem mirrors_bodyAt (levels : Nat) {c : Context} (hc : c.Standalone) {word word' : Option Kind}
    {ψ : Stop → Stop} (hstops : ∀ {s u stop}, Mirrored k b s u → Stops c word s stop →
      Stops c.enclosed word' u (ψ stop)) :
    Mirrors k b 0 (Prod.map (List.map (·.shift k)) ψ)
      (bodyAt (levels + 1) c { terminator := word })
      (bodyAt levels c.enclosed { terminator := word' }) := by
  induction levels generalizing b c word word' ψ with
  | zero =>
    refine mirrors_bodyWith hc rfl rfl rfl ?_ (fun _ h => by cases h) hstops
      (fun _ _ _ h => by cases h)
    rintro _ ⟨⟩ f word c o
    infer_instance
  | succ levels ih =>
    have hbody : MirrorsBodies k (bodyAt (levels + 1)) (bodyAt levels) :=
      { mirrors := fun hc hword => ih hc fun hmirrored hstop => hstop.enclosed hc hword hmirrored
        stops := fun {c region s ns stop t} hrun => by
          have haccount := accountsBodies (levels + 1) c region s
          rw [hrun] at haccount
          exact haccount.stops_body }
    refine mirrors_bodyWith hc rfl rfl rfl ?_ ?_ hstops ?_
    · rintro _ ⟨⟩ f word c o
      infer_instance
    · rintro _ ⟨⟩ f word c o
      infer_instance
    · rintro _ ⟨⟩ _ ⟨⟩ f word hstarts o o' ho
      exact mirrors_formWith hbody hc levels hstarts ho

end Parser

end FourGL
