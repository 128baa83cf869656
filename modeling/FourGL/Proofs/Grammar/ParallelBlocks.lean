import FourGL.Proofs.Grammar.Parallel

/-!
# Blocks side by side

Blocks that are read from like states give like nodes, if the bodies in them do; so, level by level,
all forms of statements agree, and with them whole modules.
-/

namespace FourGL

open FourGL.Parser FourGL.ParseState

variable {L : Likeness}

namespace Parser

/-! ## Blocks -/

theorem AgreeFrom.weaken {p : Parser α} {q : Parser β} (h : AgreeFrom L 0 0 V p q) :
    AgreeFrom L x y V p q :=
  fun s t hst hs ht _ _ => h s t hst hs ht (Nat.zero_le _) (Nat.zero_le _)

/-- Names stay alike where the loops around a place change alike. -/
theorem like_withLoops (h : Names.Like L n m) (hsame : L.Same ls ks)
    (hloops : List.Forall₂ (LoopCursor.Like L) ls ks) :
    Names.Like L { n with loops := ls } { m with loops := ks } where
  same := h.same.map₂ hsame fun (n : Names) ls => { n with loops := ls }
  scope o := by have := h.scope o; cases o <;> exact this
  loops := hloops
  globals := h.globals
  hasMain_eq := h.hasMain_eq

theorem agree_insideCursorLoop {p q : Parser α} [p.Flows] [q.Flows] (hcursor : L.text x y)
    (h : AgreeFrom L i j V p q) :
    AgreeFrom L i j (fun x y => V x.1 y.1 ∧ List.Forall₂ (Cursor.Like L) x.2 y.2)
      (insideCursorLoop x p) (insideCursorLoop y q) := by
  have henter (n m : Names) (hnm : n.Like L m) :
      Names.Like L { n with loops := { name := x } :: n.loops }
        { m with loops := { name := y } :: m.loops } :=
    like_withLoops hnm ((L.same_of_text hcursor).map₂ (hnm.same.map Names.loops)
      fun x loops => { name := x } :: loops) (.cons ⟨hcursor, .nil⟩ hnm.loops)
  refine (agree_modifyNames henter).thence fun _ _ _ => h.bind fun _ _ hV => agree_getNames.thence
    fun n m hnm => ?_
  have hleave := like_withLoops hnm (hnm.same.map (·.loops.tail)) (by
    rw [← List.drop_one, ← List.drop_one]
    exact List.forall₂_drop 1 hnm.loops)
  refine (agree_setNames hleave).thence fun _ _ _ => Agree.from (.pure ⟨hV, ?_⟩)
  have hloops := hnm.loops
  generalize n.loops = ls at *
  generalize m.loops = ks at *
  cases hloops with
  | nil => exact .nil
  | cons h _ => exact h.redeclared

theorem agree_reportRedeclared (h : List.Forall₂ (Cursor.Like L) cs ds) :
    Agree L Eq (reportRedeclared cs) (reportRedeclared ds) := by
  induction h with
  | nil => exact .pure rfl
  | cons hc _ ih =>
    exact (agree_report _ (hc.same.map fun c => [c.name])
      (hc.same.map (·.span)) hc.named.start).bind fun _ _ _ => ih

instance : Steady L startsCaseClause := by unfold startsCaseClause; infer_instance

instance : Steady L startsMenuClause := by
  unfold startsMenuClause
  refine ⟨.past fun kind => ?_⟩
  split
  · exact Steady.agree
  · exact .pure rfl
  · exact (agree_peekAt 2).bind fun t u h => .pure (by rw [h.kind_eq])
  · exact .pure rfl

theorem agree_menuKeys : Agree L L.Same menuKeys menuKeys := by
  have hkey : Agree L (Option.Rel L.Same) menuKey menuKey := by
    refine agree_peek.bind fun t u h => ?_
    rw [h.kind_eq]
    exact .ite (agree_next.bind fun _ _ h => .pure (.some (h.same.map Token.value)))
      (.past fun _ => .pure .none)
  exact .past fun _ => .ite ((agree_commaList hkey).bind fun _ _ h => .past fun _ =>
    .pure (same_list h)) (.pure .rfl)

/-- Clauses that the same words open. -/
def ClauseLike (L : Likeness) (c d : MenuClause) : Prop :=
  L.Same c d ∧ NodeKind.clauseOutline c = NodeKind.clauseOutline d

theorem agree_commandClause (levels : Nat) :
    Agree L (ClauseLike L) (commandClause levels) (commandClause levels) := by
  refine agree_menuKeys.bind fun keys keys' hkeys => (agree_expression? levels).bind
    fun name name' hname => ?_
  have hhelp {x y : Option Expression} (h : L.Same x y) :
      Agree L (ClauseLike L) (pure (.command keys name x)) (pure (.command keys' name' y)) :=
    .pure ⟨fun hexact => by rw [hkeys hexact, same_expression? hname hexact, h hexact], rfl⟩
  rw [isSome_eq_of_rel hname]
  exact .ite ((agree_expressionOnLine? levels).bind fun _ _ h => hhelp h) (hhelp .rfl)

theorem agree_menuClauseHeader (levels : Nat) (first : Kind) :
    Agree L (ClauseLike L) (menuClauseHeader levels first) (menuClauseHeader levels first) := by
  refine .ite (agree_commandClause levels) (agree_next.bind fun t u h => ?_)
  rw [h.kind_eq]
  split
  · exact agree_expectNameText.bind fun _ _ hname =>
      .pure ⟨(same_words hname).map fun name => MenuClause.action (name.getD ""), rfl⟩
  · exact (agree_expectExpression levels).bind fun _ _ h =>
      .pure ⟨h.same.map fun e => MenuClause.idle (some e), rfl⟩
  · exact .pure ⟨.rfl, rfl⟩

section

variable {body : BodyParser}
  (hbody : ∀ ctx region, AgreeFrom L 0 0 (ContentLike L) (body ctx region) (body ctx region))
include hbody

theorem agree_statementsUpTo (ctx : Context) (k : Keyword) :
    AgreeFrom L x y (ContentLike L) (statementsUpTo body ctx k) (statementsUpTo body ctx k) :=
  (hbody ctx _).weaken

variable [∀ ctx region, (body ctx region).Flows]

section

variable (levels : Nat) (ctx : Context) (ho : Counterparts L o o')
include ho

theorem agree_simpleBlock (k : Keyword) (hsame : L.Same kind kind')
    (houtline : kind.outline = kind'.outline) :
    AgreeNodes L o o' (simpleBlock body ctx o k kind) (simpleBlock body ctx o' k kind') := by
  refine .header ho fun h h' hh => (agree_statementsUpTo hbody ctx k).bind fun x y hxy => ?_
  obtain ⟨children, stop⟩ := x
  obtain ⟨children', stop'⟩ := y
  obtain ⟨hchildren, rfl : stop = stop'⟩ := hxy
  exact (agree_closeBlock ho hh k stop).thence fun _ _ _ =>
    agree_closeNode ho hh hsame houtline hchildren

theorem agree_branch (k : Keyword) (kind : NodeKind) :
    AgreeFrom L o.token.stop o'.token.stop (fun x y => Node.Like L x.1 y.1 ∧ x.2 = y.2)
      (branch body ctx k kind o) (branch body ctx k kind o') := by
  refine .header ho fun h h' hh => (agree_statementsUpTo hbody ctx k).bind fun x y hxy => ?_
  obtain ⟨children, stop⟩ := x
  obtain ⟨children', stop'⟩ := y
  obtain ⟨hchildren, rfl : stop = stop'⟩ := hxy
  exact (agree_closeNode ho hh .rfl rfl hchildren).bind fun _ _ hn =>
    Agree.from (.pure ⟨hn, rfl⟩)

end

/-- A second branch opens at the word at which the first one stopped. -/
theorem agree_branches (hstops : ∀ ctx region s ns k t,
      (body ctx region).run s = ((ns, .stopToken k), t) → t.kindAt 1 = k)
    (ctx inner : Context) (k word : Keyword) (kind : NodeKind) :
    AgreeFrom L x y (ContentLike L)
      (statementsUpTo body inner k >>= secondBranch body ctx k word kind)
      (statementsUpTo body inner k >>= secondBranch body ctx k word kind) := by
  intro s t hst hs ht hx hy
  obtain ⟨hfirst, hlike⟩ := agree_statementsUpTo hbody inner k s t hst hs ht hx hy
  have hu := ((Flows.flows (p := statementsUpTo body inner k) inferInstance s).later.onward hs).1
  have hv := ((Flows.flows (p := statementsUpTo body inner k) inferInstance t).later.onward ht).1
  rw [run_bind, run_bind]
  generalize hrun : (statementsUpTo body inner k).run s = r at *
  generalize hrun' : (statementsUpTo body inner k).run t = r' at *
  obtain ⟨⟨children, stop⟩, u⟩ := r
  obtain ⟨⟨children', stop'⟩, v⟩ := r'
  obtain ⟨hchildren, rfl : stop = stop'⟩ := hfirst
  unfold secondBranch
  split
  next hstop =>
    obtain rfl : stop = .stopToken (.keyword word) := hstop
    have hkind : u.kindAt 1 ≠ .endOfFile := by
      rw [hstops _ _ _ _ _ _ hrun]
      exact Kind.noConfusion
    have hkind' : v.kindAt 1 ≠ .endOfFile := by
      rw [hstops _ _ _ _ _ _ hrun']
      exact Kind.noConfusion
    have ho : Counterparts L ⟨u.read.input.last, u.errorCount⟩
        ⟨v.read.input.last, v.errorCount⟩ :=
      ⟨hlike.last_read, hlike.errorCount_eq, (hu.read_token hkind).2, (hv.read_token hkind').2⟩
    obtain ⟨⟨hn, hstop⟩, hlike'⟩ :=
      agree_branch hbody ctx ho k kind _ _ hlike.read hu.read.1
      hv.read.1 (Nat.le_refl _) (Nat.le_refl _)
    exact ⟨⟨hn.insert hchildren, hstop⟩, hlike'⟩
  next => exact ⟨⟨hchildren, rfl⟩, hlike⟩

section

variable (levels : Nat) (word : Keyword) (ctx : Context) (ho : Counterparts L o o')
include ho

theorem agree_branchedBlock (hstops : ∀ ctx region s ns k t,
      (body ctx region).run s = ((ns, .stopToken k), t) → t.kindAt 1 = k)
    (k : Keyword) (hsame : L.Same kind kind') (houtline : kind.outline = kind'.outline)
    (branchKind : NodeKind) :
    AgreeNodes L o o' (branchedBlock body ctx o k word kind branchKind)
      (branchedBlock body ctx o' k word kind' branchKind) := by
  refine .header ho fun h h' hh => .assoc ((agree_branches hbody hstops _ _ k word branchKind).bind
    fun x y hxy => ?_)
  obtain ⟨children, stop⟩ := x
  obtain ⟨children', stop'⟩ := y
  obtain ⟨hchildren, rfl : stop = stop'⟩ := hxy
  exact (agree_closeBlock ho hh k stop).thence fun _ _ _ =>
    agree_closeNode ho hh hsame houtline hchildren

theorem agree_ifStatement (hstops : ∀ ctx region s ns k t,
      (body ctx region).run s = ((ns, .stopToken k), t) → t.kindAt 1 = k) :
    AgreeNodes L o o' (ifStatement levels body ctx o) (ifStatement levels body ctx o') :=
  (agree_expectExpression levels).thence fun _ _ h => .past fun _ =>
    agree_branchedBlock hbody _ _ ho
    hstops _ (h.same.map fun e => NodeKind.ifThen (some e)) rfl _

theorem agree_tryStatement (hstops : ∀ ctx region s ns k t,
      (body ctx region).run s = ((ns, .stopToken k), t) → t.kindAt 1 = k) :
    AgreeNodes L o o' (tryStatement body ctx o) (tryStatement body ctx o') :=
  agree_branchedBlock hbody _ _ ho hstops _ (.rfl (x := NodeKind.tryBlock)) rfl _

theorem agree_whileStatement :
    AgreeNodes L o o' (whileStatement levels body ctx o) (whileStatement levels body ctx o') :=
  (agree_expectExpression levels).thence fun _ _ h =>
    agree_simpleBlock hbody _ ho _ (h.same.map fun e => NodeKind.whileLoop (some e)) rfl

theorem agree_forStatement :
    AgreeNodes L o o' (forStatement levels body ctx o) (forStatement levels body ctx o') := by
  refine (agree_designator? levels).thence fun counter counter' hcounter => ?_
  have hbounds : AgreeNodes L o o'
      (do let first ← expressionBehind levels (expect (.mark .equal))
          let last ← expressionBehind levels (expect (.keyword .TO))
          let step ← expressionBehind levels (optional (.keyword .STEP))
          simpleBlock body (ctx.insideLoop .FOR) o .FOR (.forLoop counter first last step))
      (do let first ← expressionBehind levels (expect (.mark .equal))
          let last ← expressionBehind levels (expect (.keyword .TO))
          let step ← expressionBehind levels (optional (.keyword .STEP))
          simpleBlock body (ctx.insideLoop .FOR) o' .FOR (.forLoop counter' first last step)) :=
    (agree_expressionBehind levels).thence fun _ _ hfirst =>
      (agree_expressionBehind levels).thence fun _ _ hlast =>
        (agree_expressionBehind levels).thence fun _ _ hstep =>
          agree_simpleBlock hbody _ ho _ (fun hexact => by
            rw [same_option hcounter hexact, hfirst hexact, hlast hexact, hstep hexact]) rfl
  have hnone : counter.isNone = counter'.isNone := by cases hcounter <;> rfl
  dsimp only
  rw [hnone]
  exact .ite (.past fun _ => hbounds) hbounds

theorem agree_cursorLoop {kind kind' : List Cursor → NodeKind} (hcursor : L.text x y)
    (hsame : ∀ cs ds, L.Same cs ds → L.Same (kind cs) (kind' ds))
    (houtline : ∀ cs ds, (kind cs).outline = (kind' ds).outline) :
    AgreeNodes L o o' (cursorLoop body ctx o x kind) (cursorLoop body ctx o' y kind') := by
  refine .header ho fun h h' hh => (agree_insideCursorLoop hcursor
    (agree_statementsUpTo hbody (ctx.insideLoop .FOREACH) .FOREACH)).bind fun x y hxy => ?_
  obtain ⟨⟨children, stop⟩, redeclared⟩ := x
  obtain ⟨⟨children', stop'⟩, redeclared'⟩ := y
  obtain ⟨⟨hchildren, rfl : stop = stop'⟩, hredeclared⟩ := hxy
  exact (agree_reportRedeclared hredeclared).thence fun _ _ _ =>
    (agree_closeBlock ho hh .FOREACH stop).thence fun _ _ _ => agree_closeNode ho hh
      (hsame _ _ (Likeness.same_of_forall₂ (fun _ _ h => h.same) hredeclared))
        (houtline _ _) hchildren

theorem agree_foreachStatement :
    AgreeNodes L o o' (foreachStatement levels body ctx o)
      (foreachStatement levels body ctx o') := by
  refine agree_expectNameText.thence fun cursor cursor' hcursor =>
    (agree_listBehind levels _).thence fun arguments arguments' harguments =>
      (agree_designatorsBehind levels _).thence fun into into' hinto =>
        .past fun reoptimization => ?_
  have htext : L.text (cursor.getD "") (cursor'.getD "") := by
    cases hcursor with
    | none => exact L.text_refl _
    | some h => exact h
  have hloop : AgreeNodes L o o'
      (cursorLoop body ctx o (cursor.getD "")
        (.foreachLoop cursor arguments into reoptimization))
      (cursorLoop body ctx o' (cursor'.getD "")
        (.foreachLoop cursor' arguments' into' reoptimization)) :=
    agree_cursorLoop hbody ctx ho htext (fun cs ds h hexact => by
      rw [same_words hcursor hexact, harguments hexact, hinto hexact, h hexact]) fun _ _ => rfl
  exact .ite (.skip fun _ _ => .skip fun _ _ => hloop) hloop

theorem agree_clauseBody (hsame : L.Same kind kind') (houtline : kind.outline = kind'.outline) :
    AgreeNodes L o o' (clauseBody body ctx o kind) (clauseBody body ctx o' kind') := by
  refine .header ho fun h h' hh => (hbody ctx {}).weaken.bind fun x y hxy => ?_
  obtain ⟨children, stop⟩ := x
  obtain ⟨children', stop'⟩ := y
  exact agree_closeNode ho hh hsame houtline hxy.1

theorem agree_caseClause (hbefore : List.Forall₂ (Node.Like L) ms ns) :
    AgreeNodes L o o' (caseClause levels body ctx ms o) (caseClause levels body ctx ns o') := by
  have hotherwise := agree_clauseBody hbody ctx ho (.rfl (x := NodeKind.otherwiseClause)) rfl
  unfold caseClause
  rw [ho.token.kind_eq, any_eq_of_forall₂ hbefore fun _ _ h => h.isOtherwise_eq]
  refine .ite ?_ (.ite ?_ hotherwise)
  · exact (agree_expressionList levels).thence fun _ _ h =>
      agree_clauseBody hbody ctx ho ((same_expressions h).map NodeKind.whenClause) rfl
  · exact (agree_report _ .rfl ho.token.same_span ho.token.start).thence fun _ _ _ => hotherwise

theorem agree_caseStatement :
    AgreeNodes L o o' (caseStatement levels body ctx o) (caseStatement levels body ctx o') := by
  refine (agree_expression? levels).thence fun _ _ hsubject => .header ho fun h h' hh =>
    (agree_clauses peeks_startsCaseClause (fun _ _ => inferInstance) (fun _ _ hbefore _ _ ho =>
      agree_caseClause hbody levels _ ho hbefore) _ _).bind fun x y hxy => ?_
  obtain ⟨children, stop⟩ := x
  obtain ⟨children', stop'⟩ := y
  obtain ⟨hchildren, rfl : stop = stop'⟩ := hxy
  exact (agree_closeBlock ho hh .CASE stop).thence fun _ _ _ =>
    agree_closeNode ho hh ((same_expression? hsubject).map NodeKind.caseOf) rfl hchildren

theorem agree_menuClause :
    AgreeNodes L o o' (menuClause levels body ctx o) (menuClause levels body ctx o') := by
  unfold menuClause
  rw [ho.token.kind_eq]
  exact (agree_menuClauseHeader levels _).thence fun _ _ h =>
    agree_clauseBody hbody ctx ho (h.1.map NodeKind.menuOption) (congrArg NodeKind.menuOption h.2)

theorem agree_menuBlock (htitle : L.Same title title') :
    AgreeNodes L o o' (menuBlock levels body ctx o title)
      (menuBlock levels body ctx o' title') := by
  refine .header ho fun h h' hh => (agree_clauses peeks_startsMenuClause
    (fun _ _ => inferInstance) (fun _ _ _ _ _ ho => agree_menuClause hbody levels _ ho) _ _).bind
      fun x y hxy => ?_
  obtain ⟨children, stop⟩ := x
  obtain ⟨children', stop'⟩ := y
  obtain ⟨hchildren, rfl : stop = stop'⟩ := hxy
  have hclose := (agree_closeBlock ho hh .MENU stop).thence fun _ _ _ =>
    agree_closeNode ho hh (htitle.map NodeKind.menu) rfl hchildren
  have hany := any_eq_of_forall₂ hchildren fun _ _ h => h.isSelectable_eq
  have hspan := ho.same.map₂ hh.same fun o h => Span.between o.token.start h
  dsimp only
  rw [hany]
  exact .ite hclose ((agree_report _ .rfl hspan ho.token.start).thence fun _ _ _ => hclose)

theorem agree_menuStatement :
    AgreeNodes L o o' (menuStatement levels body ctx o) (menuStatement levels body ctx o') :=
  .past fun _ => .ite (agree_menuBlock hbody levels ctx ho .rfl)
    ((agree_expression? levels).thence fun _ _ h =>
      agree_menuBlock hbody levels ctx ho (same_expression? h))

end

end

/-! ## Members -/

instance : Steady L importKind := by unfold importKind; infer_instance

instance : Steady L (partFollows state) := by
  have hline : Steady L (do return !(← peekAt 2).lineBreakBefore) :=
    ⟨(agree_peekAt 2).bind fun t u h => .pure (by rw [Token.lineBreakBefore, h.flags_eq]; rfl)⟩
  unfold partFollows
  infer_instance

theorem agree_pathTail (hfirst : L.Same first first') :
    Agree L L.Same (pathTail first) (pathTail first') := by
  refine (Agree.whileNext (S := fun x y => L.Same x.1 y.1 ∧ x.2 = y.2) (fun x y hxy => ?_)
    (fun x y hxy _ => ?_) ⟨hfirst, rfl⟩).bind fun _ _ h => .pure h.1
  · have hfollows : partFollows x = partFollows y := by rw [partFollows, partFollows, hxy.2]
    rw [hfollows]
    exact Steady.agree
  · refine (agree_expectNameText.bind fun name name' hname => ?_).behind
    cases hname with
    | some hname =>
      exact .pure ⟨hxy.1.map₂ (L.same_of_text hname) fun path name => path ++
        "." ++ name, rfl⟩
    | none => exact .pure ⟨hxy.1, rfl⟩

theorem agree_importStatement (ho : Counterparts L o o') :
    AgreeNodes L o o' (importStatement o) (importStatement o') := by
  refine .past fun kind => agree_expectNameText.thence fun x y hname => ?_
  cases hname with
  | none => exact agree_closeStatement ho (.rfl (x := NodeKind.importModule kind "")) rfl
  | some hname =>
    refine (agree_pathTail (L.same_of_text hname)).thence fun path path' hpath =>
      (agree_modifyNames fun n m hnm => ?_).thence fun _ _ _ =>
        agree_closeStatement ho (hpath.map (NodeKind.importModule kind)) rfl
    exact { hnm with
      same := hnm.same.map₂ hpath fun n path => { n with imports := n.imports ++ [path] }
      scope := fun o => by have := hnm.scope o; cases o <;> exact this }

theorem agree_databaseStatement (word : Keyword) (ho : Counterparts L o o') :
    AgreeNodes L o o' (databaseStatement word o) (databaseStatement word o') :=
  agree_expectNameText.thence fun _ _ hname => agree_closeStatement ho
    ((same_words hname).map fun name => NodeKind.database word (name.getD "")) rfl

/-- What blocks have collected that hold the same names. -/
structure HoldingLike (L : Likeness) (g k : Holding) : Prop where
  same : L.Same g k
  scope : Scope.Like L g.scope k.scope

theorem agree_insideBlock {p q : Parser α} [p.Flows] [q.Flows] (h : AgreeFrom L x y V p q) :
    AgreeFrom L x y (fun a b => V a.1 b.1 ∧ HoldingLike L a.2 b.2) (insideBlock p)
      (insideBlock q) := by
  refine agree_getNames.thence fun outer outer' houter => ?_
  have henter : Names.Like L { outer with block := {}, loops := [] }
      { outer' with block := {}, loops := [] } :=
    { houter with
      same := houter.same.map fun n => { n with block := {}, loops := [] }
      scope := fun o => by
        have := houter.scope o
        cases o <;> first | exact this | exact Scope.like_empty
      loops := .nil }
  refine (agree_setNames henter).thence fun _ _ _ => h.bind fun _ _ hV => agree_getNames.thence
    fun n m hnm => ?_
  have hleave : Names.Like L { n with block := outer.block, loops := outer.loops }
      { m with block := outer'.block, loops := outer'.loops } :=
    { hnm with
      same := hnm.same.map₂ houter.same fun n outer =>
        { n with block := outer.block, loops := outer.loops }
      scope := fun o => by
        have := hnm.scope o
        cases o <;> first | exact this | exact houter.scope .block
      loops := houter.loops }
  exact (agree_setNames hleave).thence fun _ _ _ =>
    Agree.from (.pure ⟨hV, hnm.same.map Names.block, hnm.scope .block⟩)

theorem agree_parameters : Agree L L.Same parameters parameters := by
  have hclose {xs ys : List String} (h : L.Same xs ys) : Agree L L.Same
      (do let _ ← expect (.mark .closeParen); pure xs)
      (do let _ ← expect (.mark .closeParen); pure ys) := .past fun _ => .pure h
  refine .past fun _ => .ite (.past fun _ => .ite (hclose .rfl) ?_) (.pure .rfl)
  exact (agree_commaList agree_expectNameText).bind fun _ _ h =>
    hclose (same_list (h.imp fun _ _ h => L.same_of_text h))

section

variable {body : BodyParser}
  (hbody : ∀ ctx region, AgreeFrom L 0 0 (ContentLike L) (body ctx region) (body ctx region))
  [∀ ctx region, (body ctx region).Flows] (ctx : Context) (ho : Counterparts L o o')
include hbody ho

theorem agree_globalsBlock :
    AgreeNodes L o o' (globalsBlock body ctx o) (globalsBlock body ctx o') := by
  refine .header ho fun h h' hh => (agree_insideBlock (hbody ctx.insideGlobals _).weaken).bind
    fun x y hxy => ?_
  obtain ⟨⟨children, stop⟩, held⟩ := x
  obtain ⟨⟨children', stop'⟩, held'⟩ := y
  obtain ⟨⟨hchildren, rfl : stop = stop'⟩, hheld⟩ := hxy
  have hscope : L.Same held.scope held'.scope := hheld.same.map Holding.scope
  refine (agree_closeBlock ho hh .GLOBALS stop).thence fun _ _ _ =>
    (agree_modifyNames fun n m hnm => ?_).thence fun _ _ _ =>
      agree_closeNode ho hh (hscope.map NodeKind.globals) rfl hchildren
  exact { hnm with
    same := hnm.same.map₂ hscope fun n scope => { n with globals := n.globals.merge scope }
    scope := fun o => by have := hnm.scope o; cases o <;> exact this
    globals := hnm.globals.merge hheld.scope }

theorem agree_globalsMember :
    AgreeNodes L o o' (globalsMember body ctx o) (globalsMember body ctx o') :=
  .past fun _ => .ite
    (agree_next.thence fun _ _ h => agree_closeStatement ho
      (h.same.map fun t => NodeKind.globalsFile t.value) rfl)
    (agree_globalsBlock hbody ctx ho)

theorem agree_routineBlock (hh : HeaderLike L h h') (k : Keyword) (returns : Option Owner)
    {kind kind' : Holding → NodeKind} (hsame : ∀ g g', L.Same g g' →
      L.Same (kind g) (kind' g'))
    (houtline : ∀ g g', (kind g).outline = (kind' g').outline) :
    AgreeFrom L h h' (Node.Like L) (routineBlock body ctx o h k returns kind)
      (routineBlock body ctx o' h' k returns kind') := by
  refine (agree_insideBlock (agree_statementsUpTo hbody _ k)).bind fun x y hxy => ?_
  obtain ⟨⟨children, stop⟩, held⟩ := x
  obtain ⟨⟨children', stop'⟩, held'⟩ := y
  obtain ⟨⟨hchildren, rfl : stop = stop'⟩, hheld⟩ := hxy
  exact (agree_closeBlock ho hh k stop).thence fun _ _ _ =>
    agree_closeNode ho hh (hsame _ _ hheld.same) (houtline _ _) hchildren

theorem agree_mainMember (word : Keyword) :
    AgreeNodes L o o' (mainMember body word ctx o) (mainMember body word ctx o') := by
  refine .past fun access => ?_
  have hspan {h h' : Nat} (hh : HeaderLike L h h') :=
    ho.same.map₂ hh.same fun o h => Span.between o.token.start h
  have hmain {h h' : Nat} (hh : HeaderLike L h h') : AgreeFrom L h h' (Node.Like L)
      (do modifyNames fun n => { n with hasMain := true }
          routineBlock body ctx o h .MAIN none fun held => .main held.scope)
      (do modifyNames fun n => { n with hasMain := true }
          routineBlock body ctx o' h' .MAIN none fun held => .main held.scope) := by
    refine (agree_modifyNames fun n m hnm => ?_).thence fun _ _ _ =>
      agree_routineBlock hbody ctx ho hh _ _ (fun _ _ h => h.map fun g => NodeKind.main g.scope)
        fun _ _ => rfl
    exact { hnm with
      same := hnm.same.map fun n => { n with hasMain := true }
      scope := fun o => by have := hnm.scope o; cases o <;> exact this
      hasMain_eq := rfl }
  have hheader : AgreeNodes L o o'
      (do let header ← headerStop o
          if (← getNames).hasMain then
            report .secondMain [] (.between o.token.start header)
          modifyNames fun n => { n with hasMain := true }
          routineBlock body ctx o header .MAIN none fun held => .main held.scope)
      (do let header ← headerStop o'
          if (← getNames).hasMain then
            report .secondMain [] (.between o'.token.start header)
          modifyNames fun n => { n with hasMain := true }
          routineBlock body ctx o' header .MAIN none fun held => .main held.scope) := by
    refine .header ho fun h h' hh => agree_getNames.thence fun n m hnm => ?_
    rw [hnm.hasMain_eq]
    exact .ite ((agree_report _ .rfl (hspan hh) ho.token.start).thence fun _ _ _ => hmain hh)
      (hmain hh)
  exact .ite hheader ((agree_report _ .rfl ho.token.same_span ho.token.start).thence fun _ _ _ =>
    hheader)

theorem agree_functionMember (word : Keyword) :
    AgreeNodes L o o' (functionMember body word ctx o) (functionMember body word ctx o') := by
  refine .past fun access => agree_expectName.thence fun named named' hnamed =>
    agree_lastStop.thence fun stop stop' hstop => agree_parameters.thence fun ps ps' hps =>
      .header ho fun h h' hh => ?_
  have hnames : L.Same named named' := same_named? hnamed
  have hroutine : AgreeFrom L h h' (Node.Like L)
      (routineBlock body ctx o h .FUNCTION (some .block) fun held =>
        .function access (named.getD ("", .empty stop)).1 (named.getD ("", .empty stop)).2 ps
          held.scope held.returns)
      (routineBlock body ctx o' h' .FUNCTION (some .block) fun held =>
        .function access (named'.getD ("", .empty stop')).1 (named'.getD ("", .empty stop')).2 ps'
          held.scope held.returns) :=
    agree_routineBlock hbody ctx ho hh _ _
      (fun g g' hg hexact => by rw [hnames hexact, hstop hexact, hps hexact, hg hexact])
      fun _ _ => rfl
  rw [isSome_eq_of_rel hnamed]
  refine .ite ((agree_modifyNames fun n m hnm => ?_).thence fun _ _ _ => hroutine) hroutine
  exact { hnm with
    same := fun hexact => by
      rw [hnm.same hexact, hnames hexact, hstop hexact, hps hexact]
    scope := fun o => by have := hnm.scope o; cases o <;> exact this }

end

/-! ## All forms -/

/-- Every form agrees, if the bodies inside it do. -/
theorem agree_formWith {body : BodyParser} [∀ ctx region, (body ctx region).Flows] (levels : Nat)
    (hbody : ∀ ctx region, AgreeFrom L 0 0 (ContentLike L) (body ctx region) (body ctx region))
    (hstops : ∀ ctx region s ns k t,
      (body ctx region).run s = ((ns, .stopToken k), t) → t.kindAt 1 = k)
    (form : Form) (word : Keyword) (ctx : Context) (ho : Counterparts L o o') :
    AgreeNodes L o o' (formWith levels body form word ctx o)
      (formWith levels body form word ctx o') := by
  cases form with
  | vars => exact agree_variablesStatement word ctx ho
  | constants => exact agree_constantsStatement levels word ctx ho
  | types => exact agree_typesStatement word ctx ho
  | assignment => exact agree_assignmentStatement levels ho
  | call => exact agree_callStatement levels ho
  | returnValues => exact agree_returnStatement levels ho ctx
  | output => exact agree_outputStatement levels ho word
  | sleep => exact agree_sleepStatement levels ho
  | setNull => exact agree_setNullStatement levels ho
  | exit => exact agree_exitStatement levels ho
  | continueLoop => exact agree_continueStatement ho
  | prepare => exact agree_prepareStatement levels ho ctx
  | declare => exact agree_declareStatement levels ho ctx
  | cursor => exact agree_cursorStatement levels ho word
  | whenever => exact agree_wheneverStatement ho
  | run => exact agree_runStatement levels ho
  | ifThen => exact agree_ifStatement hbody levels ctx ho hstops
  | whileLoop => exact agree_whileStatement hbody levels ctx ho
  | forLoop => exact agree_forStatement hbody levels ctx ho
  | foreachLoop => exact agree_foreachStatement hbody levels ctx ho
  | caseOf => exact agree_caseStatement hbody levels ctx ho
  | tryBlock => exact agree_tryStatement hbody ctx ho hstops
  | menu => exact agree_menuStatement hbody levels ctx ho
  | importModule => exact agree_importStatement ho
  | database => exact agree_databaseStatement word ho
  | globals => exact agree_globalsMember hbody ctx ho
  | main => exact agree_mainMember hbody ctx ho word
  | function => exact agree_functionMember hbody ctx ho word
  | menuControl => exact agree_menuControlStatement levels ho word

/-- Bodies agree, however deep they nest. -/
theorem agree_bodyAt (levels : Nat) (ctx : Context) (region : Region) :
    AgreeFrom L 0 0 (ContentLike L) (bodyAt levels ctx region) (bodyAt levels ctx region) := by
  induction levels generalizing ctx region with
  | zero => exact agree_bodyWith (fun _ h => by cases h) (fun _ h => by cases h) ctx region
  | succ levels ih =>
    have hstops (ctx : Context) (region : Region) (s : ParseState) (ns : List Node) (k : Kind)
        (t : ParseState) (hrun : (bodyAt levels ctx region).run s = ((ns, .stopToken k), t)) :
        t.kindAt 1 = k := by
      have haccount := accountsBodies levels ctx region s
      rw [hrun] at haccount
      exact haccount.stops_body.kindAt_eq
    refine agree_bodyWith ?_ ?_ ctx region
    · rintro _ ⟨⟩ f word ctx o
      infer_instance
    · rintro _ ⟨⟩ f word ctx o o' ho
      exact agree_formWith levels ih hstops f word ctx ho

/-- Nodes of modules, which go from the beginnings of their texts to the ends. -/
structure ModuleLike (L : Likeness) (m n : Node) : Prop where
  same : L.Same m n
  outline_eq : m.kind.outline = n.kind.outline
  extent_eq : m.extent = ⟨0, L.left.length, 0, n.extent.isComplete⟩
  extent_eq' : n.extent = ⟨0, L.right.length, 0, m.extent.isComplete⟩
  children : List.Forall₂ (Node.Like L) m.children n.children

/-- Whole modules agree. -/
theorem agree_moduleNode (version : Version) (hst : ParseState.Like L s t) (hs : At L.left s)
    (ht : At L.right t) :
    ModuleLike L ((moduleNode version).run s).1 ((moduleNode version).run t).1 ∧
      ((moduleNode version).run s).2.Like L ((moduleNode version).run t).2 := by
  have hbody := agree_bodyAt maxNesting (.root version) .members s t hst hs ht (Nat.zero_le _)
    (Nat.zero_le _)
  have hs' := ((flows_bodyAt maxNesting (.root version) .members).flows s).later.onward hs
  have ht' := ((flows_bodyAt maxNesting (.root version) .members).flows t).later.onward ht
  have hmodule (s : ParseState) : (moduleNode version).run s =
      let r := (bodyAt maxNesting (.root version) .members).run s
      (⟨⟨0, r.2.read.input.length, 0, r.2.read.errorCount == 0⟩,
        .module r.2.read.names.module.scope r.2.read.names.globals r.2.read.names.functions
          r.2.read.names.imports, r.1.1⟩, r.2.read) := rfl
  rw [hmodule, hmodule]
  generalize (bodyAt maxNesting (.root version) .members).run s = r at *
  generalize (bodyAt maxNesting (.root version) .members).run t = r' at *
  obtain ⟨⟨hchildren, -⟩, hlike⟩ := hbody
  have hend := hlike.read
  have hlength := hs'.1.read.1.length_eq
  have hlength' := ht'.1.read.1.length_eq
  refine ⟨⟨fun hexact => ?_, rfl, ?_, ?_, hchildren⟩, hend⟩
  · have hnodes : r.1.1 = r'.1.1 :=
      Likeness.same_of_forall₂ (fun _ _ h => h.same) hchildren hexact
    have hsame : r.2.read.input.length = r'.2.read.input.length :=
      (hend.endOfFile.same.map Token.stop) hexact
    dsimp only
    rw [hnodes, hsame, hend.errorCount_eq, hend.names.same hexact]
  · dsimp only
    rw [hlength, hend.errorCount_eq]
  · dsimp only
    rw [hlength', hend.errorCount_eq]

end Parser

/-! ## Whole texts -/

/-- Parsing starts in like states, if the lexemes of the texts are alike. -/
theorem ParseState.like_ofText
    (hstream : List.Forall₂ (Lexeme.Like L) (Lexeme.ofText mode a) (Lexeme.ofText mode' b))
    (hend : Token.Like L (.endOfFile a.length) (.endOfFile b.length)) :
    ParseState.Like L (.ofText mode a) (.ofText mode' b) where
  stream := hstream
  rest := hstream
  endOfFile := hend
  index_eq := rfl
  seen_eq := rfl
  errors_eq := rfl
  last_same := .rfl
  last_kind_eq := rfl
  place := .inl rfl
  reports := .nil
  limit_eq := rfl
  names := Names.like_empty
  nesting_eq := rfl

theorem ParseOptions.forall₂_placed {options options' : ParseOptions}
    (hfile : options.file = options'.file) (h : List.Forall₂ (Diagnostic.Like L) ds es) :
    List.Forall₂ (Diagnostic.Like L) (options.placed ds) (options'.placed es) := by
  unfold placed
  rw [hfile]
  split
  next file _ =>
    refine List.rel_map (fun d e hde => ⟨hde.same.map (·.inFile file), ?_, hde.code_eq,
      hde.severity_eq, hde.start⟩) h
    rw [Diagnostic.inFile, Diagnostic.inFile, hde.file_eq]
  next => exact h

/-- Texts whose lexemes are alike give like modules and like diagnostics. -/
theorem like_parseModule {options options' : ParseOptions}
    (hstream : List.Forall₂ (Lexeme.Like L) (Lexeme.ofText options.mode L.left)
      (Lexeme.ofText options'.mode L.right))
    (hend : Token.Like L (.endOfFile L.left.length) (.endOfFile L.right.length))
    (hversion : options.version = options'.version) (hfile : options.file = options'.file) :
    ModuleLike L (parseModule L.left options).module (parseModule L.right options').module ∧
      List.Forall₂ (Diagnostic.Like L) (parseModule L.left options).diagnostics
        (parseModule L.right options').diagnostics := by
  obtain ⟨hmodule, hlike⟩ := agree_moduleNode options.version (like_ofText hstream hend)
    (at_ofText options.mode L.left) (at_ofText options'.mode L.right)
  unfold parseModule
  rw [← hversion]
  exact ⟨hmodule, ParseOptions.forall₂_placed hfile hlike.diagnostics⟩

end FourGL
