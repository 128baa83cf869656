import FourGL.Proofs.Grammar.MirroredPhrases
import FourGL.Proofs.Grammar.Parallel

/-!
# Statements in a larger text

A statement that is read without an error gives the same node in the larger text, further to the
right. What it declares for the text by itself it declares there for the block.
-/

namespace FourGL

open FourGL.Parser FourGL.ParseState

variable {k : Nat} {b : Bool}

/-! ## Names -/

namespace Names.Moved

variable {n m : Names}

theorem declare? (h : n.Moved k m) (hd : n.declare? .snippet d = some n') :
    ∃ m', m.declare? .block (d.shift k) = some m' ∧ n'.Moved k m' := by
  obtain ⟨scope, hscope, rfl⟩ := Option.map_eq_some_iff.mp hd
  have hscope' : m.block.scope.declare? (d.shift k) = some (scope.shift k) := by
    rw [h.block_eq, Holding.shift, Scope.declare?_shift,
      show n.snippet.scope.declare? d = _ from hscope]
    rfl
  refine ⟨{ m with block := { m.block with scope := scope.shift k } }, ?_, ?_, h.loops_eq⟩
  · unfold Names.declare?
    rw [show (m.get .block).scope.declare? _ = _ from hscope']
    rfl
  · rw [h.block_eq]
    rfl

theorem bindCursor? (h : n.Moved k m) (hc : n.bindCursor? (some .snippet) c = some n') :
    ∃ m', m.bindCursor? (some .block) (c.shift k) = some m' ∧ n'.Moved k m' := by
  unfold Names.bindCursor? at hc ⊢
  rw [h.loops_eq, Names.claim?_shift]
  cases hloops : Names.claim? c n.loops with
  | some loops =>
    rw [hloops] at hc
    obtain rfl := Option.some.inj hc
    exact ⟨_, rfl, h.block_eq, rfl⟩
  | none =>
    rw [hloops] at hc
    obtain rfl := Option.some.inj hc
    refine ⟨_, rfl, ?_, h.loops_eq⟩
    change Holding.mk (m.block.scope.bindCursor (c.shift k)) m.block.returns = _
    rw [h.block_eq, Holding.shift, Scope.bindCursor_shift]
    rfl

theorem noteReturn (h : n.Moved k m) (arity : Nat) :
    (n.noteReturn .snippet arity).Moved k (m.noteReturn .block arity) := by
  refine ⟨?_, h.loops_eq⟩
  change Holding.mk m.block.scope (m.block.returns ++ [arity]) = _
  rw [h.block_eq]
  rfl

end Names.Moved

/-! ## Contexts -/

/-- The context of the same place in the body of a function in the larger text. -/
def Context.enclosed (c : Context) : Context :=
  { c with
    ends := c.ends ++ [.keyword .FUNCTION]
    stops := c.stops ++ routineStops
    vars := some .block
    returns := some .block
    cursors := some .block }

/-- The context of a place in statements that stand alone. -/
structure Context.Standalone (c : Context) : Prop where
  vars_eq : c.vars = some .snippet
  returns_eq : c.returns = some .snippet
  cursors_eq : c.cursors = some .snippet
  ends : .endOfFile ∉ c.ends
  stops : c.stops ⊆ stopWords.map .keyword
  extra : c.extra ⊆ Production.menuStatements

/-- Nodes begin with corresponding tokens, before which there was no error. -/
structure Opening.Moved (k : Nat) (o o' : Opening) : Prop where
  token : o.token.Moved k o'.token
  errors_eq : o.errors = 0
  errors_eq' : o'.errors = 0

namespace Parser

set_option synthInstance.maxSize 512

/-! ## States and nodes -/

theorem Mirrors.getNames {f : Names → Parser α} {g : Names → Parser β}
    (hf : ∀ n m, n.Moved k m → Mirrors k b i τ (f n) (g m)) :
    Mirrors k b i τ (getNames >>= f) (getNames >>= g) :=
  fun _ _ _ _ hmirrored hleft hclean hlimit =>
    hf _ _ hmirrored.names hmirrored hleft ⟨hclean.run_eq, hclean.errors_eq⟩ hlimit

theorem mirrors_setNames {n m : Names} (h : n.Moved k m) :
    Mirrors k b i id (setNames n) (setNames m) := by
  intro s u a t hmirrored _ hclean _
  obtain ⟨rfl, rfl⟩ := Prod.mk.inj hclean.run_eq
  exact ⟨rfl, { hmirrored with names := h }⟩

theorem mirrors_modifyNames {f g : Names → Names}
    (h : ∀ n m, n.Moved k m → (f n).Moved k (g m)) :
    Mirrors k b i id (modifyNames f) (modifyNames g) :=
  .getNames fun n m hnames => mirrors_setNames (h n m hnames)

theorem Mirrors.errorCount {f : Nat → Parser α} {g : Nat → Parser β}
    (hf : Mirrors k b n τ (f 0) (g 0)) :
    Mirrors k b n τ (Parser.errorCount >>= f) (Parser.errorCount >>= g) := by
  intro s u r t hmirrored hleft hclean hlimit
  have hresult := hclean.run_eq
  rw [run_bind,
    show Parser.errorCount.run s = (0, s) from Prod.ext hmirrored.errors_eq rfl] at hresult
  rw [run_bind, show Parser.errorCount.run u = (0, u) from Prod.ext hmirrored.errors_eq' rfl]
    at hlimit ⊢
  exact hf hmirrored hleft ⟨hresult, hclean.errors_eq⟩ hlimit

/-- What is reported as a warning is no error. -/
theorem mirrors_report {m : Message} (hm : m.severity ≠ .error) :
    Mirrors k b n id (report m args span) (report m args' span') := by
  intro s u a t hmirrored _ hclean _
  obtain ⟨rfl, rfl⟩ := Prod.mk.inj hclean.run_eq
  have hwarning (args : List String) (span : Span) :
      (Diagnostic.of m args (some span)).isError = false := by
    simpa [Diagnostic.isError, Diagnostic.of] using hm
  refine ⟨rfl, { hmirrored with errors_eq := ?_, errors_eq' := ?_ }⟩
  · rw [← hmirrored.errors_eq]
    simp [ParseState.errorCount, Diagnostic.errorCount, hwarning]
  · rw [← hmirrored.errors_eq']
    simp [report, ParseState.errorCount, Diagnostic.errorCount, hwarning]

/-- Behind an error that is reported nothing has to be shown. -/
theorem Mirrors.report {m : Message} {f : Unit → Parser α} {q : Parser β}
    (hm : m.severity = .error) [F : ∀ a, (f a).Flows] :
    Mirrors k b n σ (Parser.report m args span >>= f) q := by
  refine .of_not_clean fun s a t h => ?_
  obtain ⟨_, _, hreport, -⟩ := h.bind
  exact Clean.not_report hm hreport

section

variable {o o' : Opening} (ho : o.Moved k o')
include ho

theorem mirrors_closeStatement (kind : NodeKind) :
    Mirrors k true n (·.shift k) (closeStatement o kind) (closeStatement o' (kind.shift k)) := by
  refine .bind mirrors_lastStop fun stop => .errorCount (.pure ?_)
  rw [ho.errors_eq, ho.errors_eq', ho.token.start_eq, Nat.add_max_add_right]
  rfl

theorem mirrors_headerStop : Mirrors k true n (· + k) (headerStop o) (headerStop o') :=
  .bind mirrors_lastStop fun stop => .pure (by rw [ho.token.start_eq, Nat.add_max_add_right])

theorem mirrors_closeNode (header : Nat) (kind : NodeKind) (children : List Node) :
    Mirrors k true n (·.shift k) (closeNode o header kind children)
      (closeNode o' (header + k) (kind.shift k) (children.map (·.shift k))) := by
  refine .bind mirrors_lastStop fun stop => .errorCount (.pure ?_)
  rw [ho.errors_eq, ho.errors_eq', ho.token.start_eq, Nat.add_max_add_right, Node.shift,
    Node.shiftChildren_eq_map]
  rfl

end

theorem mirrors_checkJump (c : Context) (n : Node) :
    Mirrors k b i id (checkJump c n) (checkJump c.enclosed (n.shift k)) := by
  unfold checkJump
  rw [Node.kind_shift, jump?_shift]
  split
  · exact .pure rfl
  · exact .ite (.pure rfl) (.of_not_clean fun _ _ _ => Clean.not_report rfl)

/-! ## Statements without a body -/

theorem mirrors_optionalList (levels : Nat) :
    Mirrors k true 0 (List.map (·.shift k)) (optionalList (levels + 1)) (optionalList levels) :=
  .peekKind (fun _ _ => .ite ((mirrors_expressionList levels).mono (Nat.zero_le 1)) (.pure rfl))
    (.pure rfl)

theorem mirrors_listBehind (levels : Nat) {word : Keyword} (hword : word ≠ .END) :
    Mirrors k true 0 (List.map (·.shift k)) (listBehind (levels + 1) word)
      (listBehind levels word) :=
  .past (mirrors_optional ⟨Kind.noConfusion, fun h => hword (Kind.keyword.inj h)⟩) fun _ =>
    .ite (mirrors_expressionList levels) (.pure rfl)

theorem mirrors_designatorsBehind (levels : Nat) {word : Keyword} (hword : word ≠ .END) :
    Mirrors k true 0 (List.map (·.shift k)) (designatorsBehind (levels + 1) word)
      (designatorsBehind levels word) :=
  .past (mirrors_optional ⟨Kind.noConfusion, fun h => hword (Kind.keyword.inj h)⟩) fun _ =>
    .ite (mirrors_designatorList levels) (.pure rfl)

theorem mirrors_expressionOnLine? (levels : Nat) :
    Mirrors k true 0 (Option.map (·.shift k)) (expressionOnLine? (levels + 1))
      (expressionOnLine? levels) := by
  refine .peek (fun t u hmoved hline _ => ?_) fun t u hkind hkind' _ => ?_
  · rw [hmoved.kind_eq, hline rfl]
    exact .ite ((mirrors_expression? levels).mono (Nat.zero_le 1)) (.pure rfl)
  · rw [hkind, hkind']
    exact .pure rfl

theorem mirrors_expressionBehind (levels : Nat) {follows : Parser Bool} [follows.Flows]
    (h : Mirrors k true 0 id follows follows) :
    Mirrors k true 0 (Option.map (·.shift k)) (expressionBehind (levels + 1) follows)
      (expressionBehind levels follows) :=
  .past h fun _ => .ite ((mirrors_expectExpression levels).map fun _ => rfl) (.pure rfl)

theorem run_groupGoesOn (n : Nat) (s : ParseState) :
    (groupGoesOn (n, false)).run s =
      (if s.kindAt 1 = .endOfFile then none else some (), (peekKind.run s).2) := by
  have hnext : (nextIs .endOfFile).run s = (s.kindAt 1 == .endOfFile, (peekKind.run s).2) := rfl
  unfold groupGoesOn when
  rw [if_neg Bool.false_ne_true, run_bind, run_bind, hnext]
  by_cases hend : s.kindAt 1 = .endOfFile
  · rw [if_pos hend, hend]
    rfl
  · rw [if_neg hend, beq_false_of_ne hend]
    rfl

/-- A token in a group is counted if it is a parenthesis. -/
def groupStep (state : Nat × Bool) (_ : Unit) : Parser (Nat × Bool) := do
  match (← last).kind with
  | .mark .openParen => return (state.1 + 1, false)
  | .mark .closeParen => return (state.1 - 1, state.1 ≤ 1)
  | _ => return state

instance : (groupStep state u).Flows := .bind fun t => by split <;> infer_instance

theorem skipGroup_eq : skipGroup = (do
    let state ← whileNext groupGoesOn groupStep (0, false)
    unless state.2 do
      reportNext .expected [Mark.closeParen.text]) := rfl

/-- A group goes on until it is closed; to come to the end of the text first is an error. -/
theorem mirrors_skipGroup : Mirrors k true 0 id skipGroup skipGroup := by
  have hstep (state : Nat × Bool) (u : Unit) :
      Mirrors k true 0 id (groupStep state u) (groupStep state u) := by
    refine .last fun t u hmoved => ?_
    rw [hmoved.kind_eq]
    split <;> exact .pure rfl
  rw [skipGroup_eq]
  intro s u _ t hmirrored hleft hclean hlimit
  obtain ⟨state, s', hgroup, hclean⟩ := hclean.bind
  have hclosed : state.2 = true := by
    by_contra hopen
    rw [Bool.not_eq_true] at hopen
    rw [hopen] at hclean
    exact Clean.not_reportNext rfl hclean
  obtain ⟨-, rfl⟩ : () = () ∧ t = s' := by
    rw [hclosed] at hclean
    exact hclean.of_pure
  have hguard {state : Nat × Bool} {s u : ParseState} {found : Option Unit} {t : ParseState}
      (hclosed : found = none → state.2 = true) (hmirrored : Mirrored k true s u)
      (hclean : (groupGoesOn state).Clean s found t) :
      ((groupGoesOn state).run u).1 = found.map id ∧
        Mirrored k true t ((groupGoesOn state).run u).2 := by
    obtain ⟨n, closed⟩ := state
    cases closed with
    | true =>
      obtain ⟨rfl, rfl⟩ := hclean.of_pure
      exact ⟨rfl, hmirrored⟩
    | false =>
      obtain ⟨rfl, rfl⟩ := Prod.mk.inj ((run_groupGoesOn n s).symm.trans hclean.run_eq)
      rw [run_groupGoesOn, if_neg hmirrored.kind_ne_endOfFile]
      refine ⟨?_, hmirrored.looks (peeks_peekKind s) (peeks_peekKind u)⟩
      split
      next hend => exact absurd (hclosed (if_pos hend)) Bool.false_ne_true
      next => rfl
  rw [run_bind] at hlimit ⊢
  have hbefore : ((whileNext groupGoesOn groupStep (0, false)).run u).2.limitReported = false :=
    limitReported_before (Flows.flows (by infer_instance) _).later hlimit
  obtain ⟨heq, hmirrored'⟩ := mirrored_whileNext (P := fun state => state.2 = true) (φ := id)
    (ω := id) groupGoesOn_found (fun hclosed hmirrored hclean _ => hguard hclosed hmirrored hclean)
    hstep hmirrored hgroup hclosed hbefore
  have hclosed' : ((whileNext groupGoesOn groupStep (0, false)).run u).1.2 = true :=
    (congrArg Prod.snd heq).trans hclosed
  rw [hclosed']
  exact ⟨rfl, hmirrored'⟩

theorem mirrors_expectTarget (word : Keyword) (allowed : Keyword → Bool) :
    Mirrors k true 0 id (expectTarget word allowed) (expectTarget word allowed) := by
  unfold expectTarget
  refine .peekKind (fun c _ => ?_) (.reportNext rfl)
  split
  · exact .ite (.next fun _ _ _ => .pure rfl) (.reportNext rfl)
  · exact .reportNext rfl

theorem mirrors_bindCursor {c : Context} (hc : c.Standalone) (name : Option (String × Span))
    (kind : CursorKind) :
    Mirrors k true n id (bindCursor c name kind)
      (bindCursor c.enclosed (name.map (shiftNamed k)) kind) := by
  cases name with
  | none => exact .pure rfl
  | some name =>
    refine .getNames fun n m hnames => ?_
    rw [hc.cursors_eq]
    cases hbind : n.bindCursor? (some .snippet) ⟨name.1, name.2, kind⟩ with
    | none => exact .of_not_clean fun _ _ _ => Clean.not_report rfl
    | some n' =>
      obtain ⟨m', hbind', hmoved⟩ := hnames.bindCursor? hbind
      dsimp only [Context.enclosed, Option.map_some]
      rw [show m.bindCursor? (some .block) ⟨id name.1, name.2.shift k, kind⟩ = some m'
        from hbind']
      exact mirrors_setNames hmoved

theorem mirrors_cursorSource (levels : Nat) :
    Mirrors k true 0 (Prod.map id (Option.map (·.shift k))) (cursorSource (levels + 1))
      (cursorSource levels) :=
  .past (mirrors_optional (by decide)) fun _ =>
    .ite (.past mirrors_expectNameText fun _ => .pure rfl)
    (.past (mirrors_optional (by decide)) fun _ => .ite
      (.bind (mirrors_expectExpression levels) fun _ => .pure rfl) (.reportNext rfl))

theorem mirrors_fetchDirection? : Mirrors k true 0 id fetchDirection? fetchDirection? := by
  unfold fetchDirection?
  refine .peekKind (fun c _ => ?_) (.pure rfl)
  split
  · refine .ite (.second (fun t u hmoved _ _ => ?_) fun t u hkind hkind' _ => ?_) (.pure rfl)
    · rw [hmoved.kind_eq]
      exact .ite (.next fun _ _ _ => .pure rfl) (.pure rfl)
    · rw [hkind, hkind']
      exact .pure rfl
  · exact .pure rfl

/-- The text of the next word is read. -/
theorem mirrors_word : Mirrors k true 1 id (do return (← next).kind.text)
    (do return (← next).kind.text) :=
  .next fun _ _ hmoved => .pure (by rw [hmoved.kind_eq]; rfl)

theorem mirrors_wheneverCondition : Mirrors k true 0 id wheneverCondition wheneverCondition := by
  unfold wheneverCondition
  refine .peekKind (fun c _ => ?_) (.reportNext rfl)
  split
  · exact .next fun _ _ _ => .expect (by decide) (.pure rfl)
  · exact .next fun _ _ _ => .expect (by decide) (.pure rfl)
  iterate 3 · exact mirrors_word
  · exact .reportNext rfl

theorem mirrors_wheneverTarget : Mirrors k true 1 id wheneverTarget wheneverTarget := by
  unfold wheneverTarget
  refine .next (F := fun t => .bind fun name => ?_) fun t u hmoved => ?_
  · rw [hmoved.kind_eq]
    exact .found mirrors_expectNameText.option (fun _ => .pure rfl) (.pure rfl)
  · cases name <;> infer_instance

theorem mirrors_wheneverAction : Mirrors k true 0 id wheneverAction wheneverAction := by
  unfold wheneverAction
  refine .peekKind (fun c _ => ?_) (.reportNext rfl)
  split
  iterate 3 · exact mirrors_word
  iterate 2 · exact mirrors_wheneverTarget
  · exact .reportNext rfl

section

variable (levels : Nat) {o o' : Opening} (ho : o.Moved k o')
include ho

theorem mirrors_assignmentStatement :
    Mirrors k true 0 (·.shift k) (assignmentStatement (levels + 1) o)
      (assignmentStatement levels o') :=
  .bind (mirrors_expectDesignator levels) fun target => .expect (by decide)
    (.bind (mirrors_expressionList levels) fun values =>
      mirrors_closeStatement ho (.assignment target values))

theorem mirrors_callStatement :
    Mirrors k true 0 (·.shift k) (callStatement (levels + 1) o) (callStatement levels o') := by
  rw [callStatement_eq, callStatement_eq]
  refine .bind (F := fun callee => ?_) (G := fun callee => ?_) (mirrors_expression? levels)
    fun callee => ?_
  · have hcalls : (callee.map (Expression.shift k)).map Expression.isCall =
        callee.map Expression.isCall := by
      rw [Option.map_map]
      exact congrArg (callee.map ·) (funext Expression.isCall_shift)
    dsimp only
    rw [hcalls]
    split
    · exact .bind (mirrors_designatorsBehind levels (by decide)) fun returning =>
        mirrors_closeStatement ho (.call callee returning)
    · exact .reportNext rfl
    · exact .reportNext rfl
  all_goals
    dsimp only
    split <;> infer_instance

theorem mirrors_returnStatement {c : Context} (hc : c.Standalone) :
    Mirrors k true 0 (·.shift k) (returnStatement (levels + 1) c o)
      (returnStatement levels c.enclosed o') := by
  unfold returnStatement
  refine .bind (F := fun values => ?_) (G := fun values => ?_) (mirrors_optionalList levels)
    fun values => ?_
  · rw [hc.returns_eq]
    refine .past (mirrors_modifyNames fun n m hnames => ?_) fun _ =>
      mirrors_closeStatement ho (.returnValues values)
    rw [List.length_map]
    exact hnames.noteReturn values.length
  all_goals
    dsimp only
    split <;> infer_instance

theorem mirrors_outputStatement (word : Keyword) :
    Mirrors k true 0 (·.shift k) (outputStatement (levels + 1) word o)
      (outputStatement levels word o') := by
  have hclose (values place : List Expression) : Mirrors k true 0 (Node.shift k)
      (closeStatement o (.output word (values ++ place)))
      (closeStatement o' (.output word (values.map (·.shift k) ++ place.map (·.shift k)))) := by
    rw [← List.map_append]
    exact mirrors_closeStatement ho (.output word (values ++ place))
  exact .bind (mirrors_optionalList levels) fun values =>
    .bind (mirrors_listBehind levels (by decide)) fun place => .ifNextAre (by decide) (by decide)
      (.next fun _ _ _ => .past (mirrors_skipGroup.mono (Nat.zero_le 1)) fun _ =>
        hclose _ _) (hclose _ _)

theorem mirrors_sleepStatement :
    Mirrors k true 0 (·.shift k) (sleepStatement (levels + 1) o) (sleepStatement levels o') :=
  .bind (mirrors_expectExpression levels) fun seconds =>
    mirrors_closeStatement ho (.sleep (some seconds))

theorem mirrors_setNullStatement :
    Mirrors k true 0 (·.shift k) (setNullStatement (levels + 1) o) (setNullStatement levels o') :=
  .bind (mirrors_designatorList levels) fun targets => .expect (by decide) (.expect (by decide)
    (mirrors_closeStatement ho (.setNull targets)))

theorem mirrors_exitStatement :
    Mirrors k true 0 (·.shift k) (exitStatement (levels + 1) o) (exitStatement levels o') :=
  .past (mirrors_expectTarget _ _) fun target => .ite
    (.bind (mirrors_expressionOnLine? levels) fun value =>
      mirrors_closeStatement ho (.exit target value))
    (mirrors_closeStatement ho (.exit target none))

theorem mirrors_continueStatement :
    Mirrors k true 0 (·.shift k) (continueStatement o) (continueStatement o') :=
  .past (mirrors_expectTarget _ _) fun target =>
    mirrors_closeStatement ho (.continueLoop target)

theorem mirrors_prepareStatement {c : Context} (hc : c.Standalone) :
    Mirrors k true 0 (·.shift k) (prepareStatement (levels + 1) c o)
      (prepareStatement levels c.enclosed o') := by
  refine .bind mirrors_expectName fun name => .past (mirrors_bindCursor hc name .prepared) fun _ =>
    .expect (by decide) (.bind (mirrors_expectExpression levels).mapSome fun source => ?_)
  rw [Option.map_map]
  exact mirrors_closeStatement ho (.prepare (name.map (·.1)) source)

theorem mirrors_declareStatement {c : Context} (hc : c.Standalone) :
    Mirrors k true 0 (·.shift k) (declareStatement (levels + 1) c o)
      (declareStatement levels c.enclosed o') := by
  refine .bind mirrors_expectName fun name => .past (mirrors_bindCursor hc name .declared) fun _ =>
    .past (mirrors_optional (by decide)) fun scroll => .expect (by decide) (.past ?_ fun withHold =>
      .bind (mirrors_cursorSource levels) fun source => ?_)
  · exact .past (mirrors_optional (by decide)) fun _ =>
      .ite (mirrors_expect (by decide)) (.pure rfl)
  · rw [Option.map_map]
    exact mirrors_closeStatement ho (.declare (name.map (·.1)) scroll withHold source.1 source.2)

theorem mirrors_cursorStatement (word : Keyword) :
    Mirrors k true 0 (·.shift k) (cursorStatement (levels + 1) word o)
      (cursorStatement levels word o') := by
  unfold cursorStatement
  have hclose (direction : Option Keyword) (name : Option String) (arguments : List Expression)
      (into : List Designator) :=
    mirrors_closeStatement ho (n := 0) (.cursor word name direction arguments into)
  have hbehind (direction : Option Keyword) : Mirrors k true 0 (Node.shift k)
      (do let name ← expectNameText
          let arguments ←
            if word = .OPEN ∨ word = .EXECUTE then listBehind (levels + 1) .USING else pure []
          let into ←
            if word = .FETCH ∨ word = .EXECUTE then designatorsBehind (levels + 1) .INTO
              else pure []
          closeStatement o (.cursor word name direction arguments into))
      (do let name ← expectNameText
          let arguments ← if word = .OPEN ∨ word = .EXECUTE then listBehind levels .USING
            else pure []
          let into ← if word = .FETCH ∨ word = .EXECUTE then designatorsBehind levels .INTO
            else pure []
          closeStatement o' (.cursor word name direction arguments into)) := by
    refine .past mirrors_expectNameText fun name => ?_
    have hinto (arguments : List Expression) : Mirrors k true 0 (Node.shift k)
        (do let into ←
              if word = .FETCH ∨ word = .EXECUTE then designatorsBehind (levels + 1) .INTO
                else pure []
            closeStatement o (.cursor word name direction arguments into))
        (do let into ←
              if word = .FETCH ∨ word = .EXECUTE then designatorsBehind levels .INTO else pure []
            closeStatement o' (.cursor word name direction (arguments.map (·.shift k)) into)) :=
      .ite (.bind (mirrors_designatorsBehind levels (by decide)) fun into =>
        hclose direction name arguments into)
        (hclose direction name arguments [])
    exact .ite (.bind (mirrors_listBehind levels (by decide)) hinto) (hinto [])
  exact .ite (.past mirrors_fetchDirection? hbehind) (hbehind none)

theorem mirrors_wheneverStatement :
    Mirrors k true 0 (·.shift k) (wheneverStatement o) (wheneverStatement o') :=
  .past mirrors_wheneverCondition fun condition => .past mirrors_wheneverAction fun action =>
    mirrors_closeStatement ho (.whenever condition action)

theorem mirrors_runStatement :
    Mirrors k true 0 (·.shift k) (runStatement (levels + 1) o) (runStatement levels o') := by
  have hclose (command : Expression) (returning : Option Designator) :
    Mirrors k true 0 (Node.shift k)
      (do let withoutWaiting ← both (optional (.keyword .WITHOUT)) (expect (.keyword .WAITING))
          closeStatement o (.run (some command) returning withoutWaiting))
      (do let withoutWaiting ← both (optional (.keyword .WITHOUT)) (expect (.keyword .WAITING))
          closeStatement o' (.run (some (command.shift k))
            (returning.map (·.shift k)) withoutWaiting)) :=
    .past (.past (mirrors_optional (by decide)) fun _ =>
      .ite (mirrors_expect (by decide)) (.pure rfl))
      fun withoutWaiting => mirrors_closeStatement ho (.run (some command) returning withoutWaiting)
  refine .bind (mirrors_expectExpression levels) fun command =>
    .past (mirrors_optional (by decide)) fun _ => ?_
  exact .ite (.bind (mirrors_expectDesignator levels) fun returning => hclose command returning)
      (hclose command none)

theorem mirrors_menuControlStatement (word : Keyword) :
    Mirrors k true 1 (·.shift k) (menuControlStatement (levels + 1) word o)
      (menuControlStatement levels word o') :=
  .next fun _ _ _ => .ite
    (.bind (mirrors_expectExpression levels) fun option =>
      mirrors_closeStatement ho (.menuControl word [option] false))
    (.past (mirrors_optional (by decide)) fun _ => .ite
      (mirrors_closeStatement ho (.menuControl word [] true))
      (.bind (mirrors_expressionList levels) fun options =>
        mirrors_closeStatement ho (.menuControl word options false)))

end

/-! ## Declarations -/

section

variable {c : Context} (hc : c.Standalone)
include hc

theorem mirrors_declareName (d : Declaration) :
    Mirrors k b n id (declareName c d) (declareName c.enclosed (d.shift k)) := by
  unfold declareName
  rw [hc.vars_eq]
  refine .getNames fun n m hnames => ?_
  cases hdeclare : n.declare? .snippet d with
  | none => exact .of_not_clean fun _ _ _ => Clean.not_report rfl
  | some n' =>
    obtain ⟨m', hdeclare', hmoved⟩ := hnames.declare? hdeclare
    rw [hdeclare']
    exact mirrors_setNames hmoved

theorem mirrors_declareAll (ds : List Declaration) :
    Mirrors k b 0 id (declareAll c ds) (declareAll c.enclosed (ds.map (·.shift k))) := by
  induction ds with
  | nil => exact .pure rfl
  | cons d ds ih => exact .past (mirrors_declareName hc d) fun _ => ih

theorem mirrors_constant (levels : Nat) :
    Mirrors k true 0 (Option.map (·.shift k)) (constant (levels + 1) c)
      (constant levels c.enclosed) := by
  have hflows (levels : Nat) (c : Context) (name : String × Span) : Flows (do
      let type ← if ← nextIs (.mark .equal) then pure none else some <$> typeReference
      let value ← if ← expect (.mark .equal) then some <$> expectExpression levels
        else pure none
      let constant : Constant := ⟨name.1, name.2, type, value⟩
      declareName c (.constant constant)
      return some constant) := .bind fun found => by
    dsimp only
    split <;> infer_instance
  refine .found mirrors_expectName (fun name => ?_) (.pure rfl)
  have hdeclare (type : Option TypeReference) (value : Option Expression) :
      Mirrors k true 0 (Option.map (Constant.shift k))
        (do declareName c (.constant ⟨name.1, name.2, type, value⟩)
            return some ⟨name.1, name.2, type, value⟩)
        (do declareName c.enclosed (.constant
              ⟨name.1, name.2.shift k, type.map (·.shift k), value.map (·.shift k)⟩)
            return some ⟨name.1, name.2.shift k, type.map (·.shift k),
                value.map (·.shift k)⟩) :=
    .past (mirrors_declareName hc (.constant ⟨name.1, name.2, type, value⟩)) fun _ => .pure rfl
  have hvalue (type : Option TypeReference) :
      Mirrors k true 0 (Option.map (Constant.shift k))
        (do let value ←
              if ← expect (.mark .equal) then some <$> expectExpression (levels + 1)
                else pure none
            declareName c (.constant ⟨name.1, name.2, type, value⟩)
            return some ⟨name.1, name.2, type, value⟩)
        (do let value ←
              if ← expect (.mark .equal) then some <$> expectExpression levels else pure none
            declareName c.enclosed
              (.constant ⟨name.1, name.2.shift k, type.map (·.shift k), value⟩)
            return some ⟨name.1, name.2.shift k, type.map (·.shift k), value⟩) := by
    refine .expect (by decide) ?_
    rw [if_pos rfl, if_pos rfl]
    exact .bind (mirrors_expectExpression levels).mapSome fun value => hdeclare type value
  refine .ifNext (by decide) ((hvalue none).mono (Nat.zero_le 1)) ?_
  rw [if_neg Bool.false_ne_true, if_neg Bool.false_ne_true]
  exact .bind mirrors_typeReference.mapSome fun type => hvalue type

theorem mirrors_typeName :
    Mirrors k true 0 (Option.map (·.shift k)) (typeName c) (typeName c.enclosed) :=
  .found mirrors_expectName (fun name => .bind mirrors_typeReference fun type =>
    .past (mirrors_declareName hc (.type ⟨name.1, name.2, type⟩)) fun _ =>
      .pure rfl) (.pure rfl)

variable {o o' : Opening} (ho : o.Moved k o') {word : Keyword}
  (hword : word ≠ .PUBLIC ∧ word ≠ .PRIVATE)
include ho hword

omit hc ho in
/-- A form that starts with a word of its own has no access modifier. -/
theorem accessOf_eq : accessOf word = pure .unstated := by
  unfold accessOf
  split
  · exact absurd rfl hword.1
  · exact absurd rfl hword.2
  · rfl

theorem mirrors_variablesStatement :
    Mirrors k true 0 (·.shift k) (variablesStatement word c o)
      (variablesStatement word c.enclosed o') := by
  unfold variablesStatement
  rw [accessOf_eq hword]
  refine .bind (σ := id) (.pure rfl) fun access =>
    .bind (mirrors_variableGroups mirrors_typeReference)
    fun vars => .past ?_ fun _ => mirrors_closeStatement ho (.vars access vars)
  have hmap : (vars.map (·.shift k)).map Declaration.variable =
      (vars.map Declaration.variable).map (·.shift k) := by
    simp [Declaration.shift]
  rw [hmap]
  exact mirrors_declareAll hc _

theorem mirrors_constantsStatement (levels : Nat) :
    Mirrors k true 0 (·.shift k) (constantsStatement (levels + 1) word c o)
      (constantsStatement levels word c.enclosed o') := by
  unfold constantsStatement
  rw [accessOf_eq hword]
  exact .bind (σ := id) (.pure rfl) fun access =>
    .bind (mirrors_commaList (mirrors_constant hc levels))
    fun constants => mirrors_closeStatement ho (.constants access constants)

theorem mirrors_typesStatement :
    Mirrors k true 0 (·.shift k) (typesStatement word c o)
      (typesStatement word c.enclosed o') := by
  unfold typesStatement
  rw [accessOf_eq hword]
  exact .bind (σ := id) (.pure rfl) fun access => .bind (mirrors_commaList (mirrors_typeName hc))
    fun types => mirrors_closeStatement ho (.types access types)

end

end Parser

end FourGL
