import FourGL.Proofs.Grammar.NodesRead
import FourGL.Proofs.Grammar.Payload
import FourGL.Proofs.Grammar.Spans

/-!
# Where the expressions of statements stand

A node is opened with a token that is read and not empty, and what is read behind it up to the end
of its header is laid out in a row. So the expressions that the node holds stand in its header
(`Reads.inHeader`). There is one lemma for each form that holds expressions.
-/

namespace FourGL

open FourGL.Parser FourGL.ParseState
open FourGL.Expression (Row)

/-- The expressions that the node holds stand in its header, one behind the other, and so do the
parts of each expression inside it. -/
def Node.InHeader (n : Node) : Prop :=
  Expression.Row n.start n.extent.headerStop n.kind.expressions

namespace Parser

/-- Behind the token of the opening and the expressions `es`, what the node holds stands in its
header. -/
abbrev HoldsInHeader (text : String) (o : Opening) (es : List Expression) (p : Parser Node) :
    Prop :=
  p.BehindRow text o.token.start es fun n _ => n.InHeader

variable {text : String} {es : List Expression}

section

variable (levels : Nat) (o : Opening)

/-! ## Closing -/

theorem holdsInHeader_closeStatement {kind : NodeKind} (h : kind.expressions = es) :
    (closeStatement o kind).HoldsInHeader text o es := by
  constructor
  intro s _ hlt hrow
  obtain ⟨-, hclosed⟩ := closed_closeStatement (Nat.le_of_lt hlt) (Prod.eta _).symm
  unfold Node.InHeader
  rwa [hclosed.start_eq, hclosed.headerStop_eq, hclosed.kind_eq, h]

/-- Behind the end of the header nothing more is laid out. -/
theorem holdsInHeader_headerStop {f : Nat → Parser Node}
    (hf : ∀ header, Row o.token.start header es → (f header).HoldsInHeader text o es) :
    (headerStop o >>= f).HoldsInHeader text o es := by
  constructor
  intro s hat hlt hrow
  have hheader : ((headerStop o).run s).1 = s.place := Nat.max_eq_left (Nat.le_of_lt hlt)
  refine (hf _ ?_).result s hat hlt hrow
  rwa [hheader]

theorem holdsInHeader_closeNode {kind : NodeKind} (children : List Node)
    (h : Row o.token.start header kind.expressions) :
    (closeNode o header kind children).HoldsInHeader text o es :=
  ⟨fun _ _ _ _ => h⟩

/-! ## Statements without a body -/

theorem holdsInHeader_assignmentStatement :
    (assignmentStatement levels o).HoldsInHeader text o [] := by
  unfold assignmentStatement
  dsimp only
  refine .behind fun target => .behind fun _ => .ite ?_ ?_
  · exact .leave (yieldsRow_expressionList levels) fun _ => holdsInHeader_closeStatement o rfl
  · exact .leave (.pure rfl) fun _ => holdsInHeader_closeStatement o rfl

theorem holdsInHeader_callStatement : (callStatement levels o).HoldsInHeader text o [] := by
  have hrest (callee : Option Expression) : HoldsInHeader text o ([] ++ callee.toList) (do
      let returning ← designatorsBehind levels .RETURNING
      closeStatement o (.call callee returning)) :=
    .behind fun _ => holdsInHeader_closeStatement o rfl
  unfold callStatement
  refine .leave (yieldsRow_expression? levels) fun callee => ?_
  dsimp only
  split
  · exact hrest _
  · exact .behind fun _ => hrest _
  · exact .behind fun _ => hrest _

theorem holdsInHeader_returnStatement (ctx : Context) :
    (returnStatement levels ctx o).HoldsInHeader text o [] := by
  unfold returnStatement
  refine .leave (yieldsRow_optionalList levels) fun values => ?_
  have hclose : (closeStatement o (.returnValues values)).HoldsInHeader text o values :=
    holdsInHeader_closeStatement o rfl
  dsimp only
  split
  · exact .behind fun _ => hclose
  · exact .ite hclose (.behind fun _ => .behind fun _ => hclose)

theorem holdsInHeader_outputStatement (word : Keyword) :
    (outputStatement levels word o).HoldsInHeader text o [] := by
  unfold outputStatement
  dsimp only
  refine .leave (yieldsRow_optionalList levels) fun values =>
    .leave (yieldsRow_listBehind levels _) fun place => .behind fun _ => .ite ?_ ?_
  · exact .behind fun _ => .behind fun _ => holdsInHeader_closeStatement o rfl
  · exact holdsInHeader_closeStatement o rfl

theorem holdsInHeader_sleepStatement : (sleepStatement levels o).HoldsInHeader text o [] :=
  .leave (yieldsRow_expectExpression levels) fun _ => holdsInHeader_closeStatement o rfl

theorem holdsInHeader_exitStatement : (exitStatement levels o).HoldsInHeader text o [] := by
  unfold exitStatement
  dsimp only
  refine .behind fun target => .ite ?_ ?_
  · exact .leave (yieldsRow_expressionOnLine? levels) fun _ => holdsInHeader_closeStatement o rfl
  · exact .leave (.pure rfl) fun _ => holdsInHeader_closeStatement o rfl

theorem holdsInHeader_prepareStatement (ctx : Context) :
    (prepareStatement levels ctx o).HoldsInHeader text o [] := by
  unfold prepareStatement
  dsimp only
  refine .behind fun name => .behind fun _ => .behind fun _ => .ite ?_ ?_
  · exact .leave (yieldsRow_someExpression levels) fun _ => holdsInHeader_closeStatement o rfl
  · exact .leave (.pure rfl) fun _ => holdsInHeader_closeStatement o rfl

theorem holdsInHeader_declareStatement (ctx : Context) :
    (declareStatement levels ctx o).HoldsInHeader text o [] :=
  .behind fun _ => .behind fun _ => .behind fun _ => .behind fun _ => .behind fun _ =>
    .leave (yieldsRow_cursorSource levels) fun _ => holdsInHeader_closeStatement o rfl

theorem holdsInHeader_cursorStatement (word : Keyword) :
    (cursorStatement levels word o).HoldsInHeader text o [] := by
  have hinto (direction : Option Keyword) (name : Option String) (arguments : List Expression) :
      HoldsInHeader text o arguments
        (if word = .FETCH ∨ word = .EXECUTE then do
          let into ← designatorsBehind levels .INTO
          closeStatement o (.cursor word name direction arguments into)
        else do
          let into ← pure []
          closeStatement o (.cursor word name direction arguments into)) :=
    .ite (.behind fun _ => holdsInHeader_closeStatement o rfl)
      (.behind fun _ => holdsInHeader_closeStatement o rfl)
  unfold cursorStatement
  dsimp only
  refine .ite ?_ ?_ <;>
  exact .behind fun direction => .behind fun name =>
    .ite (.leave (yieldsRow_listBehind levels _) (hinto direction name))
      (.leave (.pure rfl) (hinto direction name))

theorem holdsInHeader_runStatement : (runStatement levels o).HoldsInHeader text o [] := by
  have hrest (command : Expression) (returning : Option Designator) :
      HoldsInHeader text o [command] (do
      let withoutWaiting ← both (optional (.keyword .WITHOUT)) (expect (.keyword .WAITING))
      closeStatement o (.run (some command) returning withoutWaiting)) :=
    .behind fun _ => holdsInHeader_closeStatement o rfl
  unfold runStatement
  dsimp only
  exact .leave (yieldsRow_expectExpression levels) fun command => .behind fun _ =>
    .ite (.behind (hrest command)) (.behind (hrest command))

theorem holdsInHeader_menuControlStatement (word : Keyword) :
    (menuControlStatement levels word o).HoldsInHeader text o [] := by
  refine .behind fun _ => .ite ?_ (.behind fun _ => .ite ?_ ?_)
  · exact .leave (yieldsRow_expectExpression levels) fun _ => holdsInHeader_closeStatement o rfl
  · exact holdsInHeader_closeStatement o rfl
  · exact .leave (yieldsRow_expressionList levels) fun _ => holdsInHeader_closeStatement o rfl

theorem yieldsRow_constant (ctx : Context) :
    (constant levels ctx).YieldsRow text fun found => found.toList.flatMap (·.value.toList) := by
  have hdeclare (name : String) (span : Span) (type : Option TypeReference)
      {p : Parser (Option Expression)} [p.Flows] (hp : p.YieldsRow text Option.toList) :
      YieldsRow text (fun found : Option Constant => found.toList.flatMap (·.value.toList)) (do
        let value ← p
        declareName ctx (.constant ⟨name, span, type, value⟩)
        return some ⟨name, span, type, value⟩) :=
    .before hp fun value _ => List.append_nil value.toList
  have hvalue (name : String) (span : Span) (type : Option TypeReference) :
      YieldsRow text (fun found : Option Constant => found.toList.flatMap (·.value.toList)) (do
        if ← expect (.mark .equal) then do
          let value ← some <$> expectExpression levels
          declareName ctx (.constant ⟨name, span, type, value⟩)
          return some ⟨name, span, type, value⟩
        else do
          let value ← pure none
          declareName ctx (.constant ⟨name, span, type, value⟩)
          return some ⟨name, span, type, value⟩) :=
    .behind fun _ => .ite (hdeclare name span type (yieldsRow_someExpression levels))
      (hdeclare name span type (.pure rfl))
  unfold constant
  dsimp only
  refine .behind fun name => ?_
  cases name with
  | none => exact .pure rfl
  | some name => exact .behind fun _ => .ite (.behind (hvalue _ _)) (.behind (hvalue _ _))

theorem holdsInHeader_constantsStatement (word : Keyword) (ctx : Context) :
    (constantsStatement levels word ctx o).HoldsInHeader text o [] :=
  .behind fun _ => .leave (yieldsRow_commaList (yieldsRow_constant levels ctx)) fun declared =>
    holdsInHeader_closeStatement o (List.filterMap_eq_flatMap_toList _ declared)

/-! ## Blocks -/

section

variable {body : BodyParser} [∀ ctx region, (body ctx region).Flows] (ctx : Context)

theorem holdsInHeader_simpleBlock (k : Keyword) {kind : NodeKind} (h : kind.expressions = es) :
    (simpleBlock body ctx o k kind).HoldsInHeader text o es :=
  holdsInHeader_headerStop o fun _ hrow => .behind fun _ => .behind fun _ =>
    holdsInHeader_closeNode o _ (h ▸ hrow)

theorem holdsInHeader_clauseBody {kind : NodeKind} (h : kind.expressions = es) :
    (clauseBody body ctx o kind).HoldsInHeader text o es :=
  holdsInHeader_headerStop o fun _ hrow => .behind fun _ => holdsInHeader_closeNode o _ (h ▸ hrow)

theorem holdsInHeader_ifStatement : (ifStatement levels body ctx o).HoldsInHeader text o [] :=
  .leave (yieldsRow_expectExpression levels) fun _ => .behind fun _ =>
    holdsInHeader_headerStop o fun _ hrow => .behind fun _ => .behind fun _ => .behind fun _ =>
      holdsInHeader_closeNode o _ hrow

theorem holdsInHeader_whileStatement : (whileStatement levels body ctx o).HoldsInHeader text o [] :=
  .leave (yieldsRow_expectExpression levels) fun _ => holdsInHeader_simpleBlock o _ .WHILE rfl

theorem holdsInHeader_forStatement : (forStatement levels body ctx o).HoldsInHeader text o [] := by
  have hrest (counter : Option Designator) : HoldsInHeader text o [] (do
      let first ← expressionBehind levels (expect (.mark .equal))
      let last ← expressionBehind levels (expect (.keyword .TO))
      let step ← expressionBehind levels (optional (.keyword .STEP))
      simpleBlock body (ctx.insideLoop .FOR) o .FOR (.forLoop counter first last step)) :=
    .leave (yieldsRow_expressionBehind levels) fun _ =>
      .leave (yieldsRow_expressionBehind levels) fun _ =>
      .leave (yieldsRow_expressionBehind levels) fun _ => holdsInHeader_simpleBlock o _ .FOR rfl
  unfold forStatement
  dsimp only
  exact .behind fun counter => .ite (.behind fun _ => hrest counter) (hrest counter)

theorem holdsInHeader_foreachStatement :
    (foreachStatement levels body ctx o).HoldsInHeader text o [] := by
  have hloop (cursor : Option String) (arguments : List Expression) (into : List Designator)
      (reoptimization : Bool) : (cursorLoop body ctx o (cursor.getD "")
        (.foreachLoop cursor arguments into reoptimization)).HoldsInHeader text o arguments :=
    holdsInHeader_headerStop o fun _ hrow => .behind fun _ => .behind fun _ => .behind fun _ =>
      holdsInHeader_closeNode o _ hrow
  unfold foreachStatement
  dsimp only
  refine .behind fun cursor => .leave (yieldsRow_listBehind levels _) fun arguments =>
    .behind fun into => .behind fun _ => .ite ?_ ?_
  · exact .behind fun _ => .behind fun _ => hloop ..
  · exact hloop ..

theorem holdsInHeader_caseClause (before : List Node) :
    (caseClause levels body ctx before o).HoldsInHeader text o [] := by
  unfold caseClause
  dsimp only
  refine .ite ?_ (.ite ?_ ?_)
  · exact .leave (yieldsRow_expressionList levels) fun _ => holdsInHeader_clauseBody o ctx rfl
  · exact .behind fun _ => holdsInHeader_clauseBody o ctx rfl
  · exact holdsInHeader_clauseBody o ctx rfl

theorem holdsInHeader_caseStatement : (caseStatement levels body ctx o).HoldsInHeader text o [] :=
  .leave (yieldsRow_expression? levels) fun _ => holdsInHeader_headerStop o fun _ hrow =>
    .behind fun _ =>
    .behind fun _ => holdsInHeader_closeNode o _ hrow

/-- The name and the help of a clause are laid out in this order. -/
theorem behindRow_menuClauseHeader (first : Kind) :
    (menuClauseHeader levels first).BehindRow text lo []
    fun clause hi => Row lo hi (NodeKind.menuOption clause).expressions := by
  have hcommand : (commandClause levels).BehindRow text lo []
      fun clause hi => Row lo hi (NodeKind.menuOption clause).expressions := by
    unfold commandClause
    dsimp only
    refine .behind fun keys => .leave (yieldsRow_expression? levels) fun name => .ite ?_ ?_
    · exact .leave (yieldsRow_expressionOnLine? levels) fun _ => .pure fun _ _ => id
    · exact .leave (.pure rfl) fun _ => .pure fun _ _ => id
  refine .ite hcommand (.behind fun t => ?_)
  split
  · exact .behind fun _ => .pure fun _ _ => id
  · exact .leave (yieldsRow_expectExpression levels) fun _ => .pure fun _ _ => id
  · exact .pure fun _ _ => id

theorem holdsInHeader_menuClause : (menuClause levels body ctx o).HoldsInHeader text o [] :=
  .bind (behindRow_menuClauseHeader levels _) fun _ => holdsInHeader_clauseBody o ctx rfl

theorem holdsInHeader_menuStatement :
    (menuStatement levels body ctx o).HoldsInHeader text o [] := by
  have hblock (title : Option Expression) :
      (menuBlock levels body ctx o title).HoldsInHeader text o title.toList := by
    unfold menuBlock
    dsimp only
    refine holdsInHeader_headerStop o fun _ hrow => .behind fun _ => .ite ?_ ?_
    · exact .behind fun _ => holdsInHeader_closeNode o _ hrow
    · exact .behind fun _ => .behind fun _ => holdsInHeader_closeNode o _ hrow
  unfold menuStatement
  dsimp only
  exact .behind fun _ => .ite (.leave (.pure rfl) hblock)
    (.leave (yieldsRow_expression? levels) hblock)

end

end

/-! ## Nodes -/

theorem expressions_of_form {kind : NodeKind} (hform : kind.form? = some f)
    (hf : f ∈ [.vars, .types, .setNull, .continueLoop, .whenever, .tryBlock, .importModule,
      .database, .globals, .main, .function]) : kind.expressions = [] := by
  cases kind <;> first
    | rfl
    | exact absurd (Option.some.inj hform ▸ hf) (by decide)
    | cases hform

/-- What a node that is read behind its first token holds stands in its header. -/
theorem Reads.inHeader (h : Reads o s n t) (hat : At text s) (hopens : o.token.start < s.place) :
    n.InHeader := by
  have hholdsInHeader {p : Parser Node} (hp : p.HoldsInHeader text o []) (hrun : p.run s = (n, t)) :
      n.InHeader := by
    have hresult := hp.result s hat hopens (.nil _ _)
    rwa [hrun] at hresult
  have hnothing (hempty : n.kind.expressions = []) : n.InHeader := by
    unfold Node.InHeader
    rw [hempty]
    exact .nil _ _
  cases h with
  | @statement levels f word ctx hrun hform =>
    unfold formWith at hrun
    cases f with
    | constants => exact hholdsInHeader (holdsInHeader_constantsStatement levels o word ctx) hrun
    | assignment => exact hholdsInHeader (holdsInHeader_assignmentStatement levels o) hrun
    | call => exact hholdsInHeader (holdsInHeader_callStatement levels o) hrun
    | returnValues => exact hholdsInHeader (holdsInHeader_returnStatement levels o ctx) hrun
    | output => exact hholdsInHeader (holdsInHeader_outputStatement levels o word) hrun
    | sleep => exact hholdsInHeader (holdsInHeader_sleepStatement levels o) hrun
    | exit => exact hholdsInHeader (holdsInHeader_exitStatement levels o) hrun
    | prepare => exact hholdsInHeader (holdsInHeader_prepareStatement levels o ctx) hrun
    | declare => exact hholdsInHeader (holdsInHeader_declareStatement levels o ctx) hrun
    | cursor => exact hholdsInHeader (holdsInHeader_cursorStatement levels o word) hrun
    | run => exact hholdsInHeader (holdsInHeader_runStatement levels o) hrun
    | ifThen => exact hholdsInHeader (holdsInHeader_ifStatement levels o ctx) hrun
    | whileLoop => exact hholdsInHeader (holdsInHeader_whileStatement levels o ctx) hrun
    | forLoop => exact hholdsInHeader (holdsInHeader_forStatement levels o ctx) hrun
    | foreachLoop => exact hholdsInHeader (holdsInHeader_foreachStatement levels o ctx) hrun
    | caseOf => exact hholdsInHeader (holdsInHeader_caseStatement levels o ctx) hrun
    | menu => exact hholdsInHeader (holdsInHeader_menuStatement levels o ctx) hrun
    | menuControl => exact hholdsInHeader (holdsInHeader_menuControlStatement levels o word) hrun
    | _ => exact hnothing (expressions_of_form hform (by decide))
  | caseClause hrun => exact hholdsInHeader (holdsInHeader_caseClause _ _ _ _) hrun
  | menuClause hrun => exact hholdsInHeader (holdsInHeader_menuClause _ _ _) hrun
  | branch hkind hrun =>
    refine hnothing ?_
    rw [kind_of_branch hrun]
    rcases hkind with rfl | rfl <;> rfl

end Parser

end FourGL
