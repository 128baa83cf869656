import FourGL.Proofs.Grammar.NodesRead
import FourGL.Proofs.Grammar.Wholeness

/-!
# What the nodes of clean runs hold

Every form of a statement, read cleanly, makes a node without placeholders: the expressions and
designators that it holds are whole, if the limit of nesting was not reached before, and so are the
types of the names that it declares, in any case.
-/

namespace FourGL

open FourGL.Parser FourGL.ParseState

set_option synthInstance.maxSize 512

/-! ## What nodes hold -/

/-- The designators that a node holds itself. -/
def NodeKind.designators : NodeKind → List Designator
  | .assignment target _ => target.toList
  | .call _ returning => returning
  | .setNull targets => targets
  | .cursor _ _ _ _ into | .foreachLoop _ _ into _ _ => into
  | .run _ returning _ => returning.toList
  | .forLoop counter _ _ _ => counter.toList
  | _ => []

/-- No operand is missing in the expressions and designators of a node. -/
structure NodeKind.OperandsWhole (kind : NodeKind) : Prop where
  expressions : ∀ e ∈ kind.expressions, e.isWhole = true
  designators : ∀ d ∈ kind.designators, d.isWhole = true

def Declaration.type? : Declaration → Option TypeReference
  | .variable v => some v.type
  | .constant c => c.type
  | .type t => some t.type

def Declaration.value? : Declaration → Option Expression
  | .constant c => c.value
  | _ => none

/-- No type is missing in the type of the declaration. -/
def Declaration.TypeWhole (d : Declaration) : Prop :=
  ∀ type ∈ d.type?.toList, type.isWhole = true

/-- No operand is missing in the value of the declaration. -/
def Declaration.ValueWhole (d : Declaration) : Prop := ∀ e ∈ d.value?.toList, e.isWhole = true

namespace Parser

theorem ensures_closeStatement {P : NodeKind → Prop} (o : Opening)
    {kind : NodeKind} (h : P kind) :
    (closeStatement o kind).Ensures C fun n => P n.kind :=
  ⟨fun _ hclose => (closeStatement_eq hclose.run_eq).2.1 ▸ h⟩

theorem ensures_closeNode {P : NodeKind → Prop} (o : Opening) (header : Nat) {kind : NodeKind}
    (nodes : List Node) (h : P kind) :
    (closeNode o header kind nodes).Ensures C fun n => P n.kind :=
  ⟨fun _ hclose => (closeNode_eq hclose.run_eq).2.1 ▸ h⟩

section

variable (levels : Nat) (o : Opening)

theorem ensures_optionalList :
    (optionalList levels).Ensures True fun es => ∀ e ∈ es, e.isWhole = true :=
  .behind fun _ => .ite (ensures_expressionList levels) (.pure nofun)

theorem ensures_listBehind (k : Keyword) :
    (listBehind levels k).Ensures True fun es => ∀ e ∈ es, e.isWhole = true :=
  .behind fun _ => .ite (ensures_expressionList levels) (.pure nofun)

theorem ensures_designatorsBehind (k : Keyword) :
    (designatorsBehind levels k).Ensures True fun ds => ∀ d ∈ ds, d.isWhole = true :=
  .behind fun _ => .ite (ensures_designatorList levels) (.pure nofun)

theorem ensures_expressionOnLine? :
    (expressionOnLine? levels).Ensures True fun e => ∀ e' ∈ e.toList, e'.isWhole = true :=
  .behind fun _ => .ite (ensures_expression? levels) (.pure nofun)

theorem ensures_someExpression :
    (some <$> expectExpression levels).Ensures True fun e => ∀ e' ∈ e.toList,
    e'.isWhole = true :=
  .map (ensures_expectExpression levels).singleton

theorem ensures_expressionBehind {follows : Parser Bool} [follows.KeepsNames] :
    (expressionBehind levels follows).Ensures True fun e => ∀ e' ∈ e.toList,
    e'.isWhole = true :=
  .behind fun _ => .ite (ensures_someExpression levels) (.pure nofun)

theorem ensures_assignmentStatement :
    (assignmentStatement levels o).Ensures True (·.kind.OperandsWhole) := by
  unfold assignmentStatement
  dsimp only
  refine .bind (ensures_expectDesignator levels) fun target htarget => .behind fun _ => .ite ?_ ?_
  · exact .bind (ensures_expressionList levels) fun values hvalues =>
      ensures_closeStatement o ⟨hvalues, htarget⟩
  · exact .bind (.pure nofun) fun values (hvalues : ∀ e ∈ values, e.isWhole = true) =>
      ensures_closeStatement o ⟨hvalues, htarget⟩

theorem ensures_callStatement : (callStatement levels o).Ensures True (·.kind.OperandsWhole) := by
  have hrest {callee : Option Expression} (hcallee : ∀ e ∈ callee.toList, e.isWhole = true) :
      Ensures True (·.kind.OperandsWhole) (do
        let returning ← designatorsBehind levels .RETURNING
        closeStatement o (.call callee returning)) :=
    .bind (ensures_designatorsBehind levels _) fun returning hreturning =>
      ensures_closeStatement o ⟨hcallee, hreturning⟩
  unfold callStatement
  refine .bind (F := fun callee => by dsimp only; split <;> infer_instance)
    (ensures_expression? levels) fun callee hcallee => ?_
  dsimp only
  split
  · exact hrest hcallee
  · exact .error rfl
  · exact .error rfl

theorem ensures_returnStatement (ctx : Context) :
    (returnStatement levels ctx o).Ensures True (·.kind.OperandsWhole) := by
  unfold returnStatement
  refine .bind (F := fun values => by dsimp only; split <;> infer_instance)
    (ensures_optionalList levels) fun values hvalues => ?_
  have hclose : (closeStatement o (.returnValues values)).Ensures True (·.kind.OperandsWhole) :=
    ensures_closeStatement o ⟨hvalues, List.forall_mem_nil _⟩
  dsimp only
  split
  · exact .behind fun _ => hclose
  · exact .ite hclose (.behind fun _ => .behind fun _ => hclose)

theorem ensures_outputStatement (word : Keyword) :
    (outputStatement levels word o).Ensures True (·.kind.OperandsWhole) := by
  have hclose {values place : List Expression} (hvalues : ∀ e ∈ values, e.isWhole = true)
      (hplace : ∀ e ∈ place, e.isWhole = true) :
      (closeStatement o (.output word (values ++ place))).Ensures True (·.kind.OperandsWhole) :=
    ensures_closeStatement o ⟨List.forall_mem_append.mpr ⟨hvalues, hplace⟩, nofun⟩
  unfold outputStatement
  dsimp only
  refine .bind (ensures_optionalList levels) fun values hvalues =>
    .bind (ensures_listBehind levels _) fun place hplace => .behind fun _ => .ite ?_ ?_
  · exact .behind fun _ => .behind fun _ => hclose hvalues hplace
  · exact hclose hvalues hplace

theorem ensures_sleepStatement : (sleepStatement levels o).Ensures True (·.kind.OperandsWhole) :=
  .bind (ensures_expectExpression levels) fun _ hseconds =>
    ensures_closeStatement o ⟨List.forall_mem_singleton.mpr hseconds, nofun⟩

theorem ensures_setNullStatement :
    (setNullStatement levels o).Ensures True (·.kind.OperandsWhole) := by
  unfold setNullStatement
  dsimp only
  refine .bind (ensures_designatorList levels) fun targets htargets => .behind fun _ => .ite ?_ ?_
  · exact .behind fun _ => ensures_closeStatement o ⟨nofun, htargets⟩
  · exact ensures_closeStatement o ⟨nofun, htargets⟩

theorem ensures_exitStatement : (exitStatement levels o).Ensures True (·.kind.OperandsWhole) := by
  have hclose (target : Option Keyword) (value : Option Expression)
      (hvalue : ∀ e ∈ value.toList, e.isWhole = true) :
      (closeStatement o (.exit target value)).Ensures True (·.kind.OperandsWhole) :=
    ensures_closeStatement o ⟨hvalue, nofun⟩
  unfold exitStatement
  dsimp only
  refine .behind fun target => .ite ?_ ?_
  · exact .bind (ensures_expressionOnLine? levels) (hclose target)
  · exact .bind (.pure nofun) (hclose target)

theorem ensures_continueStatement : (continueStatement o).Ensures True (·.kind.OperandsWhole) :=
  .behind fun _ => ensures_closeStatement o ⟨nofun, nofun⟩

theorem ensures_prepareStatement (ctx : Context) :
    (prepareStatement levels ctx o).Ensures True (·.kind.OperandsWhole) := by
  have hclose (name : Option (String × Span)) (source : Option Expression)
      (hsource : ∀ e ∈ source.toList, e.isWhole = true) :
      (closeStatement o (.prepare (name.map (·.1)) source)).Ensures True (·.kind.OperandsWhole) :=
    ensures_closeStatement o ⟨hsource, nofun⟩
  unfold prepareStatement
  dsimp only
  refine .behind fun name => .behind fun _ => .behind fun _ => .ite ?_ ?_
  · exact .bind (ensures_someExpression levels) (hclose name)
  · exact .bind (.pure nofun) (hclose name)

theorem ensures_cursorSource :
    (cursorSource levels).Ensures True fun source => ∀ e ∈ source.2.toList,
    e.isWhole = true := by
  refine .behind fun _ => .ite (.behind fun _ => .pure nofun)
    (.behind fun _ => .ite ?_ (.error rfl))
  exact .bind (ensures_expectExpression levels) fun e he => .pure (List.forall_mem_singleton.mpr he)

theorem ensures_declareStatement (ctx : Context) :
    (declareStatement levels ctx o).Ensures True (·.kind.OperandsWhole) :=
  .behind fun _ => .behind fun _ => .behind fun _ => .behind fun _ => .behind fun _ =>
    .bind (ensures_cursorSource levels) fun _ hsource =>
      ensures_closeStatement o ⟨hsource, nofun⟩

theorem ensures_cursorStatement (word : Keyword) :
    (cursorStatement levels word o).Ensures True (·.kind.OperandsWhole) := by
  have hclose (direction : Option Keyword) (name : Option String) {arguments : List Expression}
      (harguments : ∀ e ∈ arguments, e.isWhole = true) (into : List Designator)
      (hinto : ∀ d ∈ into, d.isWhole = true) :
      (closeStatement o (.cursor word name direction arguments into)).Ensures True
        (·.kind.OperandsWhole) :=
    ensures_closeStatement o ⟨harguments, hinto⟩
  have hinto (direction : Option Keyword) (name : Option String) (arguments : List Expression)
      (harguments : ∀ e ∈ arguments, e.isWhole = true) : Ensures True (·.kind.OperandsWhole)
      (if word = .FETCH ∨ word = .EXECUTE then do
        let into ← designatorsBehind levels .INTO
        closeStatement o (.cursor word name direction arguments into)
      else do
        let into ← pure []
        closeStatement o (.cursor word name direction arguments into)) :=
    .ite (.bind (ensures_designatorsBehind levels _) (hclose direction name harguments))
      (.bind (.pure nofun) (hclose direction name harguments))
  unfold cursorStatement
  dsimp only
  refine .ite ?_ ?_ <;>
  exact .behind fun direction => .behind fun name =>
    .ite (.bind (ensures_listBehind levels _) (hinto direction name))
      (.bind (.pure nofun) (hinto direction name))

theorem ensures_wheneverStatement : (wheneverStatement o).Ensures True (·.kind.OperandsWhole) :=
  .behind fun _ => .behind fun _ => ensures_closeStatement o ⟨nofun, nofun⟩

theorem ensures_runStatement : (runStatement levels o).Ensures True (·.kind.OperandsWhole) := by
  have hrest {command : Expression} (hcommand : command.isWhole = true)
      (returning : Option Designator) (hreturning : ∀ d ∈ returning.toList, d.isWhole = true) :
      Ensures True (·.kind.OperandsWhole) (do
        let withoutWaiting ← both (optional (.keyword .WITHOUT)) (expect (.keyword .WAITING))
        closeStatement o (.run (some command) returning withoutWaiting)) :=
    .behind fun _ => ensures_closeStatement o ⟨List.forall_mem_singleton.mpr hcommand,
      hreturning⟩
  unfold runStatement
  dsimp only
  refine .bind (ensures_expectExpression levels) fun command hcommand => .behind fun _ => .ite ?_ ?_
  · exact .bind (ensures_expectDesignator levels) (hrest hcommand)
  · exact .bind (.pure nofun) (hrest hcommand)

theorem ensures_menuControlStatement (word : Keyword) :
    (menuControlStatement levels word o).Ensures True (·.kind.OperandsWhole) := by
  refine .behind fun _ => .ite ?_ (.behind fun _ => .ite ?_ ?_)
  · exact .bind (ensures_expectExpression levels) fun option hoption =>
      ensures_closeStatement o ⟨List.forall_mem_singleton.mpr hoption, nofun⟩
  · exact ensures_closeStatement o ⟨nofun, nofun⟩
  · exact .bind (ensures_expressionList levels) fun options hoptions =>
      ensures_closeStatement o ⟨hoptions, nofun⟩

/-! ## Declarations -/

theorem ensures_variablesStatement (word : Keyword) (ctx : Context) :
    (variablesStatement word ctx o).Ensures True (·.kind.OperandsWhole) :=
  .behind fun _ => .behind fun _ => .behind fun _ => ensures_closeStatement o ⟨nofun, nofun⟩

theorem ensures_typesStatement (word : Keyword) (ctx : Context) :
    (typesStatement word ctx o).Ensures True (·.kind.OperandsWhole) :=
  .behind fun _ => .behind fun _ => ensures_closeStatement o ⟨nofun, nofun⟩

theorem ensures_constant (ctx : Context) : (constant levels ctx).Ensures C fun c =>
    ∀ c' ∈ c.toList, (Declaration.constant c').TypeWhole ∧
      (C → (Declaration.constant c').ValueWhole) := by
  let P (c : Option Constant) : Prop := ∀ c' ∈ c.toList,
    (Declaration.constant c').TypeWhole ∧ (C → (Declaration.constant c').ValueWhole)
  have hdeclare (name : String) (span : Span) {type : Option TypeReference}
      (htype : ∀ type' ∈ type.toList, type'.isWhole = true) (value : Option Expression)
      (hvalue : C → ∀ e ∈ value.toList, e.isWhole = true) : Ensures C P (do
        declareName ctx (.constant ⟨name, span, type, value⟩)
        return some ⟨name, span, type, value⟩) :=
    .behind fun _ => .pure (List.forall_mem_singleton.mpr ⟨htype, hvalue⟩)
  have hvalue (name : String) (span : Span) (type : Option TypeReference)
      (htype : ∀ type' ∈ type.toList, type'.isWhole = true) : Ensures C P (do
      if ← expect (.mark .equal) then do
        let value ← some <$> expectExpression levels
        declareName ctx (.constant ⟨name, span, type, value⟩)
        return some ⟨name, span, type, value⟩
      else do
        let value ← pure none
        declareName ctx (.constant ⟨name, span, type, value⟩)
        return some ⟨name, span, type, value⟩) :=
    .behind fun _ => .ite (.bind (ensures_someExpression levels).given (hdeclare name span htype))
      (.bind (.pure fun _ => nofun) (hdeclare name span htype))
  unfold constant
  dsimp only
  refine .behind (F := fun name => ?_) fun name => ?_
  · cases name with
    | none => infer_instance
    | some name => exact .bind fun found => by split <;> infer_instance
  · cases name with
    | none => exact .pure nofun
    | some name =>
      refine .behind (F := fun found => by split <;> infer_instance) fun _ => .ite ?_ ?_
      · exact .bind (.pure nofun) (hvalue _ _)
      · exact .bind (.map ensures_typeReference.singleton) (hvalue _ _)

theorem ensures_constantsStatement (word : Keyword) (ctx : Context) :
    (constantsStatement levels word ctx o).Ensures True (·.kind.OperandsWhole) := by
  refine .behind fun _ => .bind (.commaList (ensures_constant levels ctx))
      fun constants hconstants =>
    ensures_closeStatement o ⟨fun e he => ?_, nofun⟩
  obtain ⟨c, hc, he⟩ := List.mem_filterMap.mp he
  exact (hconstants c hc).2 trivial e (Option.mem_toList.mpr he)

theorem typeWhole_variablesStatement (word : Keyword) (ctx : Context) :
    (variablesStatement word ctx o).Ensures C fun n => ∀ d ∈ n.kind.declarations,
    d.TypeWhole := by
  refine .behind fun _ => .bind (ensures_variableGroups ensures_typeReference) fun vars hvars =>
    .behind fun _ => ensures_closeStatement
      (P := fun kind => ∀ d ∈ kind.declarations, d.TypeWhole) o
      fun d hd => ?_
  obtain ⟨v, hv, rfl⟩ := List.mem_map.mp hd
  exact List.forall_mem_singleton.mpr (hvars v hv)

theorem typeWhole_constantsStatement (word : Keyword) (ctx : Context) :
    (constantsStatement levels word ctx o).Ensures C
      fun n => ∀ d ∈ n.kind.declarations, d.TypeWhole := by
  refine .behind fun _ => .bind (.commaList (ensures_constant levels ctx))
      fun constants hconstants =>
    ensures_closeStatement (P := fun kind => ∀ d ∈ kind.declarations, d.TypeWhole)
      o fun d hd => ?_
  obtain ⟨c, hc, rfl⟩ := List.mem_map.mp hd
  exact (hconstants c hc).1

theorem typeWhole_typesStatement (word : Keyword) (ctx : Context) :
    (typesStatement word ctx o).Ensures C fun n => ∀ d ∈ n.kind.declarations, d.TypeWhole := by
  have htype : (typeName ctx).Ensures C fun t =>
      ∀ t' ∈ t.toList, (Declaration.type t').TypeWhole := by
    refine .behind (F := fun name => by cases name <;> infer_instance) fun name => ?_
    cases name with
    | none => exact .pure nofun
    | some name =>
      exact .bind ensures_typeReference fun type hwhole => .behind fun _ =>
        .pure (List.forall_mem_singleton.mpr (List.forall_mem_singleton.mpr hwhole))
  refine .behind fun _ => .bind (.commaList htype) fun types htypes =>
    ensures_closeStatement (P := fun kind => ∀ d ∈ kind.declarations, d.TypeWhole)
      o fun d hd => ?_
  obtain ⟨t, ht, rfl⟩ := List.mem_map.mp hd
  exact htypes t ht

theorem ensures_importStatement : (importStatement o).Ensures True (·.kind.OperandsWhole) := by
  refine .behind (F := fun kind => .bind fun name => by cases name <;> infer_instance) fun kind =>
    .behind (F := fun name => by cases name <;> infer_instance) fun name => ?_
  cases name with
  | none => exact ensures_closeStatement o ⟨nofun, nofun⟩
  | some name => exact .behind fun _ => .behind fun _ => ensures_closeStatement o ⟨nofun, nofun⟩

theorem ensures_databaseStatement (word : Keyword) :
    (databaseStatement word o).Ensures True (·.kind.OperandsWhole) :=
  .behind fun _ => ensures_closeStatement o ⟨nofun, nofun⟩

end

/-! ## Blocks -/

section

variable (levels : Nat) {body : BodyParser}
    [∀ ctx region, (body ctx region).Flows] (ctx : Context)
  (o : Opening)

theorem ensures_simpleBlock {P : NodeKind → Prop} (k : Keyword) {kind : NodeKind} (h : P kind) :
    (simpleBlock body ctx o k kind).Ensures C fun n => P n.kind :=
  .behind fun _ => .behind fun _ => .behind fun _ => ensures_closeNode o _ _ h

theorem ensures_branchedBlock {P : NodeKind → Prop} (k word : Keyword)
    {kind : NodeKind} (h : P kind) (branchKind : NodeKind) :
    (branchedBlock body ctx o k word kind branchKind).Ensures C fun n => P n.kind :=
  .behind fun _ => .behind fun _ => .behind fun _ => .behind fun _ => ensures_closeNode o _ _ h

theorem ensures_clauseBody {P : NodeKind → Prop} {kind : NodeKind} (h : P kind) :
    (clauseBody body ctx o kind).Ensures C fun n => P n.kind :=
  .behind fun _ => .behind fun _ => ensures_closeNode o _ _ h

theorem ensures_cursorLoop {P : NodeKind → Prop} (cursor : String)
    {kind : List Cursor → NodeKind} (h : ∀ redeclared, P (kind redeclared)) :
    (cursorLoop body ctx o cursor kind).Ensures C fun n => P n.kind :=
  .behind fun _ => .behind fun _ => .behind fun _ => .behind fun _ => ensures_closeNode o _ _ (h _)

theorem ensures_routineBlock {P : NodeKind → Prop} (header : Nat) (k : Keyword)
    (returns : Option Owner) {kind : Holding → NodeKind} (h : ∀ held, P (kind held)) :
    (routineBlock body ctx o header k returns kind).Ensures C fun n => P n.kind :=
  .behind fun _ => .behind fun _ => ensures_closeNode o _ _ (h _)

theorem ensures_ifStatement :
    (ifStatement levels body ctx o).Ensures True (·.kind.OperandsWhole) :=
  .bind (ensures_expectExpression levels) fun _ hcondition => .behind fun _ =>
    ensures_branchedBlock ctx o .IF .ELSE
      ⟨List.forall_mem_singleton.mpr hcondition, nofun⟩ .elseClause

theorem ensures_whileStatement :
    (whileStatement levels body ctx o).Ensures True (·.kind.OperandsWhole) :=
  .bind (ensures_expectExpression levels) fun _ hcondition =>
    ensures_simpleBlock _ o .WHILE ⟨List.forall_mem_singleton.mpr hcondition, nofun⟩

theorem ensures_forStatement :
    (forStatement levels body ctx o).Ensures True (·.kind.OperandsWhole) := by
  have hrest {counter : Option Designator} (hcounter : ∀ d ∈ counter.toList, d.isWhole = true) :
      Ensures True (·.kind.OperandsWhole) (do
        let first ← expressionBehind levels (expect (.mark .equal))
        let last ← expressionBehind levels (expect (.keyword .TO))
        let step ← expressionBehind levels (optional (.keyword .STEP))
        simpleBlock body (ctx.insideLoop .FOR) o .FOR (.forLoop counter first last step)) :=
    .bind (ensures_expressionBehind levels) fun first hfirst =>
      .bind (ensures_expressionBehind levels) fun last hlast =>
        .bind (ensures_expressionBehind levels) fun step hstep =>
          ensures_simpleBlock _ o .FOR ⟨List.forall_mem_append.mpr
            ⟨List.forall_mem_append.mpr ⟨hfirst, hlast⟩, hstep⟩, hcounter⟩
  unfold forStatement
  dsimp only
  exact .bind (ensures_designator? levels) fun counter hcounter =>
    .ite (.error rfl) (hrest hcounter)

theorem ensures_foreachStatement :
    (foreachStatement levels body ctx o).Ensures True (·.kind.OperandsWhole) := by
  unfold foreachStatement
  dsimp only
  refine .behind fun cursor => .bind (ensures_listBehind levels _) fun arguments harguments =>
    .bind (ensures_designatorsBehind levels _) fun into hinto => .behind fun _ => .ite ?_ ?_
  · exact .behind fun _ => .behind fun _ =>
      ensures_cursorLoop ctx o _ fun _ => ⟨harguments, hinto⟩
  · exact ensures_cursorLoop ctx o _ fun _ => ⟨harguments, hinto⟩

theorem ensures_caseClause (before : List Node) :
    (caseClause levels body ctx before o).Ensures True (·.kind.OperandsWhole) := by
  unfold caseClause
  dsimp only
  refine .ite ?_ (.ite ?_ ?_)
  · exact .bind (ensures_expressionList levels) fun conditions hconditions =>
      ensures_clauseBody ctx o ⟨hconditions, nofun⟩
  · exact .behind fun _ => ensures_clauseBody ctx o ⟨nofun, nofun⟩
  · exact ensures_clauseBody ctx o ⟨nofun, nofun⟩

theorem undeclared_caseClause (before : List Node) :
    (caseClause levels body ctx before o).Ensures C (·.kind.declarations = []) := by
  let P (kind : NodeKind) : Prop := kind.declarations = []
  unfold caseClause
  dsimp only
  refine .ite (.behind fun _ => ?_) (.ite (.behind fun _ => ?_) ?_) <;>
  exact ensures_clauseBody (P := P) ctx o rfl

theorem ensures_caseStatement :
    (caseStatement levels body ctx o).Ensures True (·.kind.OperandsWhole) := by
  refine .bind (ensures_expression? levels) fun subject hsubject => .behind fun _ =>
      .behind fun _ =>
    .behind fun _ => ensures_closeNode o _ _ ⟨hsubject, nofun⟩

theorem ensures_commandClause :
    (commandClause levels).Ensures True fun clause =>
    (NodeKind.menuOption clause).OperandsWhole := by
  have hclause (keys : List String) {name : Option Expression}
      (hname : ∀ e ∈ name.toList, e.isWhole = true) (help : Option Expression)
      (hhelp : ∀ e ∈ help.toList, e.isWhole = true) :
      (NodeKind.menuOption (.command keys name help)).OperandsWhole :=
    ⟨List.forall_mem_append.mpr ⟨hname, hhelp⟩, nofun⟩
  unfold commandClause
  dsimp only
  refine .behind fun keys => .bind (ensures_expression? levels) fun name hname => .ite ?_ ?_
  · exact .bind (ensures_expressionOnLine? levels) fun help hhelp =>
      .pure (hclause keys hname help hhelp)
  · exact .bind (.pure nofun) fun help hhelp => .pure (hclause keys hname help hhelp)

theorem ensures_menuClauseHeader (first : Kind) : (menuClauseHeader levels first).Ensures True
    fun clause => (NodeKind.menuOption clause).OperandsWhole := by
  refine .ite (ensures_commandClause levels)
    (.behind (F := fun t => by split <;> infer_instance) fun t => ?_)
  split
  · exact .behind fun _ => .pure ⟨List.forall_mem_nil _, List.forall_mem_nil _⟩
  · exact .bind (ensures_expectExpression levels) fun _ hseconds =>
      .pure ⟨List.forall_mem_singleton.mpr hseconds, List.forall_mem_nil _⟩
  · exact .pure ⟨List.forall_mem_nil _, List.forall_mem_nil _⟩

theorem ensures_menuClause : (menuClause levels body ctx o).Ensures True (·.kind.OperandsWhole) :=
  .bind (ensures_menuClauseHeader levels _) fun _ hclause => ensures_clauseBody ctx o hclause

theorem undeclared_menuClause :
    (menuClause levels body ctx o).Ensures C (·.kind.declarations = []) :=
  .behind fun _ => ensures_clauseBody (P := fun kind => kind.declarations = []) ctx o rfl

theorem ensures_menuStatement :
    (menuStatement levels body ctx o).Ensures True (·.kind.OperandsWhole) := by
  have hblock (title : Option Expression) (htitle : ∀ e ∈ title.toList, e.isWhole = true) :
      (menuBlock levels body ctx o title).Ensures True (·.kind.OperandsWhole) := by
    unfold menuBlock
    dsimp only
    refine .behind fun _ => .behind fun _ => .ite ?_ ?_
    · exact .behind fun _ => ensures_closeNode o _ _ ⟨htitle, nofun⟩
    · exact .behind fun _ => .behind fun _ => ensures_closeNode o _ _ ⟨htitle, nofun⟩
  unfold menuStatement
  dsimp only
  exact .behind fun _ => .ite (.bind (.pure nofun) hblock)
    (.bind (ensures_expression? levels) hblock)

theorem ensures_globalsMember : (globalsMember body ctx o).Ensures True (·.kind.OperandsWhole) :=
  .behind fun _ => .ite (.behind fun _ => ensures_closeStatement o ⟨nofun, nofun⟩)
    (.behind fun _ => .behind fun _ => .behind fun _ => .behind fun _ =>
      ensures_closeNode o _ _ ⟨nofun, nofun⟩)

theorem ensures_mainMember (word : Keyword) :
    (mainMember body word ctx o).Ensures True (·.kind.OperandsWhole) := by
  have hrest {header : Nat} : Ensures True (·.kind.OperandsWhole) (do
      modifyNames fun n => { n with hasMain := true }
      routineBlock body ctx o header .MAIN none fun held => .main held.scope) :=
    .behind fun _ => ensures_routineBlock ctx o _ _ _ fun _ => ⟨nofun, nofun⟩
  unfold mainMember
  dsimp only
  refine .behind (F := fun access => by split <;> infer_instance) fun _ => .ite ?_ ?_
  · exact .behind fun _ => .behind fun _ => .ite (.behind fun _ => hrest) hrest
  · exact .behind fun _ => .behind fun _ => .behind fun _ => .ite (.behind fun _ => hrest) hrest

theorem ensures_functionMember (word : Keyword) :
    (functionMember body word ctx o).Ensures True (·.kind.OperandsWhole) := by
  unfold functionMember
  dsimp only
  refine .behind fun _ => .behind fun _ => .behind fun _ => .behind fun _ => .behind fun _ =>
    .ite ?_ ?_
  · exact .behind fun _ => ensures_routineBlock ctx o _ _ _ fun _ => ⟨nofun, nofun⟩
  · exact ensures_routineBlock ctx o _ _ _ fun _ => ⟨nofun, nofun⟩

theorem ensures_formWith (form : Form) (word : Keyword) :
    (formWith levels body form word ctx o).Ensures True (·.kind.OperandsWhole) := by
  unfold formWith
  cases form with
  | vars => exact ensures_variablesStatement o word ctx
  | constants => exact ensures_constantsStatement levels o word ctx
  | types => exact ensures_typesStatement o word ctx
  | assignment => exact ensures_assignmentStatement levels o
  | call => exact ensures_callStatement levels o
  | returnValues => exact ensures_returnStatement levels o ctx
  | output => exact ensures_outputStatement levels o word
  | sleep => exact ensures_sleepStatement levels o
  | setNull => exact ensures_setNullStatement levels o
  | exit => exact ensures_exitStatement levels o
  | continueLoop => exact ensures_continueStatement o
  | prepare => exact ensures_prepareStatement levels o ctx
  | declare => exact ensures_declareStatement levels o ctx
  | cursor => exact ensures_cursorStatement levels o word
  | whenever => exact ensures_wheneverStatement o
  | run => exact ensures_runStatement levels o
  | ifThen => exact ensures_ifStatement levels ctx o
  | whileLoop => exact ensures_whileStatement levels ctx o
  | forLoop => exact ensures_forStatement levels ctx o
  | foreachLoop => exact ensures_foreachStatement levels ctx o
  | caseOf => exact ensures_caseStatement levels ctx o
  | tryBlock => exact ensures_branchedBlock ctx o .TRY .CATCH ⟨nofun, nofun⟩ .catchClause
  | menu => exact ensures_menuStatement levels ctx o
  | importModule => exact ensures_importStatement o
  | database => exact ensures_databaseStatement o word
  | globals => exact ensures_globalsMember ctx o
  | main => exact ensures_mainMember ctx o word
  | function => exact ensures_functionMember ctx o word
  | menuControl => exact ensures_menuControlStatement levels o word

end

theorem kind_of_branch (h : (branch body ctx k kind o).run s = ((n, stop), t)) : n.kind = kind := by
  obtain ⟨header, u, -, h⟩ := run_of_bind h
  obtain ⟨children, v, -, h⟩ := run_of_bind h
  obtain ⟨m, w, hclose, h⟩ := run_of_bind h
  obtain ⟨rfl, -⟩ := Prod.mk.inj (Prod.mk.inj h).1
  exact (closeNode_eq hclose).2.1

/-- A node that is read cleanly holds whole operands, if the limit of nesting was not reached. -/
theorem Reads.operandsWhole (h : Reads o s n t) (herrors : t.errorCount = s.errorCount)
    (hlimit : s.limitReported = false) : n.kind.OperandsWhole := by
  cases h with
  | statement hrun =>
    exact (ensures_formWith _ _ _ _ _).result (fun _ => hlimit) ⟨hrun, herrors⟩
  | caseClause hrun =>
    exact (ensures_caseClause _ _ _ _).result (fun _ => hlimit)
      ⟨hrun, herrors⟩
  | menuClause hrun => exact (ensures_menuClause _ _ _).result (fun _ => hlimit) ⟨hrun, herrors⟩
  | branch hkind hrun =>
    rw [kind_of_branch hrun]
    obtain rfl | rfl := hkind <;> exact ⟨nofun, nofun⟩

/-- A node that is read cleanly declares names with whole types. -/
theorem Reads.typeWhole (h : Reads o s n t) (herrors : t.errorCount = s.errorCount) :
    ∀ d ∈ n.kind.declarations, d.TypeWhole := by
  have hnothing (h : n.kind.declarations = []) : ∀ d ∈ n.kind.declarations, d.TypeWhole := by
    rw [h]
    exact nofun
  cases h with
  | @statement levels f word ctx hrun hform =>
    unfold formWith at hrun
    cases f with
    | vars => exact (typeWhole_variablesStatement o word ctx).result False.elim ⟨hrun, herrors⟩
    | constants =>
      exact (typeWhole_constantsStatement levels o word ctx).result False.elim ⟨hrun, herrors⟩
    | types => exact (typeWhole_typesStatement o word ctx).result False.elim ⟨hrun, herrors⟩
    | _ => exact hnothing (declarations_of_form hform (by decide))
  | caseClause hrun =>
    exact hnothing ((undeclared_caseClause _ _ _ _).result False.elim ⟨hrun, herrors⟩)
  | menuClause hrun =>
    exact hnothing ((undeclared_menuClause _ _ _).result False.elim ⟨hrun, herrors⟩)
  | branch hkind hrun =>
    refine hnothing ?_
    rw [kind_of_branch hrun]
    obtain rfl | rfl := hkind <;> rfl

end Parser

end FourGL
