import FourGL.Grammar.Member
import FourGL.Proofs.Grammar.Phrases
import FourGL.Proofs.Tree.Paths

/-!
# Statements without a body

Every statement without a body is read by moves that report only `statementMessages`, up to the
point where its node is closed (`Closes`). All of them are careful but the output statements, which
skip their attributes whatever they are.
-/

namespace FourGL

/-- The form of a statement. Clauses and whole modules have none. -/
def NodeKind.form? : NodeKind → Option Form
  | .importModule .. => some .importModule
  | .database .. => some .database
  | .globalsFile _ | .globals _ => some .globals
  | .main _ => some .main
  | .function .. => some .function
  | .vars .. => some .vars
  | .constants .. => some .constants
  | .types .. => some .types
  | .assignment .. => some .assignment
  | .call .. => some .call
  | .returnValues _ => some .returnValues
  | .output .. => some .output
  | .sleep _ => some .sleep
  | .setNull _ => some .setNull
  | .exit .. => some .exit
  | .continueLoop _ => some .continueLoop
  | .prepare .. => some .prepare
  | .declare .. => some .declare
  | .cursor .. => some .cursor
  | .whenever .. => some .whenever
  | .run .. => some .run
  | .ifThen _ => some .ifThen
  | .whileLoop _ => some .whileLoop
  | .forLoop .. => some .forLoop
  | .foreachLoop .. => some .foreachLoop
  | .caseOf _ => some .caseOf
  | .tryBlock => some .tryBlock
  | .menu _ => some .menu
  | .menuControl .. => some .menuControl
  | .module .. | .elseClause | .whenClause _ | .otherwiseClause | .catchClause |
      .menuOption _ => none

/-- A member of a module that cannot stand in a routine. -/
def Form.isMember : Form → Bool
  | .importModule | .database | .globals | .main | .function => true
  | _ => false

def Form.isDeclaration : Form → Bool
  | .vars | .constants | .types => true
  | _ => false

namespace Parser

open ParseState (Moves careful careful_of_ne careful_of_eq kindAt_read)

/-- What statements and the headers of blocks and clauses can say. What bodies say about tokens that
start nothing, and about blocks that are not closed, is not among it. -/
def statementMessages : Set Message :=
  typeMessages ∪ {.missingCounter, .returnOutsideFunction, .alreadyDefined, .blockKeywordExpected,
    .cursorRefused, .secondOtherwise, .emptyMenu, .secondMain, .misplacedModifier,
      .cursorRedeclared}

theorem typeMessages_subset : typeMessages ⊆ statementMessages := Set.subset_union_left

theorem phraseMessages_subset : phraseMessages ⊆ statementMessages :=
  phraseMessages_subset_of_typeMessages typeMessages_subset

/-! ## Parts of statements -/

theorem careful_optionalList (levels : Nat) : (optionalList levels).Careful statementMessages :=
  .bind careful_peekKind fun _ =>
    .ite (careful_expressionList phraseMessages_subset levels) (.pure _)

theorem careful_listBehind (levels : Nat) {k : Keyword} (hk : k ≠ .END) :
    (listBehind levels k).Careful statementMessages :=
  .bind (careful_optional _ fun h => hk (Kind.keyword.inj h)) fun _ =>
    .ite (careful_expressionList phraseMessages_subset levels) (.pure _)

theorem careful_designatorsBehind (levels : Nat) {k : Keyword} (hk : k ≠ .END) :
    (designatorsBehind levels k).Careful statementMessages :=
  .bind (careful_optional _ fun h => hk (Kind.keyword.inj h)) fun _ =>
    .ite (careful_designatorList phraseMessages_subset levels) (.pure _)

theorem careful_expressionOnLine? (levels : Nat) :
    (expressionOnLine? levels).Careful statementMessages :=
  .bind careful_peek fun _ => .ite (careful_expression? phraseMessages_subset levels) (.pure _)

theorem careful_expressionBehind (levels : Nat) {follows : Parser Bool}
    (h : follows.Careful statementMessages) :
    (expressionBehind levels follows).Careful statementMessages :=
  .bind h fun _ => .ite (.map (careful_expectExpression phraseMessages_subset levels)) (.pure _)

/-- A group goes on as long as there are tokens, whatever they are. -/
theorem runs_skipGroup (s : ParseState) : skipGroup.Runs .univ statementMessages s := by
  have hguard (state : Nat × Bool) : (groupGoesOn state).Careful statementMessages :=
    .ite (.pure _) (careful_when (.bind (careful_nextIs _) fun _ => .pure _))
  unfold skipGroup
  refine .bind
    (.whileNext (fun state s => (hguard state s).free) (fun _ _ _ t _ => ⟨trivial, ?_⟩) _ _)
    fun result t _ => ?_
  · refine .bind (careful_last _).free fun a _ _ => ?_
    split <;> exact .pure _ _
  · refine .ite (fun _ => .pure _ _) fun _ => ?_
    exact (careful_reportNext (phraseMessages_subset (by simp [phraseMessages])) _ t).free

theorem careful_expectTarget (word : Keyword) {allowed : Keyword → Bool}
    (hend : allowed .END = false) : (expectTarget word allowed).Careful statementMessages := by
  have hmissing : Careful statementMessages (do
      reportNext .blockKeywordExpected [word.text]
      return (none : Option Keyword)) :=
    .bind (careful_reportNext (by simp [statementMessages]) _) fun _ => .pure _
  unfold expectTarget
  refine fun s => .bind (careful_peekKind s) fun kind t hpeek => ?_
  have hkind := kindAt_of_peekKind hpeek
  split
  next k =>
    refine .ite (fun hallowed => ?_) fun _ => hmissing t
    refine .bind (.next (careful_of_eq hkind ?_)) fun _ _ _ => .pure _ _
    rintro ⟨⟩
    exact Bool.false_ne_true (hend.symm.trans hallowed)
  next => exact hmissing t

theorem careful_bindCursor (ctx : Context) (name : Option (String × Span)) (kind : CursorKind) :
    (bindCursor ctx name kind).Careful statementMessages := by
  unfold bindCursor
  split
  · exact .pure _
  · refine .bind careful_getNames fun names => ?_
    split
    · exact careful_setNames _
    · exact careful_report (by simp [statementMessages]) _ _

theorem careful_cursorSource (levels : Nat) : (cursorSource levels).Careful statementMessages := by
  refine .bind (careful_optional _ (by decide)) fun _ => .ite
    (.bind (careful_expectNameText phraseMessages_subset) fun _ => .pure _) ?_
  refine .bind (careful_optional _ (by decide)) fun _ => .ite
    (.bind (careful_expectExpression phraseMessages_subset levels) fun _ => .pure _) ?_
  exact .bind (careful_reportNext (phraseMessages_subset (by simp [phraseMessages])) _) fun _ =>
    .pure _

theorem careful_fetchDirection? : fetchDirection?.Careful statementMessages := by
  unfold fetchDirection?
  refine fun s => .bind (careful_peekKind s) fun kind t hpeek => ?_
  have hkind := kindAt_of_peekKind hpeek
  split
  next k =>
    refine .ite (fun hdirection => ?_) fun _ => .pure _ _
    refine .bind (careful_peekAt 2 t) fun _ u hsecond => .ite (fun _ => ?_) fun _ => .pure _ _
    rw [← ((peeks_peekAt 2).of_run hsecond).kindAt] at hkind
    refine .bind (.next (careful_of_eq hkind ?_)) fun _ _ _ => .pure _ _
    rintro ⟨⟩
    simp at hdirection
  next => exact .pure _ _

theorem careful_wheneverCondition : wheneverCondition.Careful statementMessages := by
  unfold wheneverCondition
  refine fun s => .bind (careful_peekKind s) fun kind t hpeek => ?_
  have hkind := kindAt_of_peekKind hpeek
  have hexpect (k : Keyword) (condition : String) (hk : k ≠ .END) : Careful statementMessages (do
      let _ ← expect (.keyword k)
      return condition) :=
    .bind (careful_expect phraseMessages_subset _ fun h => hk (Kind.keyword.inj h)) fun _ => .pure _
  split
  · exact .bind (.next (careful_of_eq hkind (by decide))) fun _ u _ => hexpect _ _ (by decide) u
  · exact .bind (.next (careful_of_eq hkind (by decide))) fun _ u _ => hexpect _ _ (by decide) u
  · exact .bind (.next (careful_of_eq hkind (by decide))) fun _ _ _ => .pure _ _
  · exact .bind (.next (careful_of_eq hkind (by decide))) fun _ _ _ => .pure _ _
  · exact .bind (.next (careful_of_eq hkind (by decide))) fun _ _ _ => .pure _ _
  · exact Careful.bind (careful_reportNext (phraseMessages_subset (by simp [phraseMessages])) _)
      (fun _ => .pure _) t

theorem runs_wheneverTarget (h : s ∈ careful) :
    wheneverTarget.Runs careful statementMessages s := by
  unfold wheneverTarget
  refine .bind (.next h) fun _ t _ =>
    .bind (careful_expectNameText phraseMessages_subset t) fun name _ _ => ?_
  cases name <;> exact .pure _ _

theorem careful_wheneverAction : wheneverAction.Careful statementMessages := by
  unfold wheneverAction
  refine fun s => .bind (careful_peekKind s) fun kind t hpeek => ?_
  have hkind := kindAt_of_peekKind hpeek
  split
  · exact .bind (.next (careful_of_eq hkind (by decide))) fun _ _ _ => .pure _ _
  · exact .bind (.next (careful_of_eq hkind (by decide))) fun _ _ _ => .pure _ _
  · exact .bind (.next (careful_of_eq hkind (by decide))) fun _ _ _ => .pure _ _
  · exact runs_wheneverTarget (careful_of_eq hkind (by decide))
  · exact runs_wheneverTarget (careful_of_eq hkind (by decide))
  · exact Careful.bind (careful_reportNext (phraseMessages_subset (by simp [phraseMessages])) _)
      (fun _ => .pure _) t

/-! ## Choosing a form -/

/-- The state stands behind the first word of a form, where the form goes on: behind an access
modifier comes the form's own word, and behind the word of a menu control OPTION. -/
def Fits (f : Form) (word : Keyword) (s : ParseState) : Prop :=
  (∀ own, f.modifiable? = some own → word = own ∨ s.kindAt 1 = .keyword own) ∧
    (f = .menuControl → s.kindAt 1 = .keyword .OPTION)

theorem Fits.congr {f : Form} (h : Fits f word s) (hkind : t.kindAt 1 = s.kindAt 1) :
    Fits f word t := by
  unfold Fits at h ⊢
  rwa [hkind]

theorem fits_of_applies {f : Form} (h : (applies f word).run s = (true, t)) :
    Fits f word t.read := by
  have hsecond {k : Kind} {s : ParseState} (h : (secondIs k).run s = (true, t)) :
      t.read.kindAt 1 = k := (kindAt_read t 0).trans (kindAt_of_secondIs h)
  unfold applies at h
  split at h
  next => exact ⟨fun own hown => (by cases hown), fun _ => hsecond h⟩
  next hne =>
    refine ⟨fun own hown => ?_, fun hf => absurd hf hne⟩
    rw [hown] at h
    dsimp only at h
    split at h
    next hword => exact .inl hword
    next => exact .inr (hsecond h)

/-- A form that is chosen belongs to a production and goes on behind its first word. -/
theorem choose_form (h : (choose version atLimit first ps).run s = (.form f word, t)) :
    (∃ p ∈ ps, p.form = f) ∧ Fits f word t.read := by
  induction ps generalizing s with
  | nil => cases h
  | cons p ps ih =>
    have hlater {s : ParseState} (h : (choose version atLimit first ps).run s = (.form f word, t)) :
        (∃ q ∈ p :: ps, q.form = f) ∧ Fits f word t.read := by
      obtain ⟨⟨q, hq, hform⟩, hfits⟩ := ih h
      exact ⟨⟨q, List.mem_cons_of_mem p hq, hform⟩, hfits⟩
    unfold choose at h
    split at h
    · exact hlater h
    · split at h
      · split at h
        · cases h
        · exact hlater h
      · split at h
        · cases h
        · obtain ⟨found, u, happlies, h⟩ := run_of_bind h
          split at h
          next hfound =>
            cases h
            exact ⟨⟨p, List.mem_cons_self .., rfl⟩, fits_of_applies (hfound ▸ happlies)⟩
          next => exact hlater h

namespace Chooses

theorem form_mem {ctx : Context} {region : Region}
    (h : Chooses atLimit ctx region s (.form f word) t) :
    (∃ p ∈ ctx.extra ++ region.productions, p.form = f) ∧ Fits f word t.read := by
  obtain ⟨s₁, t₁, -, hrun, hlook⟩ := h.chosen
  obtain ⟨kind, u, -, hrun⟩ := run_of_bind hrun
  split at hrun
  · obtain ⟨hmem, hfits⟩ := choose_form hrun
    exact ⟨hmem, hfits.congr (by rw [kindAt_read, kindAt_read, hlook.kindAt])⟩
  · cases hrun

theorem mem {ctx : Context} {region : Region} (h : Chooses atLimit ctx region s (.form f word) t) :
    ∃ p ∈ ctx.extra ++ region.productions, p.form = f := h.form_mem.1

theorem fits {ctx : Context} {region : Region} (h : Chooses atLimit ctx region s (.form f word) t) :
    Fits f word t.read := h.form_mem.2

end Chooses

/-! ## Declarations -/

theorem careful_declareName (ctx : Context) (d : Declaration) :
    (declareName ctx d).Careful statementMessages := by
  unfold declareName
  split
  · exact .pure _
  · refine .bind careful_getNames fun names => ?_
    split
    · exact careful_setNames _
    · exact careful_report (by simp [statementMessages]) _ _

theorem careful_declareAll (ctx : Context) (ds : List Declaration) :
    (declareAll ctx ds).Careful statementMessages := by
  induction ds with
  | nil => exact .pure _
  | cons d ds ih => exact .bind (careful_declareName ctx d) fun _ => ih

theorem Fits.runs_accessOf {f : Form} {own : Keyword} (h : Fits f word s)
    (hown : f.modifiable? = some own)
    (hend : own ≠ .END ∧ own ≠ .PUBLIC ∧ own ≠ .PRIVATE) :
    (accessOf word).Runs careful M s := by
  have hread (hword : word = .PUBLIC ∨ word = .PRIVATE) : s ∈ careful := by
    refine careful_of_eq ((h.1 own hown).resolve_left ?_) fun h => hend.1 (Kind.keyword.inj h)
    obtain rfl | rfl := hword
    · exact hend.2.1.symm
    · exact hend.2.2.symm
  unfold accessOf
  split
  · exact .bind (.next (hread (.inl rfl))) fun _ _ _ => .pure _ _
  · exact .bind (.next (hread (.inr rfl))) fun _ _ _ => .pure _ _
  · exact .pure _ _

theorem careful_constant (levels : Nat) (ctx : Context) :
    (constant levels ctx).Careful statementMessages := by
  unfold constant
  refine .bind (careful_expectName phraseMessages_subset) fun named => ?_
  cases named with
  | none => exact .pure _
  | some named =>
    have hdeclare (c : Constant) : Careful statementMessages (do
        declareName ctx (.constant c)
        return some c) := .bind (careful_declareName ctx _) fun _ => .pure _
    have hvalue (type : Option TypeReference) : Careful statementMessages (do
        let value ← if ← expect (.mark .equal) then some <$> expectExpression levels
          else pure none
        let c : Constant := ⟨named.1, named.2, type, value⟩
        declareName ctx (.constant c)
        return some c) := by
      refine .bind (careful_expect phraseMessages_subset _ (by decide)) fun found => ?_
      split
      · exact .bind (.map (careful_expectExpression phraseMessages_subset levels)) fun _ =>
          hdeclare _
      · exact hdeclare _
    refine .bind (careful_nextIs _) fun found => ?_
    split
    · exact hvalue _
    · exact .bind (.map (careful_typeReference typeMessages_subset)) fun _ => hvalue _

theorem careful_typeName (ctx : Context) : (typeName ctx).Careful statementMessages := by
  unfold typeName
  refine .bind (careful_expectName phraseMessages_subset) fun named => ?_
  cases named with
  | none => exact .pure _
  | some named =>
    exact .bind (careful_typeReference typeMessages_subset) fun _ =>
      .bind (careful_declareName ctx _) fun _ => .pure _

theorem partFollows_found (h : (partFollows a).run s = (some g, t)) : t.kindAt 1 = .mark .dot := by
  unfold partFollows at h
  split at h
  · obtain ⟨u, hdot, hline⟩ := run_of_both (run_of_when h)
    obtain ⟨-, rfl⟩ := Prod.mk.inj hline
    exact ((peeks_peekAt 2 u).kindAt 1).trans (kindAt_of_nextIs hdot)
  · cases h

theorem careful_pathTail (first : String) : (pathTail first).Careful statementMessages := by
  unfold pathTail
  refine .bind (fun s => .whileNext (fun state => ?_) (fun state _ _ t h => ?_) _ s) fun _ =>
    .pure _
  · exact Careful.ite (careful_when
      (careful_both (careful_nextIs _) (.bind (careful_peekAt 2) fun _ => .pure _))) (.pure _)
  · refine ⟨careful_of_eq (partFollows_found h) (by decide), ?_⟩
    refine .bind (careful_expectNameText phraseMessages_subset _) fun name _ _ => ?_
    cases name <;> exact .pure _ _

theorem careful_importKind : importKind.Careful statementMessages := by
  unfold importKind
  refine .bind (careful_optional _ (by decide)) fun fgl => ?_
  refine .ite (.pure _) (.bind (careful_optional _ (by decide)) fun java => ?_)
  exact .ite (.pure _) (.pure _)

/-! ## Statements -/

/-- The parser closes the node of a statement of a form that is no block. -/
def Closes (o : Opening) (f : Form) (p : Parser Node) (_ : ParseState) : Prop :=
  ∃ kind, kind.form? = some f ∧ kind.block? = none ∧ p = closeStatement o kind

theorem leads_closeStatement (o : Opening) {kind : NodeKind} (hform : kind.form? = some f)
    (hblock : kind.block? = none) : (closeStatement o kind).Leads R M (Closes o f) s :=
  .here ⟨kind, hform, hblock, rfl⟩

section

variable {s : ParseState} (levels : Nat) (o : Opening)

theorem leads_variablesStatement (ctx : Context) (h : Fits .vars word s) :
    (variablesStatement word ctx o).Leads careful statementMessages (Closes o .vars) s :=
  .bind (h.runs_accessOf rfl (by decide)) fun _ _ _ =>
    .after (careful_variableGroups typeMessages_subset (careful_typeReference typeMessages_subset))
      fun _ _ => .after (careful_declareAll ctx _) fun _ _ => leads_closeStatement o rfl rfl

theorem leads_constantsStatement (ctx : Context) (h : Fits .constants word s) :
    (constantsStatement levels word ctx o).Leads careful statementMessages
      (Closes o .constants) s :=
  .bind (h.runs_accessOf rfl (by decide)) fun _ _ _ =>
    .after (careful_commaList (careful_constant levels ctx)) fun _ _ =>
    leads_closeStatement o rfl rfl

theorem leads_typesStatement (ctx : Context) (h : Fits .types word s) :
    (typesStatement word ctx o).Leads careful statementMessages (Closes o .types) s :=
  .bind (h.runs_accessOf rfl (by decide)) fun _ _ _ =>
    .after (careful_commaList (careful_typeName ctx)) fun _ _ => leads_closeStatement o rfl rfl

theorem leads_assignmentStatement :
    (assignmentStatement levels o).Leads careful statementMessages (Closes o .assignment) s := by
  unfold assignmentStatement
  refine .after (careful_expectDesignator phraseMessages_subset levels) fun _ _ =>
    .after (careful_expect phraseMessages_subset _ (by decide)) fun found _ => ?_
  split
  · exact .after (careful_expressionList phraseMessages_subset levels) fun _ _ =>
      leads_closeStatement o rfl rfl
  · exact leads_closeStatement o rfl rfl

theorem leads_callStatement :
    (callStatement levels o).Leads careful statementMessages (Closes o .call) s := by
  unfold callStatement
  refine .after (careful_expression? phraseMessages_subset levels) fun callee t => ?_
  have hrest (t : ParseState) : Leads careful statementMessages (Closes o .call) (do
      let returning ← designatorsBehind levels .RETURNING
      closeStatement o (.call callee returning)) t :=
    .after (careful_designatorsBehind levels (by decide)) fun _ _ => leads_closeStatement o rfl rfl
  have hmissing {m : Message} (hm : m ∈ phraseMessages) :=
    careful_reportNext (phraseMessages_subset hm)
  dsimp only
  split
  · exact hrest t
  · exact .after (hmissing (by simp [phraseMessages]) _) fun _ => hrest
  · exact .after (hmissing (by simp [phraseMessages]) _) fun _ => hrest

theorem leads_returnStatement (ctx : Context) :
    (returnStatement levels ctx o).Leads careful statementMessages (Closes o .returnValues) s := by
  unfold returnStatement
  refine .after (careful_optionalList levels) fun values _ => ?_
  dsimp only
  split
  · exact .after (careful_modifyNames _) fun _ _ => leads_closeStatement o rfl rfl
  · split
    · exact leads_closeStatement o rfl rfl
    · exact .after careful_lastStop fun _ _ =>
        .after (careful_report (by simp [statementMessages]) _ _) fun _ _ =>
          leads_closeStatement o rfl rfl

/-- The attributes are skipped, so that this statement alone is not careful. -/
theorem leads_outputStatement (word : Keyword) :
    (outputStatement levels word o).Leads .univ statementMessages (Closes o .output) s := by
  unfold outputStatement
  refine .bind (careful_optionalList levels s).free fun values t _ =>
    .bind (careful_listBehind levels (by decide) t).free fun _ u _ =>
    .bind (careful_nextAre _ _ u).free fun found v _ => ?_
  dsimp only
  split
  · exact .bind (.next trivial) fun _ w _ => .bind (runs_skipGroup w) fun _ _ _ =>
      leads_closeStatement o rfl rfl
  · exact leads_closeStatement o rfl rfl

theorem leads_sleepStatement :
    (sleepStatement levels o).Leads careful statementMessages (Closes o .sleep) s :=
  .after (careful_expectExpression phraseMessages_subset levels) fun _ _ =>
    leads_closeStatement o rfl rfl

theorem leads_setNullStatement :
    (setNullStatement levels o).Leads careful statementMessages (Closes o .setNull) s := by
  unfold setNullStatement
  refine .after (careful_designatorList phraseMessages_subset levels) fun _ _ =>
    .after (careful_expect phraseMessages_subset _ (by decide)) fun found _ => ?_
  dsimp only
  split
  · exact .after (careful_expect phraseMessages_subset _ (by decide)) fun _ _ =>
      leads_closeStatement o rfl rfl
  · exact leads_closeStatement o rfl rfl

theorem leads_exitStatement :
    (exitStatement levels o).Leads careful statementMessages (Closes o .exit) s := by
  unfold exitStatement
  refine .after (careful_expectTarget _ rfl) fun target _ => ?_
  dsimp only
  split
  · exact .after (careful_expressionOnLine? levels) fun _ _ => leads_closeStatement o rfl rfl
  · exact leads_closeStatement o rfl rfl

omit levels in
theorem leads_continueStatement :
    (continueStatement o).Leads careful statementMessages (Closes o .continueLoop) s :=
  .after (careful_expectTarget _ rfl) fun _ _ => leads_closeStatement o rfl rfl

theorem leads_prepareStatement (ctx : Context) :
    (prepareStatement levels ctx o).Leads careful statementMessages (Closes o .prepare) s := by
  unfold prepareStatement
  refine .after (careful_expectName phraseMessages_subset) fun _ _ =>
    .after (careful_bindCursor ctx _ _) fun _ _ =>
    .after (careful_expect phraseMessages_subset _ (by decide)) fun found _ => ?_
  dsimp only
  split
  · exact .after (.map (careful_expectExpression phraseMessages_subset levels)) fun _ _ =>
      leads_closeStatement o rfl rfl
  · exact leads_closeStatement o rfl rfl

theorem leads_declareStatement (ctx : Context) :
    (declareStatement levels ctx o).Leads careful statementMessages (Closes o .declare) s := by
  refine .after (careful_expectName phraseMessages_subset) fun _ _ =>
    .after (careful_bindCursor ctx _ _) fun _ _ =>
    .after (careful_optional _ (by decide)) fun _ _ =>
    .after (careful_expect phraseMessages_subset _ (by decide)) fun _ _ => ?_
  exact .after (careful_both (careful_optional _ (by decide))
      (careful_expect phraseMessages_subset _ (by decide)))
    fun _ _ => .after (careful_cursorSource levels) fun _ _ => leads_closeStatement o rfl rfl

theorem leads_cursorStatement (word : Keyword) :
    (cursorStatement levels word o).Leads careful statementMessages (Closes o .cursor) s := by
  have hinto (name direction arguments) (t : ParseState) :
      Leads careful statementMessages (Closes o .cursor) (do
        let into ← if word = .FETCH ∨ word = .EXECUTE then designatorsBehind levels .INTO
          else pure []
        closeStatement o (.cursor word name direction arguments into)) t := by
    split
    · exact .after (careful_designatorsBehind levels (by decide)) fun _ _ =>
        leads_closeStatement o rfl rfl
    · exact leads_closeStatement o rfl rfl
  have hname (direction) (t : ParseState) : Leads careful statementMessages (Closes o .cursor) (do
      let name ← expectNameText
      let arguments ← if word = .OPEN ∨ word = .EXECUTE then listBehind levels .USING
        else pure []
      let into ← if word = .FETCH ∨ word = .EXECUTE then designatorsBehind levels .INTO
        else pure []
      closeStatement o (.cursor word name direction arguments into)) t := by
    refine .after (careful_expectNameText phraseMessages_subset) fun _ u => ?_
    dsimp only
    split
    · exact .after (careful_listBehind levels (by decide)) fun _ => hinto _ _ _
    · exact hinto _ _ _ u
  unfold cursorStatement
  dsimp only
  split
  · exact .after careful_fetchDirection? hname
  · exact hname _ s

omit levels in
theorem leads_wheneverStatement :
    (wheneverStatement o).Leads careful statementMessages (Closes o .whenever) s :=
  .after careful_wheneverCondition fun _ _ => .after careful_wheneverAction fun _ _ =>
    leads_closeStatement o rfl rfl

theorem leads_runStatement :
    (runStatement levels o).Leads careful statementMessages (Closes o .run) s := by
  have hwaiting (command returning) (t : ParseState) :
      Leads careful statementMessages (Closes o .run) (do
        let withoutWaiting ← both (optional (.keyword .WITHOUT)) (expect (.keyword .WAITING))
        closeStatement o (.run command returning withoutWaiting)) t :=
    .after (careful_both (careful_optional _ (by decide))
      (careful_expect phraseMessages_subset _ (by decide))) fun _ _ =>
      leads_closeStatement o rfl rfl
  unfold runStatement
  refine .after (careful_expectExpression phraseMessages_subset levels) fun _ _ =>
    .after (careful_optional _ (by decide)) fun found t => ?_
  dsimp only
  split
  · exact .after (careful_expectDesignator phraseMessages_subset levels) fun _ => hwaiting _ _
  · exact hwaiting _ _ t

theorem leads_menuControlStatement (h : Fits .menuControl word s) :
    (menuControlStatement levels word o).Leads careful statementMessages
      (Closes o .menuControl) s := by
  unfold menuControlStatement
  refine .bind (.next (careful_of_eq (h.2 rfl) (by decide))) fun _ _ _ => ?_
  split
  · exact .after (careful_expectExpression phraseMessages_subset levels) fun _ _ =>
      leads_closeStatement o rfl rfl
  · refine .after (careful_optional _ (by decide)) fun found _ => ?_
    split
    · exact leads_closeStatement o rfl rfl
    · exact .after (careful_expressionList phraseMessages_subset levels) fun _ _ =>
        leads_closeStatement o rfl rfl

omit levels in
theorem leads_importStatement :
    (importStatement o).Leads careful statementMessages (Closes o .importModule) s := by
  unfold importStatement
  refine .after careful_importKind fun kind _ =>
    .after (careful_expectNameText phraseMessages_subset) fun name _ => ?_
  cases name with
  | none => exact leads_closeStatement o rfl rfl
  | some first =>
    exact .after (careful_pathTail first) fun _ _ => .after (careful_modifyNames _) fun _ _ =>
      leads_closeStatement o rfl rfl

omit levels in
theorem leads_databaseStatement (word : Keyword) :
    (databaseStatement word o).Leads careful statementMessages (Closes o .database) s :=
  .after (careful_expectNameText phraseMessages_subset) fun _ _ => leads_closeStatement o rfl rfl

end

end Parser

end FourGL
