import FourGL.Proofs.Grammar.Agreement

/-!
# Statements side by side

Statements and blocks that are read from like states give like nodes: of the same kind, at
corresponding tokens and with like children. A node ends where the token read last ends, because
reading never goes back behind the token that the node begins with; so these parsers agree in states
`At` the two texts that have read at least so far.
-/

namespace FourGL

open FourGL.Parser FourGL.ParseState

variable {L : Likeness}

namespace Parser

/-- As `Agree`, in states at the two texts that have read up to `x` and `y` at least. -/
def AgreeFrom (L : Likeness) (x y : Nat) (V : α → β → Prop) (p : Parser α) (q : Parser β) :
    Prop :=
  ∀ s t, s.Like L t → At L.left s → At L.right t → x ≤ s.place → y ≤ t.place →
    V (p.run s).1 (q.run t).1 ∧ (p.run s).2.Like L (q.run t).2

section

variable {p : Parser α} {q : Parser β} {f : α → Parser γ} {g : β → Parser δ}

theorem Agree.from (hp : Agree L V p q) : AgreeFrom L x y V p q :=
  fun s t hst _ _ _ _ => hp s t hst

namespace AgreeFrom

theorem bind [hflows : p.Flows] [hflows' : q.Flows] (hp : AgreeFrom L x y V p q)
    (hf : ∀ a b, V a b → AgreeFrom L x y W (f a) (g b)) :
    AgreeFrom L x y W (p >>= f) (q >>= g) := by
  intro s t hst hs ht hx hy
  obtain ⟨hV, hlike⟩ := hp s t hst hs ht hx hy
  obtain ⟨hs', hle⟩ := (hflows.flows s).later.onward hs
  obtain ⟨ht', hle'⟩ := (hflows'.flows t).later.onward ht
  exact hf _ _ hV _ _ hlike hs' ht' (Nat.le_trans hx hle) (Nat.le_trans hy hle')

theorem past {p : Parser α} {f : α → Parser γ} {g : α → Parser δ} [p.Flows]
    [hp : Steady L p]
    (hf : ∀ a, AgreeFrom L x y W (f a) (g a)) : AgreeFrom L x y W (p >>= f) (p >>= g) :=
  hp.agree.from.bind fun a _ hab => hab ▸ hf a

theorem assoc {f : α → Parser γ} {g : γ → Parser ε} {f' : β → Parser δ}
    {g' : δ → Parser ζ} (h : AgreeFrom L x y V (p >>= f >>= g) (q >>= f' >>= g')) :
    AgreeFrom L x y V (p >>= fun a => f a >>= g) (q >>= fun b => f' b >>= g') := h

theorem nested [p.Flows] [q.Flows] (hp : AgreeFrom L x y V p q) :
    AgreeFrom L x y V (nested p) (nested q) :=
  .past fun _ => hp.bind fun _ _ hab => .past fun _ => Agree.from (.pure hab)

theorem skip {f : Token → Parser α} {g : Token → Parser β}
    (hf : ∀ t u, AgreeFrom L x y V (f t) (g u)) :
    AgreeFrom L x y V (next >>= f) (next >>= g) := agree_next.from.bind fun t u _ => hf t u

theorem ite {c : Prop} [Decidable c] {p p' : Parser α} {q q' : Parser β}
    (hp : AgreeFrom L x y V p q) (hp' : AgreeFrom L x y V p' q') :
    AgreeFrom L x y V (if c then p else p') (if c then q else q') := by
  split
  · exact hp
  · exact hp'

end AgreeFrom

theorem Agree.thence [p.Flows] [q.Flows] (hp : Agree L V p q)
    (hf : ∀ a b, V a b → AgreeFrom L x y W (f a) (g b)) :
    AgreeFrom L x y W (p >>= f) (q >>= g) :=
  hp.from.bind hf

end

/-! ## Closing nodes -/

/-- Nodes begin with corresponding tokens, after as many errors. -/
structure Counterparts (L : Likeness) (o o' : Opening) : Prop where
  token : Token.Like L o.token o'.token
  errors_eq : o.errors = o'.errors
  start_lt : o.token.start < o.token.stop
  start_lt' : o'.token.start < o'.token.stop

theorem Counterparts.same (h : Counterparts L o o') : L.Same o o' := fun hexact => by
  obtain ⟨token, errors⟩ := o
  obtain ⟨token', errors'⟩ := o'
  rw [show token = token' from h.token.same hexact, show errors = errors' from h.errors_eq]

/-- Behind the tokens that two nodes begin with, the parsers give like nodes. -/
def AgreeNodes (L : Likeness) (o o' : Opening) (p q : Parser Node) : Prop :=
  AgreeFrom L o.token.stop o'.token.stop (Node.Like L) p q

/-- A place behind a token is where corresponding tokens end. -/
theorem stop_place (hst : ParseState.Like L s t) (hpos : 0 < x) (hx : x ≤ s.place) :
    L.stop s.place t.place := hst.place.resolve_left (by omega)

theorem agree_closeStatement (ho : Counterparts L o o') (hsame : L.Same k k')
    (houtline : k.outline = k'.outline) :
    AgreeNodes L o o' (closeStatement o k) (closeStatement o' k') := by
  intro s t hst _ _ hx hy
  have hlt := ho.start_lt
  have hlt' := ho.start_lt'
  have hstop := stop_place hst (by omega) hx
  have hmax : max s.input.last.stop o.token.start = s.place := Nat.max_eq_left (by
    change _ ≤ s.place; omega)
  have hmax' : max t.input.last.stop o'.token.start = t.place := Nat.max_eq_left (by
    change _ ≤ t.place; omega)
  refine ⟨.mk ?_ houtline ho.token.start ?_ ?_ ?_ .nil, hst⟩
  · intro hexact
    have hplace : s.place = t.place := (hst.last_same.map Token.stop) hexact
    change Node.mk ⟨_, max s.input.last.stop _, max s.input.last.stop _,
      s.errorCount == _⟩ k [] =
      Node.mk ⟨_, max t.input.last.stop _, max t.input.last.stop _, t.errorCount == _⟩ k' []
    rw [hmax, hmax', hplace, hsame hexact, ho.same hexact, hst.errorCount_eq]
  · change L.stop (max s.input.last.stop _) (max t.input.last.stop _)
    rwa [hmax, hmax']
  · change L.stop (max s.input.last.stop _) (max t.input.last.stop _)
    rwa [hmax, hmax']
  · change (s.errorCount == _) = (t.errorCount == _)
    rw [hst.errorCount_eq, ho.errors_eq]

/-- Headers that end with corresponding tokens. -/
structure HeaderLike (L : Likeness) (h h' : Nat) : Prop where
  same : L.Same h h'
  stop : L.stop h h'
  pos : 0 < h

theorem AgreeFrom.header {f : Nat → Parser α} {g : Nat → Parser β} (ho : Counterparts L o o')
    (hf : ∀ h h', HeaderLike L h h' → AgreeFrom L h h' V (f h) (g h')) :
    AgreeFrom L o.token.stop o'.token.stop V (headerStop o >>= f) (headerStop o' >>= g) := by
  intro s t hst hs ht hx hy
  have hlt := ho.start_lt
  have hlt' := ho.start_lt'
  have hmax : max s.input.last.stop o.token.start = s.place := Nat.max_eq_left (by
    change _ ≤ s.place; omega)
  have hmax' : max t.input.last.stop o'.token.start = t.place := Nat.max_eq_left (by
    change _ ≤ t.place; omega)
  change V ((f (max s.input.last.stop o.token.start)).run s).1
    ((g (max t.input.last.stop o'.token.start)).run t).1 ∧
    ((f (max s.input.last.stop o.token.start)).run s).2.Like L
      ((g (max t.input.last.stop o'.token.start)).run t).2
  rw [hmax, hmax']
  refine hf _ _ ⟨hst.last_same.map Token.stop, stop_place hst (by omega) hx, by
    omega⟩ s t hst hs ht
    (Nat.le_refl _) (Nat.le_refl _)

theorem agree_closeNode (ho : Counterparts L o o') (hh : HeaderLike L h h') (hsame : L.Same k k')
    (houtline : k.outline = k'.outline)
    (hchildren : List.Forall₂ (Node.Like L) ms ns) :
    AgreeFrom L h h' (Node.Like L) (closeNode o h k ms) (closeNode o' h' k' ns) := by
  intro s t hst _ _ hx hy
  have hmax : max s.input.last.stop h = s.place := Nat.max_eq_left hx
  have hmax' : max t.input.last.stop h' = t.place := Nat.max_eq_left hy
  refine ⟨.mk ?_ houtline ho.token.start hh.stop ?_ ?_ hchildren, hst⟩
  · intro hexact
    have hplace : s.place = t.place := (hst.last_same.map Token.stop) hexact
    have hnodes : ms = ns := Likeness.same_of_forall₂ (fun _ _ h => h.same) hchildren hexact
    change Node.mk ⟨_, max s.input.last.stop h, h, s.errorCount == _⟩ k ms =
      Node.mk ⟨_, max t.input.last.stop h', h', t.errorCount == _⟩ k' ns
    rw [hmax, hmax', hplace, hh.same hexact, hsame hexact, ho.same hexact,
      hst.errorCount_eq, hnodes]
  · change L.stop (max s.input.last.stop _) (max t.input.last.stop _)
    rw [hmax, hmax']
    exact stop_place hst hh.pos hx
  · change (s.errorCount == _) = (t.errorCount == _)
    rw [hst.errorCount_eq, ho.errors_eq]

theorem agree_closeBlock (ho : Counterparts L o o') (hh : HeaderLike L h h') (k : Keyword)
    (stop : Stop) : Agree L Eq (closeBlock o h k stop) (closeBlock o' h' k stop) :=
  .ite (.skip fun _ _ => .skip fun _ _ => .pure rfl)
    (agree_report _ .rfl (ho.same.map₂ hh.same fun o h => Span.between o.token.start h)
      ho.token.start)

theorem agree_checkJump (ctx : Context) (h : Node.Like L m n) :
    Agree L Eq (checkJump ctx m) (checkJump ctx n) := by
  unfold checkJump
  rw [h.jump?_eq]
  split
  · exact .pure rfl
  · exact .ite (.pure rfl) (agree_report _ .rfl (h.same.map (·.extent.span)) h.start)

/-! ## Statements without a body -/

instance : Steady L (accessOf word) := by
  unfold accessOf
  refine ⟨?_⟩
  split
  · exact .skip fun _ _ => .pure rfl
  · exact .skip fun _ _ => .pure rfl
  · exact .pure rfl

theorem agree_optionalList (levels : Nat) :
    Agree L (List.Forall₂ (Expression.Like L)) (optionalList levels) (optionalList levels) :=
  .past fun _ => .ite (agree_expressionList levels) (.pure .nil)

theorem agree_listBehind (levels : Nat) (k : Keyword) :
    Agree L L.Same (listBehind levels k) (listBehind levels k) :=
  .past fun _ => .ite ((agree_expressionList levels).mono fun _ _ h =>
    same_expressions h) (.pure .rfl)

theorem agree_designatorsBehind (levels : Nat) (k : Keyword) :
    Agree L L.Same (designatorsBehind levels k) (designatorsBehind levels k) :=
  .past fun _ => .ite (agree_designatorList levels) (.pure .rfl)

theorem same_list (h : List.Forall₂ L.Same xs ys) : L.Same xs ys :=
  Likeness.same_of_forall₂ (fun _ _ h => h) h

theorem same_option (h : Option.Rel L.Same x y) : L.Same x y :=
  Likeness.same_of_rel (fun _ _ h => h) h

theorem same_expression? (h : Option.Rel (Expression.Like L) x y) : L.Same x y :=
  Likeness.same_of_rel (fun _ _ h => h.same) h

theorem agree_expressionOnLine? (levels : Nat) :
    Agree L L.Same (expressionOnLine? levels) (expressionOnLine? levels) := by
  refine agree_peek.bind fun t u h => ?_
  rw [h.kind_eq, Token.lineBreakBefore, h.flags_eq]
  exact .ite ((agree_expression? levels).mono fun _ _ h => same_expression? h) (.pure .rfl)

theorem agree_expressionBehind (levels : Nat) {follows : Parser Bool} [Steady L follows] :
    Agree L L.Same (expressionBehind levels follows) (expressionBehind levels follows) :=
  .past fun _ => .ite ((agree_expectExpression levels).map fun _ _ h =>
    h.same.map some) (.pure .rfl)

instance : Steady L (groupGoesOn state) := by unfold groupGoesOn; infer_instance

instance : Steady L skipGroup := by
  unfold skipGroup
  refine ⟨(Agree.whileNext (S := Eq) (fun _ _ h => h ▸ Steady.agree) (fun x y hxy _ => ?_)
    rfl).bind fun x y hxy => ?_⟩
  · subst hxy
    refine (agree_last.bind fun t u h => ?_).behind
    rw [h.1]
    split <;> exact .pure rfl
  · subst hxy
    exact .ite (.pure rfl) Steady.agree

instance : Steady L (expectTarget word allowed) := by
  have hmissing : Agree L (Eq (α := Option Keyword))
      (do reportNext .blockKeywordExpected [word.text]; return none)
      (do reportNext .blockKeywordExpected [word.text]; return none) := Steady.agree
  unfold expectTarget
  refine ⟨.past fun kind => ?_⟩
  split
  · exact .ite (.skip fun _ _ => .pure rfl) hmissing
  · exact hmissing

theorem same_named? (h : Option.Rel (Named L) x y) : L.Same x y :=
  Likeness.same_of_rel (fun _ _ h => h.same) h

theorem agree_bindCursor (ctx : Context) (kind : CursorKind) (h : Option.Rel (Named L) x y) :
    Agree L Eq (bindCursor ctx x kind) (bindCursor ctx y kind) := by
  cases h with
  | none => exact .pure rfl
  | @some x y h =>
    have hc : Cursor.Like L ⟨x.1, x.2, kind⟩ ⟨y.1, y.2, kind⟩ :=
      ⟨h.same.map fun x => Cursor.mk x.1 x.2 kind, h⟩
    refine agree_getNames.bind fun n m hnm => ?_
    have hbind := hnm.bindCursor? ctx.cursors hc
    generalize n.bindCursor? ctx.cursors _ = n' at *
    generalize m.bindCursor? ctx.cursors _ = m' at *
    cases hbind with
    | some hnames => exact agree_setNames hnames
    | none => exact agree_report _ (h.same.map fun x => [x.1]) (h.same.map (·.2)) h.start

theorem agree_cursorSource (levels : Nat) :
    Agree L L.Same (cursorSource levels) (cursorSource levels) :=
  .past fun _ => .ite
    (agree_expectNameText.bind fun _ _ h => .pure ((same_words h).map fun x => (x, none)))
    (.past fun _ => .ite
      ((agree_expectExpression levels).bind fun _ _ h =>
        .pure (h.same.map fun e => ((none : Option String), some e)))
      (.past fun _ => .pure .rfl))

instance : Steady L fetchDirection? := by
  unfold fetchDirection?
  refine ⟨.past fun kind => ?_⟩
  split
  · refine .ite ((agree_peekAt 2).bind fun t u h => ?_) (.pure rfl)
    rw [h.kind_eq]
    exact .ite (.skip fun _ _ => .pure rfl) (.pure rfl)
  · exact .pure rfl

theorem agree_wheneverCondition : Agree L L.Same wheneverCondition wheneverCondition := by
  unfold wheneverCondition
  refine .past fun kind => ?_
  split
  · exact .skip fun _ _ => .past fun _ => .pure .rfl
  · exact .skip fun _ _ => .past fun _ => .pure .rfl
  iterate 3 · exact agree_next.bind fun _ _ h => .pure (h.same.map (·.kind.text))
  · exact .past fun _ => .pure .rfl

theorem agree_wheneverTarget : Agree L L.Same wheneverTarget wheneverTarget := by
  refine agree_next.bind fun t u h => agree_expectNameText.bind fun x y hname => ?_
  have hword : L.Same t.kind.text u.kind.text := h.same.map (·.kind.text)
  cases hname with
  | some hname =>
    exact .pure (hword.map₂ (L.same_of_text hname) fun word name => word ++ " " ++ name)
  | none => exact .pure hword

theorem agree_wheneverAction : Agree L L.Same wheneverAction wheneverAction := by
  unfold wheneverAction
  refine .past fun kind => ?_
  split
  iterate 3 · exact agree_next.bind fun _ _ h => .pure (h.same.map (·.kind.text))
  iterate 2 · exact agree_wheneverTarget
  · exact .past fun _ => .pure .rfl

/-- Of the function that is called it matters only whether it is one. -/
theorem callStatement_eq (levels : Nat) (o : Opening) : callStatement levels o = (do
    let callee ← expression? levels
    match callee.map Expression.isCall with
    | some true => pure ()
    | some false => reportNext .expected [Mark.openParen.text]
    | none => reportNext .identifierExpected []
    let returning ← designatorsBehind levels .RETURNING
    closeStatement o (.call callee returning)) := by
  unfold callStatement
  congr 1
  funext callee
  cases callee with
  | none => rfl
  | some e => cases e <;> rfl

section

variable (levels : Nat) (ho : Counterparts L o o')
include ho

theorem agree_assignmentStatement :
    AgreeNodes L o o' (assignmentStatement levels o) (assignmentStatement levels o') := by
  unfold assignmentStatement
  refine (agree_expectDesignator levels).thence fun _ _ htarget => .past fun found => ?_
  have hclose {xs ys : List Expression} (h : L.Same xs ys) :=
    agree_closeStatement ho ((same_option htarget).map₂ h NodeKind.assignment) rfl
  cases found with
  | true => exact (agree_expressionList levels).thence fun _ _ h => hclose (same_expressions h)
  | false => exact hclose .rfl

theorem agree_callStatement :
    AgreeNodes L o o' (callStatement levels o) (callStatement levels o') := by
  rw [callStatement_eq, callStatement_eq]
  refine (agree_expression? levels).thence fun x y hcallee => ?_
  have hcalls : x.map Expression.isCall = y.map Expression.isCall := by
    cases hcallee with
    | none => rfl
    | some h => exact congrArg some h.isCall_eq
  have hreturning : AgreeNodes L o o'
      (do let returning ← designatorsBehind levels .RETURNING
          closeStatement o (.call x returning))
      (do let returning ← designatorsBehind levels .RETURNING
          closeStatement o' (.call y returning)) :=
    (agree_designatorsBehind levels _).thence fun _ _ h =>
      agree_closeStatement ho ((same_expression? hcallee).map₂ h NodeKind.call) rfl
  dsimp only
  rw [hcalls]
  split
  · exact hreturning
  · exact .past fun _ => hreturning
  · exact .past fun _ => hreturning

theorem agree_returnStatement (ctx : Context) :
    AgreeNodes L o o' (returnStatement levels ctx o) (returnStatement levels ctx o') := by
  unfold returnStatement
  refine (agree_optionalList levels).thence fun xs ys h => ?_
  have hclose := agree_closeStatement ho ((same_expressions h).map NodeKind.returnValues) rfl
  have hlength := h.length_eq
  dsimp only
  split
  next owner _ =>
    refine (agree_modifyNames fun n m hnm => ?_).thence fun _ _ _ => hclose
    rw [hlength]
    exact hnm.set owner (hnm.same.map fun n =>
      { n.get owner with returns := (n.get owner).returns ++ [ys.length] }) (hnm.scope owner)
  next =>
    have hempty : xs.isEmpty = ys.isEmpty := by
      cases h <;> rfl
    rw [hempty]
    refine .ite hclose (agree_lastStop.thence fun _ _ hstop => ?_)
    have hspan := ho.same.map₂ hstop fun o stop => Span.between o.token.start stop
    exact (agree_report _ .rfl hspan ho.token.start).thence fun _ _ _ => hclose

theorem agree_outputStatement (word : Keyword) :
    AgreeNodes L o o' (outputStatement levels word o) (outputStatement levels word o') := by
  unfold outputStatement
  refine (agree_optionalList levels).thence fun _ _ hvalues =>
    (agree_listBehind levels _).thence fun _ _ hplace => .past fun found => ?_
  have hclose := agree_closeStatement ho
      ((same_expressions hvalues).map₂ hplace fun values place =>
    NodeKind.output word (values ++ place)) rfl
  exact .ite (.skip fun _ _ => .past fun _ => hclose) hclose

theorem agree_sleepStatement :
    AgreeNodes L o o' (sleepStatement levels o) (sleepStatement levels o') :=
  (agree_expectExpression levels).thence fun _ _ h =>
    agree_closeStatement ho (h.same.map fun e => NodeKind.sleep (some e)) rfl

theorem agree_setNullStatement :
    AgreeNodes L o o' (setNullStatement levels o) (setNullStatement levels o') := by
  refine (agree_designatorList levels).thence fun _ _ h => .past fun found => ?_
  have hclose := agree_closeStatement ho (h.map NodeKind.setNull) rfl
  exact .ite (.past fun _ => hclose) hclose

theorem agree_exitStatement :
    AgreeNodes L o o' (exitStatement levels o) (exitStatement levels o') := by
  refine .past fun target => ?_
  have hclose {x y : Option Expression} (h : L.Same x y) :=
    agree_closeStatement ho (h.map (NodeKind.exit target)) rfl
  exact .ite ((agree_expressionOnLine? levels).thence fun _ _ h => hclose h) (hclose .rfl)

theorem agree_continueStatement :
    AgreeNodes L o o' (continueStatement o) (continueStatement o') :=
  .past fun target => agree_closeStatement ho (.rfl (x := NodeKind.continueLoop target)) rfl

theorem agree_prepareStatement (ctx : Context) :
    AgreeNodes L o o' (prepareStatement levels ctx o) (prepareStatement levels ctx o') := by
  refine agree_expectName.thence fun _ _ hname => (agree_bindCursor ctx .prepared hname).thence
    fun _ _ _ => .past fun found => ?_
  have hclose {x y : Option Expression} (h : L.Same x y) :=
    agree_closeStatement ho ((same_named? hname).map₂ h fun name source =>
      NodeKind.prepare (name.map (·.1)) source) rfl
  cases found with
  | true => exact (agree_expectExpression levels).thence fun _ _ h => hclose (h.same.map some)
  | false => exact hclose .rfl

theorem agree_declareStatement (ctx : Context) :
    AgreeNodes L o o' (declareStatement levels ctx o) (declareStatement levels ctx o') :=
  agree_expectName.thence fun _ _ hname => (agree_bindCursor ctx .declared hname).thence
    fun _ _ _ => .past fun scroll => .past fun _ => .past fun withHold =>
      (agree_cursorSource levels).thence fun _ _ hsource =>
        agree_closeStatement ho ((same_named? hname).map₂ hsource fun name source =>
          NodeKind.declare (name.map (·.1)) scroll withHold source.1 source.2) rfl

theorem agree_cursorStatement (word : Keyword) :
    AgreeNodes L o o' (cursorStatement levels word o) (cursorStatement levels word o') := by
  unfold cursorStatement
  have hclose (direction : Option Keyword) {x y : Option String} (hname : L.Same x y)
      {es fs : List Expression} (h : L.Same es fs) {ds ds' : List Designator}
        (hds : L.Same ds ds') :
      AgreeNodes L o o' (closeStatement o (.cursor word x direction es ds))
        (closeStatement o' (.cursor word y direction fs ds')) :=
    agree_closeStatement ho (fun hexact => by rw [hname hexact, h hexact, hds hexact]) rfl
  have hbehind (direction : Option Keyword) : AgreeNodes L o o'
      (do let name ← expectNameText
          let arguments ← if word = .OPEN ∨ word = .EXECUTE then listBehind levels .USING
            else pure []
          let into ← if word = .FETCH ∨ word = .EXECUTE then designatorsBehind levels .INTO
            else pure []
          closeStatement o (.cursor word name direction arguments into))
      (do let name ← expectNameText
          let arguments ← if word = .OPEN ∨ word = .EXECUTE then listBehind levels .USING
            else pure []
          let into ← if word = .FETCH ∨ word = .EXECUTE then designatorsBehind levels .INTO
            else pure []
          closeStatement o' (.cursor word name direction arguments into)) := by
    refine agree_expectNameText.thence fun _ _ hname => ?_
    have hinto {es fs : List Expression} (h : L.Same es fs) :=
      AgreeFrom.ite (c := word = .FETCH ∨ word = .EXECUTE)
        ((agree_designatorsBehind levels .INTO).thence fun _ _ hds =>
          hclose direction (same_words hname) h hds)
        (hclose direction (same_words hname) h (.rfl (x := [])))
    exact .ite ((agree_listBehind levels _).thence fun _ _ h => hinto h) (hinto .rfl)
  exact .ite (.past fun direction => hbehind direction) (hbehind none)

theorem agree_wheneverStatement :
    AgreeNodes L o o' (wheneverStatement o) (wheneverStatement o') :=
  agree_wheneverCondition.thence fun _ _ hcondition =>
    agree_wheneverAction.thence fun _ _ haction =>
    agree_closeStatement ho (hcondition.map₂ haction NodeKind.whenever) rfl

theorem agree_runStatement :
    AgreeNodes L o o' (runStatement levels o) (runStatement levels o') := by
  refine (agree_expectExpression levels).thence fun _ _ hcommand => .past fun found => ?_
  have hclose {x y : Option Designator} (h : L.Same x y) : AgreeNodes L o o'
      (do let withoutWaiting ← both (optional (.keyword .WITHOUT)) (expect (.keyword .WAITING))
          closeStatement o (.run (some _) x withoutWaiting))
      (do let withoutWaiting ← both (optional (.keyword .WITHOUT)) (expect (.keyword .WAITING))
          closeStatement o' (.run (some _) y withoutWaiting)) :=
    .past fun withoutWaiting => agree_closeStatement ho (hcommand.same.map₂ h fun command x =>
      NodeKind.run (some command) x withoutWaiting) rfl
  cases found with
  | true => exact (agree_expectDesignator levels).thence fun _ _ h => hclose (same_option h)
  | false => exact hclose .rfl

theorem agree_menuControlStatement (word : Keyword) :
    AgreeNodes L o o' (menuControlStatement levels word o) (menuControlStatement levels word o') :=
  .skip fun _ _ => .ite
    ((agree_expectExpression levels).thence fun _ _ h =>
      agree_closeStatement ho (h.same.map fun e => NodeKind.menuControl word [e] false) rfl)
    (.past fun _ => .ite (agree_closeStatement ho
      (.rfl (x := NodeKind.menuControl word [] true)) rfl)
      ((agree_expressionList levels).thence fun _ _ h => agree_closeStatement ho
        ((same_expressions h).map fun es => NodeKind.menuControl word es false) rfl))

end

/-! ## Declarations -/

theorem agree_declareName (ctx : Context) (hsame : L.Same d e) (hd : Declaration.Like L d e)
    (hstart : L.start d.span.start e.span.start) :
    Agree L Eq (declareName ctx d) (declareName ctx e) := by
  unfold declareName
  split
  · exact .pure rfl
  next owner _ =>
    refine agree_getNames.bind fun n m hnm => ?_
    have hdeclare := hnm.declare? owner hsame hd
    generalize n.declare? owner d = n' at *
    generalize m.declare? owner e = m' at *
    cases hdeclare with
    | some hnames => exact agree_setNames hnames
    | none => exact agree_report _ (hsame.map fun d => [d.name]) (hsame.map Declaration.span) hstart

theorem agree_declareAll (ctx : Context) (h : List.Forall₂ (Variable.Like L) vs ws) :
    Agree L Eq (declareAll ctx (vs.map .variable)) (declareAll ctx (ws.map .variable)) := by
  induction h with
  | nil => exact .pure rfl
  | cons hv _ ih =>
    exact (agree_declareName ctx (hv.same.map Declaration.variable)
      (.vars hv.named.text) hv.named.start).bind fun _ _ _ => ih

theorem agree_constant (levels : Nat) (ctx : Context) :
    Agree L (Option.Rel L.Same) (constant levels ctx) (constant levels ctx) := by
  unfold constant
  refine agree_expectName.bind fun x y hname => ?_
  cases hname with
  | none => exact .pure .none
  | @some x y hname =>
    have hdeclare {type type' : Option TypeReference} (htype : L.Same type type')
        {value value' : Option Expression} (hvalue : L.Same value value') :
        Agree L (Option.Rel L.Same)
          (do let c : Constant := ⟨x.1, x.2, type, value⟩
              declareName ctx (.constant c)
              return some c)
          (do let c : Constant := ⟨y.1, y.2, type', value'⟩
              declareName ctx (.constant c)
              return some c) := by
      have hc : L.Same (Constant.mk x.1 x.2 type value) ⟨y.1, y.2, type', value'⟩ :=
        fun hexact => by rw [hname.same hexact, htype hexact, hvalue hexact]
      exact (agree_declareName ctx (hc.map Declaration.constant)
        (.constants hname.text) hname.start).bind fun _ _ _ => .pure (.some hc)
    have hvalue {type type' : Option TypeReference} (htype : L.Same type type') (found : Bool) :
        Agree L (Option.Rel L.Same)
          (do let value ← if found then some <$> expectExpression levels else pure none
              let c : Constant := ⟨x.1, x.2, type, value⟩
              declareName ctx (.constant c)
              return some c)
          (do let value ← if found then some <$> expectExpression levels else pure none
              let c : Constant := ⟨y.1, y.2, type', value⟩
              declareName ctx (.constant c)
              return some c) := by
      cases found with
      | true =>
        exact (agree_expectExpression levels).bind fun _ _ h => hdeclare htype (h.same.map some)
      | false => exact hdeclare htype .rfl
    refine .past fun untyped => ?_
    cases untyped with
    | true => exact .past fun _ => .past fun found => hvalue .rfl found
    | false =>
      exact agree_typeReference.bind fun _ _ h => .past fun found => hvalue (h.map some) found

theorem agree_typeName (ctx : Context) :
    Agree L (Option.Rel L.Same) (typeName ctx) (typeName ctx) := by
  unfold typeName
  refine agree_expectName.bind fun x y hname => ?_
  cases hname with
  | none => exact .pure .none
  | @some x y hname =>
    refine agree_typeReference.bind fun type type' htype => ?_
    have ht : L.Same (TypeName.mk x.1 x.2 type) ⟨y.1, y.2, type'⟩ :=
      hname.same.map₂ htype fun x type => TypeName.mk x.1 x.2 type
    exact (agree_declareName ctx (ht.map Declaration.type) (.types hname.text) hname.start).bind
      fun _ _ _ => .pure (.some ht)

section

variable (levels : Nat) (word : Keyword) (ctx : Context) (ho : Counterparts L o o')
include ho

theorem agree_variablesStatement :
    AgreeNodes L o o' (variablesStatement word ctx o) (variablesStatement word ctx o') :=
  .past fun access => (agree_variableGroups agree_typeReference).thence fun _ _ h =>
    (agree_declareAll ctx h).thence fun _ _ _ =>
      agree_closeStatement ho ((same_variables h).map (NodeKind.vars access)) rfl

theorem agree_constantsStatement :
    AgreeNodes L o o' (constantsStatement levels word ctx o)
      (constantsStatement levels word ctx o') :=
  .past fun access => (agree_commaList (agree_constant levels ctx)).thence fun _ _ h =>
    agree_closeStatement ho ((same_list h).map (NodeKind.constants access)) rfl

theorem agree_typesStatement :
    AgreeNodes L o o' (typesStatement word ctx o) (typesStatement word ctx o') :=
  .past fun access => (agree_commaList (agree_typeName ctx)).thence fun _ _ h =>
    agree_closeStatement ho ((same_list h).map (NodeKind.types access)) rfl

end

/-! ## Bodies -/

/-- Like nodes, and the same reason to stop. -/
def ContentLike (L : Likeness) (x y : List Node × Stop) : Prop :=
  List.Forall₂ (Node.Like L) x.1 y.1 ∧ x.2 = y.2

instance : Steady L (stopAtEnd? ctx terminator) := by
  unfold stopAtEnd?
  refine ⟨.past fun kind => ?_⟩
  split
  · exact .pure rfl
  · refine (agree_peekAt 2).bind fun t u h => ?_
    rw [h.kind_eq]
    exact Steady.agree
  · exact .pure rfl

instance : Steady L (stopAtToken? ctx) := by unfold stopAtToken?; infer_instance

instance : Steady L (applies f first) := by
  unfold applies
  split
  · infer_instance
  · split <;> infer_instance

instance {ps : List Production} : Steady L (choose version atLimit first ps) := by
  induction ps with
  | nil => unfold choose; infer_instance
  | cons p ps ih => unfold choose; infer_instance

instance : Steady L (chooseNext version atLimit ps) := by
  unfold chooseNext
  refine ⟨.past fun kind => ?_⟩
  split <;> exact Steady.agree

instance : Steady L (bodyGuard atLimit ctx region) := by
  unfold bodyGuard
  refine ⟨.past fun stop => ?_⟩
  cases stop with
  | some stop => exact .pure rfl
  | none =>
    refine .past fun stop => ?_
    cases stop with
    | some stop => exact .pure rfl
    | none =>
      refine .past fun errors => .past fun choice => ?_
      dsimp only
      split <;> exact Steady.agree

instance : Steady L (nestingGuard bottom ctx region) := by unfold nestingGuard; infer_instance

/-- As `AgreeFrom`, where corresponding tokens that are not empty have just been read. -/
def AgreeOpening (L : Likeness) (V : α → β → Prop) (p : Parser α) (q : Parser β) : Prop :=
  ∀ s t, s.Like L t → At L.left s → At L.right t →
    Token.Like L s.input.last t.input.last →
    s.input.last.start < s.place → t.input.last.start < t.place →
    V (p.run s).1 (q.run t).1 ∧ (p.run s).2.Like L (q.run t).2

theorem AgreeBehind.opening {p : Parser α} {q : Parser β} (h : AgreeBehind L V p q) :
    AgreeOpening L V p q := fun s t hst _ _ hlast _ _ => h s t hst hlast

/-- Behind the tokens that open them, nodes are read. -/
theorem AgreeOpening.last {f : Token → Parser α} {g : Token → Parser β} (errors : Nat)
    (h : ∀ t u, Counterparts L ⟨t, errors⟩ ⟨u, errors⟩ →
      AgreeFrom L t.stop u.stop V (f t) (g u)) :
    AgreeOpening L V (last >>= f) (last >>= g) := fun s t hst hs ht hlast hlt hlt' =>
  h _ _ ⟨hlast, rfl, hlt, hlt'⟩ s t hst hs ht (Nat.le_refl _) (Nat.le_refl _)

/-- Loops agree that read nodes in their rounds. A round begins with a token of the text, and its
guard goes on in the text. -/
theorem AgreeFrom.rounds {guard : Parser (β ⊕ γ)} {body : σ → γ → Parser σ}
    {body' : τ → γ → Parser τ}
    {S : σ → τ → Prop} [hsteady : Steady L guard] (hlater : ∀ s, Later s (guard.run s).2)
    (hne : ∀ s g t, guard.run s = (.inr g, t) → t.kindAt 1 ≠ .endOfFile)
    (hflows : ∀ a g, (body a g).Flows) (hflows' : ∀ b g, (body' b g).Flows)
    (hbody : ∀ a b, S a b → ∀ g, AgreeOpening L S (body a g) (body' b g)) (atEnd : β)
    (a : σ) (b : τ)
    (hab : S a b) : AgreeFrom L x y (fun u v => S u.1 v.1 ∧ u.2 = v.2)
      (loop atEnd (fun _ => guard) body a) (loop atEnd (fun _ => guard) body' b) := by
  suffices h : ∀ s t, s.Like L t → At L.left s → At L.right t →
      (S ((loop atEnd (fun _ => guard) body a).run s).1.1
          ((loop atEnd (fun _ => guard) body' b).run t).1.1 ∧
        ((loop atEnd (fun _ => guard) body a).run s).1.2 =
          ((loop atEnd (fun _ => guard) body' b).run t).1.2) ∧
      ((loop atEnd (fun _ => guard) body a).run s).2.Like L
        ((loop atEnd (fun _ => guard) body' b).run t).2 from
    fun s t hst hs ht _ _ => h s t hst hs ht
  intro s
  revert b
  induction a, s using loopFrom.induct (fun _ => guard) body with
  | case1 a s stop u h =>
    intro b hab t hst _ _
    obtain ⟨heq, hlike⟩ := hsteady.agree s t hst
    rw [h] at heq hlike
    have h' : guard.run t = (.inl stop, (guard.run t).2) := Prod.ext heq.symm rfl
    rw [run_loop_stop h, run_loop_stop h']
    exact ⟨⟨hab, rfl⟩, hlike⟩
  | case2 a s g u h hnil => exact absurd hnil (rest_ne_nil (hne s g u h))
  | case3 a s g u h l ls hrest r ih =>
    intro b hab t hst hs ht
    obtain ⟨heq, hlike⟩ := hsteady.agree s t hst
    have hu := ((hlater s).onward hs).1
    have hv := ((hlater t).onward ht).1
    rw [h] at heq hlike hu
    have h' : guard.run t = (.inr g, (guard.run t).2) := Prod.ext heq.symm rfl
    have hkind := hne s g u h
    have hkind' := hne t g _ h'
    have hloop : (loop atEnd (fun _ => guard) body a).run s = _ :=
      run_loop_round h (rest_ne_nil hkind)
    have hloop' : (loop atEnd (fun _ => guard) body' b).run t = _ :=
      run_loop_round h' (rest_ne_nil hkind')
    rw [hloop, hloop']
    obtain ⟨hS, hround⟩ := hbody a b hab g _ _ hlike.read hu.read.1 hv.read.1 hlike.last_read
      (hu.read_token hkind).2 (hv.read_token hkind').2
    exact ih _ hS _ hround (((hflows a g).flows _).later.onward hu.read.1).1
      (((hflows' b g).flows _).later.onward hv.read.1).1

theorem agree_skipUnexpected (unexpected : Message) (isFirst : Bool) :
    AgreeBehind L Eq (skipUnexpected unexpected isFirst) (skipUnexpected unexpected isFirst) := by
  refine .last fun t u h => ?_
  have halone : Agree L Eq (if isFirst then report unexpected [t.text] t.span else pure ())
      (if isFirst then report unexpected [u.text] u.span else pure ()) :=
    .ite (agree_report _ (h.same.map fun t => [t.text]) h.same_span h.start) (.pure rfl)
  rw [h.kind_eq]
  refine Agree.behind (.ite (agree_peek.bind fun word word' hword => ?_) halone)
  rw [hword.kind_eq, Token.lineBreakBefore, hword.flags_eq]
  refine .ite (.skip fun _ _ => agree_lastStop.bind fun _ _ hstop => ?_) halone
  exact agree_report _ .rfl (h.same.map₂ hstop fun t stop => Span.between t.start stop) h.start

/-- The nodes of a body so far are alike. -/
structure Progress.Like (L : Likeness) (p q : Progress) : Prop where
  nodes : List.Forall₂ (Node.Like L) p.nodes q.nodes
  skipping_eq : p.skipping = q.skipping

/-- A guard of a body goes on before a token of the text. -/
theorem kindAt_of_nestingGuard (h : (nestingGuard bottom ctx region).run s = (.inr g, t)) :
    t.kindAt 1 ≠ .endOfFile := by
  obtain ⟨choice, errors⟩ := g
  rw [run_nestingGuard] at h
  obtain ⟨rfl, u, hchoice, ht⟩ := chooses_of_bodyGuard h
  have hne : u.kindAt 1 ≠ .endOfFile := hchoice.looks.kindAt 1 ▸ hchoice.passes.ne_endOfFile
  obtain ⟨-, rfl⟩ | ⟨-, rfl⟩ := ht
  · obtain ⟨-, hrun⟩ | ⟨v, hlook, hrun⟩ := reportLimit_cases u
    · rwa [hrun]
    · rw [hrun]
      exact hlook.kindAt 1 ▸ hne
  · exact hne

theorem later_nestingGuard (bottom : Bool) (ctx : Context) (region : Region) (s : ParseState) :
    Later s ((nestingGuard bottom ctx region).run s).2 := by
  rw [run_nestingGuard]
  obtain ⟨stop, t, hguard, hlook, -⟩ |
      ⟨choice, t, hchoice, ⟨-, hguard⟩ | ⟨-, hguard⟩⟩ :=
    bodyGuard_cases (s.nesting.isFull || bottom) ctx region s
  · rw [hguard]
    exact hlook.later
  · rw [hguard]
    exact hchoice.looks.later.trans ((careful_reportLimit (M := phraseMessages) .rfl t).later rfl)
  · rw [hguard]
    exact hchoice.looks.later

/-- Bodies agree whose statements do. -/
theorem agree_bodyWith {statement : Option FormParser}
    (hflows : ∀ parse ∈ statement, ∀ f word ctx o, (parse f word ctx o).Flows)
    (hstatement : ∀ parse ∈ statement, ∀ f word ctx o o', Counterparts L o o' →
      AgreeNodes L o o' (parse f word ctx o) (parse f word ctx o'))
    (ctx : Context) (region : Region) :
    AgreeFrom L 0 0 (ContentLike L) (bodyWith statement ctx region)
      (bodyWith statement ctx region) := by
  have hstepFlows := flows_bodyStep hflows ctx region
  have hround (p q : Progress) (hpq : p.Like L q) (step : Choice × Nat) :
      AgreeOpening L (Progress.Like L) (bodyStep statement ctx region p step)
        (bodyStep statement ctx region q step) := by
    obtain ⟨choice, errors⟩ := step
    have hidle : AgreeOpening L (Progress.Like L) (last >>= fun _ => pure p)
        (last >>= fun _ => pure q) :=
      .last errors fun _ _ _ => Agree.from (.pure hpq)
    cases choice with
    | form f word =>
      cases statement with
      | none => exact hidle
      | some parse =>
        have := hflows parse rfl
        exact .last errors fun t u ho =>
          (AgreeFrom.nested ((hstatement parse rfl f word ctx _ _ ho).bind fun _ _ hn =>
            (agree_checkJump ctx hn).thence fun _ _ _ => Agree.from (.pure hn))).bind fun _ _ hn =>
          Agree.from (.pure ⟨hn.insert hpq.nodes, rfl⟩)
    | unavailable f =>
      exact .last errors fun t u ho =>
        (agree_report _ .rfl ho.token.same_span ho.token.start).thence fun _ _ _ =>
          Agree.from (.pure hpq)
    | tooDeep => exact hidle
    | unexpected =>
      unfold bodyStep
      rw [hpq.skipping_eq]
      exact AgreeBehind.opening (.last fun _ _ _ => (agree_skipUnexpected _ _).bind fun _ _ _ =>
        .pure ⟨hpq.nodes, rfl⟩)
  intro s t hst hs ht _ _
  obtain ⟨hprogress, hlike⟩ := AgreeFrom.rounds (x := 0) (y := 0)
    (later_nestingGuard statement.isNone ctx region) (fun _ _ _ h => kindAt_of_nestingGuard h)
    hstepFlows hstepFlows hround .endOfFile {} {} ⟨.nil, rfl⟩ s t hst hs ht
      (Nat.zero_le _) (Nat.zero_le _)
  exact ⟨⟨hprogress.1.nodes, hprogress.2⟩, hlike⟩

/-! ## Clauses -/

instance {starts : Parser Bool} [Steady L starts] :
    Steady L (clauseGuard ctx terminator starts) := by
  unfold clauseGuard
  refine ⟨.past fun stop => ?_⟩
  cases stop with
  | some stop => exact .pure rfl
  | none =>
    refine .past fun errors => .past fun found => .ite (.pure rfl) (.past fun stop => ?_)
    cases stop <;> exact .pure rfl

theorem kindAt_of_clauseGuard {starts : Parser Bool} (hstarts : starts.Peeks)
    (h : (clauseGuard ctx terminator starts).run s = (.inr g, t)) : t.kindAt 1 ≠ .endOfFile := by
  obtain ⟨found, errors⟩ := g
  obtain ⟨-, hpass, hlook, -⟩ := starts_of_clauseGuard hstarts h
  exact hlook.kindAt 1 ▸ hpass.ne_endOfFile

/-- Lists of clauses agree whose clauses do. -/
theorem agree_clauses {starts : Parser Bool} [Steady L starts] [starts.KeepsNames]
    (hstarts : starts.Peeks)
    {clause : List Node → Opening → Parser Node} (hflows : ∀ ns o, (clause ns o).Flows)
    (hclause : ∀ ms ns, List.Forall₂ (Node.Like L) ms ns → ∀ o o', Counterparts L o o' →
      AgreeNodes L o o' (clause ms o) (clause ns o')) (ctx : Context) (terminator : Kind) :
    AgreeFrom L x y (ContentLike L) (clauses ctx terminator starts clause)
      (clauses ctx terminator starts clause) := by
  have hstepFlows (p : Progress) (found : Bool × Nat) : (clauseStep clause p found).Flows := by
    unfold clauseStep
    infer_instance
  have hround (p q : Progress) (hpq : p.Like L q) (found : Bool × Nat) :
      AgreeOpening L (Progress.Like L) (clauseStep clause p found) (clauseStep clause q found) := by
    obtain ⟨found, errors⟩ := found
    cases found with
    | true =>
      exact .last errors fun t u ho => (hclause _ _ hpq.nodes _ _ ho).bind fun _ _ hn =>
        Agree.from (.pure ⟨hn.insert hpq.nodes, rfl⟩)
    | false =>
      unfold clauseStep
      rw [hpq.skipping_eq]
      exact AgreeBehind.opening ((agree_skipUnexpected _ _).bind fun _ _ _ =>
        .pure ⟨hpq.nodes, rfl⟩)
  intro s t hst hs ht hx hy
  obtain ⟨hprogress, hlike⟩ := AgreeFrom.rounds
    (fun s => (Flows.flows (p := clauseGuard ctx terminator starts) inferInstance s).later)
    (fun _ _ _ h => kindAt_of_clauseGuard hstarts h) hstepFlows
    hstepFlows hround .endOfFile {} {} ⟨.nil, rfl⟩ s t hst hs ht hx hy
  exact ⟨⟨hprogress.1.nodes, hprogress.2⟩, hlike⟩

end Parser

end FourGL
