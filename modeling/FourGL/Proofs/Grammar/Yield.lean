import FourGL.Proofs.Grammar.Operands

/-!
# The tokens of an expression

An expression that is read without an error stands for all tokens that are read, in their order:
names and literals as they are written, and every sign and keyword between them
(`spelled_operandAt`).
-/

namespace FourGL

open FourGL.Parser FourGL.ParseState

/-! ## Leaves -/

/-- A token that an expression stands for: a name or a literal as it is written, anything else by
its kind. -/
inductive Leaf where
  | name (text : String)
  | literal (kind : LiteralKind) (text : String)
  | sign (kind : Kind)

/-- The token is written as the leaf says. -/
def Token.Spells (t : Token) : Leaf → Prop
  | .name text => (t.kind.canBeName || t.kind.isKeyword) = true ∧ t.text = text
  | .literal kind text => literalKind? t.kind = some kind ∧ t.text = text
  | .sign kind => t.kind = kind

/-- A NOT, if there is one. -/
def Leaf.negation (negated : Bool) : List Leaf := if negated then [.sign (.keyword .NOT)] else []

mutual

/-- The tokens that an expression stands for, from left to right. -/
def Expression.yield : Expression → List Leaf
  | .literal _ kind text => [.literal kind text]
  | .name d => d.yield
  | .call _ callee arguments =>
    callee.yield ++ .sign (.mark .openParen) :: (yieldList arguments ++ [.sign (.mark .closeParen)])
  | .unary _ operator operand => .sign operator :: operand.yield
  | .binary _ left operator negated right =>
    left.yield ++ (Leaf.negation negated ++ .sign operator :: right.yield)
  | .isNull _ operand negated =>
    operand.yield ++ .sign (.keyword .IS) :: (Leaf.negation negated ++ [.sign (.keyword .NULL)])
  | .clipped _ operand => operand.yield ++ [.sign (.keyword .CLIPPED)]
  | .parenthesized _ inner => .sign (.mark .openParen) ::
      (inner.yield ++ [.sign (.mark .closeParen)])
  | .missing _ => []

/-- Expressions with commas between them. -/
def yieldList : List Expression → List Leaf
  | [] => []
  | e :: es => e.yield ++ yieldTail es

/-- Expressions behind another one, each with a comma before it. -/
def yieldTail : List Expression → List Leaf
  | [] => []
  | e :: es => .sign (.mark .comma) :: (e.yield ++ yieldTail es)

def Designator.yield : Designator → List Leaf
  | ⟨_, name, accessors⟩ => .name name :: yieldAccessors accessors

def yieldAccessors : List Accessor → List Leaf
  | [] => []
  | a :: as => a.yield ++ yieldAccessors as

def Accessor.yield : Accessor → List Leaf
  | .member name => [.sign (.mark .dot), .name name]
  | .index indices => .sign (.mark .openBracket) ::
      (yieldList indices ++ [.sign (.mark .closeBracket)])
  | .allMembers => [.sign (.mark .dot), .sign (.mark .asterisk)]

end

theorem yieldTail_append (es ds : List Expression) :
    yieldTail (es ++ ds) = yieldTail es ++ yieldTail ds := by
  induction es with
  | nil => rfl
  | cons e es ih => simp [yieldTail, ih]

theorem yieldList_append_one {es : List Expression} (h : es ≠ []) (e : Expression) :
    yieldList (es ++ [e]) = yieldList es ++ .sign (.mark .comma) :: e.yield := by
  cases es with
  | nil => exact absurd rfl h
  | cons d ds => simp [yieldList, yieldTail, yieldTail_append]

theorem yieldAccessors_append (as bs : List Accessor) :
    yieldAccessors (as ++ bs) = yieldAccessors as ++ yieldAccessors bs := by
  induction as with
  | nil => rfl
  | cons a as ih => simp [yieldAccessors, ih]

/-! ## What is read between two states -/

namespace ParseState

/-- Between the states exactly these leaves are read. -/
def Spelled (s t : ParseState) (ls : List Leaf) : Prop :=
  ∃ ts, s.input.rest.map (·.token) = ts ++ t.input.rest.map (·.token) ∧
    List.Forall₂ Token.Spells ts ls

namespace Spelled

theorem of_looks (h : Looks s t) : Spelled s t [] := ⟨[], by rw [h.rest]; rfl, .nil⟩

theorem trans (h₁ : Spelled s t ls) (h₂ : Spelled t u ms) : Spelled s u (ls ++ ms) := by
  obtain ⟨ts, hts, hls⟩ := h₁
  obtain ⟨us, hus, hms⟩ := h₂
  exact ⟨ts ++ us, by rw [hts, hus, List.append_assoc], List.rel_append hls hms⟩

theorem looks (h : Spelled s t ls) (hlook : Looks t u) : Spelled s u ls := by
  have h := h.trans (of_looks hlook)
  rwa [List.append_nil] at h

theorem after_look (hlook : Looks s t) (h : Spelled t u ls) : Spelled s u ls :=
  (of_looks hlook).trans h

end Spelled

/-- A token that is read is a leaf. -/
theorem Takes.spelled (h : Takes s t) (hkind : s.kindAt 1 ≠ .endOfFile)
    (hleaf : (s.input.tokenAt 1).Spells l) : Spelled s t [l] := by
  obtain ⟨u, hlook, rfl⟩ := h.read
  obtain ⟨x, xs, hrest⟩ := List.exists_cons_of_ne_nil (rest_ne_nil hkind)
  have htoken : s.input.tokenAt 1 = x.token := by simp [Lookahead.tokenAt, hrest]
  refine ⟨[x.token], ?_, .cons (htoken ▸ hleaf) .nil⟩
  rw [rest_read_eq, hlook.rest, hrest]
  rfl

/-- A token of a kind is read. -/
theorem Takes.sign (h : Takes s t) (hkind : s.kindAt 1 = k) (hk : k ≠ .endOfFile) :
    Spelled s t [.sign k] := h.spelled (hkind ▸ hk) hkind

end ParseState

/-! ## What clean runs read -/

namespace Parser

/-- Clean runs of a parser of operands read what the expressions stand for. -/
def Spells (deeper : Nat → Parser Expression) : Prop :=
  ∀ {s least e t}, s.limitReported = false → (deeper least).Clean s e t → Spelled s t e.yield

theorem Clean.unlimited {p : Parser α} [p.Flows] (h : p.Clean s a t)
    (hs : s.limitReported = false) : t.limitReported = false :=
  h.errorFree.limitReported_eq.trans hs

theorem Clean.spelled_expect {k : Kind} (h : (expect k).Clean s found t) (hk : k ≠ .endOfFile) :
    Spelled s t [.sign k] := by
  obtain ⟨-, hkind, htakes⟩ := h.of_expect
  exact htakes.sign hkind hk

theorem peeks_commaFollows (state : List α × Bool) : (commaFollows state).Peeks := by
  have hwhen : (when (nextIs (.mark .comma))).Peeks :=
    .bind (.bind peeks_peekKind fun _ => .pure _) fun found => by cases found <;> exact .pure _
  unfold commaFollows
  split
  · exact hwhen
  · exact .pure _

/-- Items with commas between them. -/
theorem Clean.spelled_commaList {item : Parser (Option Expression)} [item.Flows]
    (h : (commaList item).Clean s es t) (hs : s.limitReported = false)
    (hsome : ∀ s t, item.run s ≠ (none, t))
    (hitem : ∀ {u e v}, u.limitReported = false → item.Clean u (some e) v →
      Spelled u v e.yield) :
    Spelled s t (yieldList es) := by
  unfold commaList at h
  obtain ⟨first, u, hfirst, h⟩ := h.bind (F := fun a => by cases a <;> infer_instance)
  cases first with
  | none => exact absurd hfirst.run_eq (hsome _ _)
  | some e =>
    unfold commaTail at h
    obtain ⟨state, v, hloop, h⟩ := h.bind
    obtain ⟨rfl, rfl⟩ := h.of_pure
    let R (state : List Expression × Bool) (u : ParseState) : Prop :=
      u.limitReported = false ∧ state.1 ≠ [] ∧ Spelled s u (yieldList state.1)
    have hone : Spelled s u (yieldList [e]) := by
      rw [yieldList, yieldTail, List.append_nil]
      exact hitem hs hfirst
    refine (hloop.of_whileNext (R := R) (fun a s g t hfound => ?_)
      (fun state u _ v w state' x hR hguard htakes hbody => ?_)
      ⟨hfirst.unlimited hs, List.cons_ne_nil _ _, hone⟩).elim
      fun _ h => h.1.2.2.looks (h.2.looks (peeks_commaFollows _))
    · rw [commaFollows_found hfound]
      exact Kind.noConfusion
    · obtain ⟨hu, hne, hall⟩ := hR
      have hlook := hguard.looks (peeks_commaFollows _)
      have hv := hlook.errorFree.limitReported_eq.trans hu
      have hw := htakes.errorFree.limitReported_eq.trans hv
      have hcomma := htakes.sign (commaFollows_found hguard.run_eq) Kind.noConfusion
      obtain ⟨found, y, hfound, hbody⟩ :=
        hbody.bind (F := fun a => by cases a <;> infer_instance)
      cases found with
      | none => exact absurd hfound.run_eq (hsome _ _)
      | some d =>
        obtain ⟨rfl, rfl⟩ := hbody.of_pure
        refine ⟨hfound.unlimited hw, by simp, ?_⟩
        rw [yieldList_append_one hne]
        exact hall.trans (.after_look hlook (hcomma.trans (hitem hw hfound)))

section

set_option synthInstance.maxSize 512

variable {deeper : Nat → Parser Expression} [∀ rank, (deeper rank).KeepsNames]
    (hdeeper : Spells deeper)
include hdeeper

theorem spelled_expressionWith? (h : (expressionWith? deeper).Clean s (some e) t)
    (hs : s.limitReported = false) : Spelled s t e.yield := by
  obtain ⟨k, u, hpeek, h⟩ := h.bind
  have hlook := hpeek.of_peekKind.1
  split at h
  · obtain ⟨e', v, hrun, h⟩ := h.bind
    obtain ⟨heq, rfl⟩ := h.of_pure
    obtain rfl := Option.some.inj heq
    exact .after_look hlook (hdeeper (hpeek.unlimited hs) hrun)
  · cases h.of_pure.1

theorem spelled_expectExpressionWith (h : (expectExpressionWith deeper).Clean s e t)
    (hs : s.limitReported = false) : Spelled s t e.yield := by
  unfold expectExpressionWith at h
  obtain ⟨found, u, hfound, h⟩ := h.bind (F := fun e => by cases e <;> infer_instance)
  cases found with
  | none => exact (Clean.not_missingExpression h).elim
  | some e' =>
    obtain ⟨rfl, rfl⟩ := h.of_pure
    exact spelled_expressionWith? hdeeper hfound hs

theorem spelled_expressionListWith (h : (expressionListWith deeper).Clean s es t)
    (hs : s.limitReported = false) : Spelled s t (yieldList es) := by
  refine Clean.spelled_commaList h hs (fun s t => ?_) fun hu hitem => ?_
  · rw [run_bind]
    exact fun h => Option.some_ne_none _ (congrArg Prod.fst h)
  · obtain ⟨e', v, hrun, hitem⟩ := hitem.bind
    obtain ⟨heq, rfl⟩ := hitem.of_pure
    exact Option.some.inj heq ▸ spelled_expectExpressionWith hdeeper hrun hu

/-! ### Designators -/

omit hdeeper in
theorem spelled_spanFrom {f : Span → α} (h : (do return f (← spanFrom start)).Clean s a t) :
    Looks s t ∧ ∃ span, a = f span := by
  obtain ⟨span, u, hspan, h⟩ := h.bind
  obtain ⟨rfl, rfl⟩ := h.of_pure
  obtain ⟨-, rfl⟩ := Prod.mk.inj hspan.run_eq
  exact ⟨.refl _, span, rfl⟩

/-- A step is read as its dot or opening bracket and what follows. -/
theorem spelled_accessor (hfound : selection?.Clean s (some selection) u) (htakes : Takes u v)
    (h : (accessor deeper selection).Clean v a t) (hs : s.limitReported = false) :
    Spelled s t a.yield := by
  have hlook := hfound.looks peeks_selection?
  have hstands := selection?_stands hfound.run_eq
  have hv := htakes.errorFree.limitReported_eq.trans (hlook.errorFree.limitReported_eq.trans hs)
  have hsecond : v.input.tokenAt 1 = s.input.tokenAt 2 := by
    obtain ⟨x, hlook', rfl⟩ := htakes.read
    rw [← hlook.tokenAt, ← hlook'.tokenAt]
    exact tokenAt_read x 0
  cases selection with
  | member =>
    obtain ⟨hdot, hname⟩ := hstands
    obtain ⟨name, w, hnext, h⟩ := h.bind
    obtain ⟨rfl, rfl⟩ := h.of_pure
    obtain ⟨htakes', rfl⟩ := hnext.of_next
    rw [ParseState.kindAt, ← hsecond] at hname
    refine .after_look hlook ((htakes.sign ((hlook.kindAt 1).trans hdot) Kind.noConfusion).trans
      (htakes'.spelled (fun hend => ?_) ⟨hname, rfl⟩))
    rw [ParseState.kindAt] at hend
    rw [hend] at hname
    cases hname
  | allMembers =>
    obtain ⟨hdot, hasterisk⟩ := hstands
    obtain ⟨_, w, hnext, h⟩ := h.bind
    obtain ⟨rfl, rfl⟩ := h.of_pure
    rw [ParseState.kindAt, ← hsecond] at hasterisk
    exact .after_look hlook ((htakes.sign ((hlook.kindAt 1).trans hdot) Kind.noConfusion).trans
      (hnext.of_next.1.sign hasterisk Kind.noConfusion))
  | index =>
    obtain ⟨indices, w, hindices, h⟩ := h.bind
    obtain ⟨_, x, hclose, h⟩ := h.bind
    obtain ⟨rfl, rfl⟩ := h.of_pure
    exact .after_look hlook ((htakes.sign ((hlook.kindAt 1).trans hstands) Kind.noConfusion).trans
      ((spelled_expressionListWith hdeeper hindices hv).trans
        (hclose.spelled_expect Kind.noConfusion)))

theorem spelled_designatorWith? (h : (designatorWith? deeper).Clean s (some d) t)
    (hs : s.limitReported = false) : Spelled s t d.yield := by
  unfold designatorWith? at h
  obtain ⟨name, u, hname, h⟩ := h.bind (F := fun name => by cases name <;> infer_instance)
  obtain ⟨hkind, htakes, rfl⟩ | ⟨-, -, rfl⟩ := hname.of_name?
  · obtain ⟨accessors, v, hloop, h⟩ := h.bind
    obtain ⟨hlook, span, heq⟩ := spelled_spanFrom h
    obtain rfl := Option.some.inj heq
    have hfirst : Spelled s u [.name (s.input.tokenAt 1).text] :=
      htakes.spelled (ne_of_canBeName hkind).2 ⟨Bool.or_eq_true_iff.mpr (.inl hkind), rfl⟩
    let R (as : List Accessor) (v : ParseState) : Prop :=
      v.limitReported = false ∧ Spelled u v (yieldAccessors as)
    have hu := htakes.errorFree.limitReported_eq.trans hs
    refine (hloop.of_whileNext (R := R) (fun as s g t hfound => ?_)
      (fun as s g t u bs v hR hguard htakes hbody => ?_) ⟨hu, .of_looks (.refl u)⟩).elim
      fun _ h => (hfirst.trans (h.1.2.looks (h.2.looks peeks_selection?))).looks hlook
    · obtain hkind | hkind := (selection?_found hfound).1 <;> rw [hkind] <;> exact Kind.noConfusion
    · have hv := hbody.unlimited (htakes.errorFree.limitReported_eq.trans (hguard.unlimited hR.1))
      obtain ⟨a, w, ha, hbody⟩ := hbody.bind
      obtain ⟨rfl, rfl⟩ := hbody.of_pure
      refine ⟨hv, ?_⟩
      rw [yieldAccessors_append, yieldAccessors, yieldAccessors, List.append_nil]
      exact hR.2.trans (spelled_accessor hdeeper hguard htakes ha hR.1)
  · cases h.of_pure.1

/-! ### Operands -/

theorem spelled_callWith (h : (callWith deeper callee).Clean s e t) (hs : s.limitReported = false)
    (hopen : s.kindAt 1 = .mark .openParen) :
    ∃ ls, Spelled s t ls ∧ e.yield = callee.yield ++ ls := by
  unfold callWith at h
  obtain ⟨_, u, hnext, h⟩ := h.bind
  have hparen := hnext.of_next.1.sign hopen Kind.noConfusion
  obtain ⟨closed, v, hclosed, h⟩ := h.bind
  have hlook := hclosed.of_nextIs.1
  have hv := hclosed.unlimited (hnext.unlimited hs)
  dsimp only at h
  -- With arguments or without, the rest is the same.
  have hrest {arguments : List Expression} {w : ParseState}
      (harguments : Spelled v w (yieldList arguments))
      (h : Clean (do
        let _ ← expect (.mark .closeParen)
        return Expression.call (← spanFrom callee.span.start) callee arguments) w e t) :
      ∃ ls, Spelled s t ls ∧ e.yield = callee.yield ++ ls := by
    obtain ⟨_, x, hclose, h⟩ := h.bind
    obtain ⟨hlook', span, rfl⟩ := spelled_spanFrom h
    exact ⟨_, hparen.trans (.after_look hlook
      (harguments.trans ((hclose.spelled_expect Kind.noConfusion).looks hlook'))), rfl⟩
  split at h
  · obtain ⟨arguments, w, harguments, h⟩ := h.bind
    obtain ⟨rfl, rfl⟩ := harguments.of_pure
    exact hrest (.of_looks (.refl _)) h
  · obtain ⟨arguments, w, harguments, h⟩ := h.bind
    exact hrest (spelled_expressionListWith hdeeper harguments hv) h

theorem spelled_primaryWith (h : (primaryWith deeper).Clean s e t) (hs : s.limitReported = false) :
    Spelled s t e.yield := by
  have hname := has_nameOrCall (R := keepsNames) (l := 0) deeper
  obtain ⟨token, u, hpeek, hlook, h⟩ := h.behind_look (peeks_peekAt 1)
  obtain ⟨rfl, -⟩ := Prod.mk.inj hpeek
  have hu := hlook.errorFree.limitReported_eq.trans hs
  refine .after_look hlook ?_
  split at h
  next kind hkind =>
    obtain ⟨_, v, hnext, h⟩ := h.bind
    obtain ⟨hlook', span, rfl⟩ := spelled_spanFrom h
    rw [← hlook.tokenAt] at hkind ⊢
    refine (hnext.of_next.1.spelled (l := .literal kind _) (fun hend => ?_)
      ⟨hkind, rfl⟩).looks hlook'
    rw [ParseState.kindAt] at hend
    rw [hend] at hkind
    cases hkind
  next =>
    obtain ⟨opened, v, hopened, h⟩ := h.bind
    obtain ⟨rfl, hopen, htakes⟩ | ⟨rfl, -, hlook'⟩ := hopened.of_optional
    · obtain ⟨inner, w, hinner, h⟩ := h.bind
      obtain ⟨_, x, hclose, h⟩ := h.bind
      obtain ⟨hlook', span, rfl⟩ := spelled_spanFrom h
      have hv := htakes.errorFree.limitReported_eq.trans hu
      exact (htakes.sign hopen Kind.noConfusion).trans
        ((spelled_expectExpressionWith hdeeper hinner hv).trans
          ((hclose.spelled_expect Kind.noConfusion).looks hlook'))
    · refine .after_look hlook' ?_
      have hv := hlook'.errorFree.limitReported_eq.trans hu
      obtain ⟨found, w, hfound, h⟩ := h.bind
      cases found with
      | none => exact (Clean.not_missingExpression h).elim
      | some d =>
        have hd := spelled_designatorWith? hdeeper hfound hv
        obtain ⟨called, x, hcalled, h⟩ := h.bind
        obtain ⟨hlook'', rfl⟩ := hcalled.of_nextIs
        split at h
        next hopen =>
          have hopen := (hlook''.kindAt 1).trans (eq_of_beq hopen)
          obtain ⟨ls, hls, heq⟩ :=
            spelled_callWith hdeeper h (hcalled.unlimited (hfound.unlimited hv)) hopen
          exact heq ▸ hd.trans (.after_look hlook'' hls)
        next =>
          obtain ⟨rfl, rfl⟩ := h.of_pure
          exact hd.looks hlook''

theorem spelled_unaryWith (h : (unaryWith deeper).Clean s e t) (hs : s.limitReported = false) :
    Spelled s t e.yield := by
  obtain ⟨token, u, hpeek, hlook, h⟩ := h.behind_look (peeks_peekAt 1)
  obtain ⟨rfl, -⟩ := Prod.mk.inj hpeek
  have hu := hlook.errorFree.limitReported_eq.trans hs
  refine .after_look hlook ?_
  split at h
  next => exact spelled_primaryWith hdeeper h hu
  next rank hrank =>
    obtain ⟨_, v, hnext, h⟩ := h.bind
    obtain ⟨k, w, hpeek, h⟩ := h.bind
    have hw := hpeek.unlimited (hnext.unlimited hu)
    dsimp only at h
    split at h
    · obtain ⟨operand, x, hoperand, h⟩ := h.bind
      obtain ⟨hlook', span, rfl⟩ := spelled_spanFrom h
      have hsign : Spelled u v [.sign (s.input.tokenAt 1).kind] := by
        refine hnext.of_next.1.sign (hlook.kindAt 1) fun hend => ?_
        rw [hend] at hrank
        cases hrank
      exact hsign.trans (.after_look hpeek.of_peekKind.1 ((hdeeper hw hoperand).looks hlook'))
    · obtain ⟨operand, x, hoperand, h⟩ := h.bind
      exact (Clean.not_missingExpression hoperand).elim

/-- What an expression goes on with is read behind its first token. -/
theorem spelled_continueWith {left : Expression} (hahead : s.ahead = some c) (htakes : Takes s u)
    (h : (continueWith deeper start left c).Clean u e t) (hs : s.limitReported = false) :
    ∃ ls, Spelled s t ls ∧ e.yield = left.yield ++ ls := by
  have hu := htakes.errorFree.limitReported_eq.trans hs
  cases c with
  | isNull =>
    have his := htakes.sign (kindAt_of_isNull hahead) Kind.noConfusion
    obtain ⟨negated, v, hnegated, h⟩ := h.bind
    obtain ⟨_, w, hnull, h⟩ := h.bind
    obtain ⟨hlook, span, rfl⟩ := spelled_spanFrom h
    have hnot : Spelled u v (Leaf.negation negated) := by
      obtain ⟨rfl, hkind, htakes⟩ | ⟨rfl, -, hlook⟩ := hnegated.of_optional
      · exact htakes.sign hkind Kind.noConfusion
      · exact .of_looks hlook
    exact ⟨_, his.trans (hnot.trans ((hnull.spelled_expect Kind.noConfusion).looks hlook)), rfl⟩
  | clipped =>
    obtain ⟨hlook, span, rfl⟩ := spelled_spanFrom h
    exact ⟨_, (htakes.sign (kindAt_of_clipped hahead) Kind.noConfusion).looks hlook, rfl⟩
  | binary operator negated level =>
    have hoperator : operator ≠ .endOfFile := by
      rintro rfl
      cases (binary_of_ahead hahead).1
    have hright {v : ParseState} (hv : v.limitReported = false)
        (hspelled : Spelled s v (Leaf.negation negated ++ [.sign operator]))
        (h : Clean (do
          let right ← deeper (rightRank operator level)
          return .binary (← spanFrom start) left operator negated right) v e t) :
        ∃ ls, Spelled s t ls ∧ e.yield = left.yield ++ ls := by
      obtain ⟨right, w, hright, h⟩ := h.bind
      obtain ⟨hlook, span, rfl⟩ := spelled_spanFrom h
      refine ⟨_, hspelled.trans ((hdeeper hv hright).looks hlook), ?_⟩
      rw [List.append_assoc]
      rfl
    have hkinds := kindAt_of_binary hahead
    unfold continueWith at h
    dsimp only at h
    split at h
    next hnegated =>
      subst hnegated
      obtain ⟨_, v, hnext, h⟩ := h.bind
      obtain ⟨hnot, hkind⟩ : s.kindAt 1 = .keyword .NOT ∧ s.kindAt 2 = operator := hkinds
      have hkind : u.kindAt 1 = operator := by
        obtain ⟨x, hlook, rfl⟩ := htakes.read
        rw [kindAt_read, hlook.kindAt, hkind]
      exact hright (hnext.unlimited hu) ((htakes.sign hnot Kind.noConfusion).trans
        (hnext.of_next.1.sign hkind hoperator)) h
    next hnegated =>
      obtain rfl := Bool.eq_false_iff.mpr hnegated
      exact hright hu (htakes.sign hkinds hoperator) h

end

/-- An expression that is read without an error stands for the tokens that are read. -/
theorem spelled_operandAt (levels : Nat) : Spells (operandAt levels) := by
  induction levels with
  | zero =>
    intro s least e t hs h
    obtain ⟨_, hlevels, -⟩ := h.of_operandAt hs
    cases hlevels
  | succ levels ih =>
    intro s least e t hs h
    obtain ⟨_, ⟨⟩, h⟩ := h.of_operandAt hs
    obtain ⟨s', t', hbefore, h, hbehind⟩ := h.of_nested
    obtain ⟨start, u, hstart, h⟩ := h.bind
    obtain ⟨first, v, hfirst, h⟩ := h.bind
    have hu := hstart.unlimited (hbefore.errorFree.limitReported_eq.trans hs)
    have hlook : Looks s u := hbefore.trans (hstart.looks (.bind (peeks_peekAt 1) fun _ => .pure _))
    let R (e : Expression) (v : ParseState) : Prop :=
      v.limitReported = false ∧ Spelled u v e.yield
    refine (h.of_whileNext (R := R) (fun _ _ _ _ h => (continuation?_found h).1.2)
      (fun e s c t u e' v hR hguard htakes hbody => ?_)
      ⟨hfirst.unlimited hu, spelled_unaryWith ih hfirst hu⟩).elim fun w h => ?_
    · obtain ⟨t', hlook, hrun⟩ := continuation?_run least s
      obtain ⟨hc, rfl⟩ := Prod.mk.inj (hguard.run_eq.symm.trans hrun)
      obtain ⟨hahead, -⟩ := Option.filter_eq_some_iff.mp hc.symm
      have ht := hlook.errorFree.limitReported_eq.trans hR.1
      obtain ⟨ls, hls, heq⟩ :=
        spelled_continueWith ih (hlook.ahead_eq.trans hahead) htakes hbody ht
      refine ⟨hbody.unlimited (htakes.errorFree.limitReported_eq.trans ht), ?_⟩
      exact heq ▸ hR.2.trans (.after_look hlook hls)
    · obtain ⟨⟨-, hspelled⟩, hstop⟩ := h
      obtain ⟨v', hlook', hrun⟩ := continuation?_run least w
      obtain ⟨-, rfl⟩ := Prod.mk.inj (hstop.run_eq.symm.trans hrun)
      exact .after_look hlook (hspelled.looks (hlook'.trans hbehind))

end Parser

end FourGL
