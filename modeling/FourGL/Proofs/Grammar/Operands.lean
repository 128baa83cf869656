import FourGL.Proofs.Grammar.Clean

/-!
# The grammar of expressions

Which expressions a clean run yields, where so many levels of nesting are left and operators have at
least a rank: `Expression.Fits`. Operators are read as long as they bind tightly enough, so an
operator stands behind an expression only if no operand at the right end of that expression would
have taken it; `Expression.edge` is the rank below which an operator has to stay for that.
-/

namespace FourGL

open FourGL.Parser FourGL.ParseState

/-! ## How an expression goes on -/

/-- The rank of the operator that an expression goes on with. -/
def Parser.Continuation.rank : Continuation → Nat
  | .isNull => Level.comparison.rank
  | .clipped => Level.format.rank
  | .binary _ _ level => level.rank

/-- The operator at the next token: NOT before LIKE or MATCHES only negates those. -/
def ParseState.operatorAhead (s : ParseState) : Kind :=
  if s.kindAt 1 = .keyword .NOT ∧ (s.kindAt 2 = .keyword .LIKE ∨
    s.kindAt 2 = .keyword .MATCHES) then s.kindAt 2
  else s.kindAt 1

/-- How an expression would go on at the next token, if its operators could have any rank. -/
def ParseState.ahead (s : ParseState) : Option Continuation :=
  if s.kindAt 1 = .keyword .IS then some .isNull
  else if s.kindAt 1 = .keyword .CLIPPED then some .clipped
  else s.operatorAhead.level?.map (.binary s.operatorAhead (s.operatorAhead != s.kindAt 1))

theorem ParseState.Looks.operatorAhead (h : Looks s t) : t.operatorAhead = s.operatorAhead := by
  unfold ParseState.operatorAhead
  rw [h.kindAt 1, h.kindAt 2]

theorem ParseState.Looks.ahead_eq (h : Looks s t) : t.ahead = s.ahead := by
  unfold ParseState.ahead
  rw [h.kindAt 1, h.operatorAhead]

namespace ParseState

/-- The next tokens say how an expression goes on. -/
inductive GoesOn (s : ParseState) : Continuation → Prop where
  | isNull (hkind : s.kindAt 1 = .keyword .IS) : GoesOn s .isNull
  | clipped (hkind : s.kindAt 1 = .keyword .CLIPPED) : GoesOn s .clipped
  | binary (hlevel : s.operatorAhead.level? = some level) :
      GoesOn s (.binary s.operatorAhead (s.operatorAhead != s.kindAt 1) level)

theorem goesOn_of_ahead {s : ParseState} (h : s.ahead = some c) : s.GoesOn c := by
  unfold ahead at h
  split at h
  next his =>
    cases h
    exact .isNull his
  next =>
    split at h
    next hclipped =>
      cases h
      exact .clipped hclipped
    next =>
      obtain ⟨level, hlevel, rfl⟩ := Option.map_eq_some_iff.mp h
      exact .binary hlevel

theorem kindAt_of_isNull {s : ParseState} (h : s.ahead = some .isNull) :
    s.kindAt 1 = .keyword .IS := by
  cases goesOn_of_ahead h with
  | isNull hkind => exact hkind

theorem kindAt_of_clipped {s : ParseState} (h : s.ahead = some .clipped) :
    s.kindAt 1 = .keyword .CLIPPED := by
  cases goesOn_of_ahead h with
  | clipped hkind => exact hkind

/-- A negated operator stands behind the NOT. -/
theorem kindAt_of_binary {s : ParseState} (h : s.ahead = some (.binary operator negated level)) :
    if negated then s.kindAt 1 = .keyword .NOT ∧ s.kindAt 2 = operator
    else s.kindAt 1 = operator := by
  cases goesOn_of_ahead h with
  | binary hlevel =>
    unfold operatorAhead
    split
    next hnot =>
      rw [if_pos]
      · exact ⟨hnot.1, rfl⟩
      · rw [hnot.1]
        obtain h | h := hnot.2 <;> rw [h] <;> rfl
    next => simp

/-- Only LIKE and MATCHES are negated. -/
theorem binary_of_ahead {s : ParseState} (h : s.ahead = some (.binary operator negated level)) :
    operator.level? = some level ∧
      (negated = true → operator = .keyword .LIKE ∨ operator = .keyword .MATCHES) := by
  cases goesOn_of_ahead h with
  | binary hlevel =>
    refine ⟨hlevel, fun hnegated => ?_⟩
    unfold operatorAhead at hnegated ⊢
    split at hnegated
    next hnot => exact if_pos hnot ▸ hnot.2
    next => simp at hnegated

end ParseState

theorem Level.rank_le_unary (l : Level) : l.rank ≤ Level.unary.rank := by
  cases l <;> decide

theorem Parser.Continuation.rank_le_unary (c : Continuation) : c.rank ≤ Level.unary.rank := by
  cases c with
  | isNull => exact Level.comparison.rank_le_unary
  | clipped => exact Level.format.rank_le_unary
  | binary _ _ level => exact level.rank_le_unary

namespace Parser

theorem operatorBehind_run (s : ParseState) :
    ∃ t, Looks s t ∧ (operatorBehind (s.kindAt 1)).run s = (s.operatorAhead, t) := by
  unfold operatorBehind ParseState.operatorAhead
  by_cases hnot : s.kindAt 1 = .keyword .NOT
  · refine ⟨_, looks_inspect s 2, ?_⟩
    by_cases hsecond : s.kindAt 2 = .keyword .LIKE ∨ s.kindAt 2 = .keyword .MATCHES
    · rw [if_pos hnot, if_pos ⟨hnot, hsecond⟩, run_bind, if_pos (by exact hsecond)]
      rfl
    · rw [if_pos hnot, if_neg fun h => hsecond h.2, run_bind, if_neg (by exact hsecond)]
      rfl
  · rw [if_neg hnot, if_neg fun h => hnot h.1]
    exact ⟨s, .refl s, rfl⟩

/-- An expression goes on as it would at the next token, if the rank suffices. -/
theorem continuation?_run (least : Nat) (s : ParseState) :
    ∃ t, Looks s t ∧ (continuation? least).run s = (s.ahead.filter (least ≤ ·.rank), t) := by
  let u := (peekKind.run s).2
  have hlook : Looks s u := looks_inspect s 1
  obtain ⟨t, hlook', hoperator⟩ : ∃ t, Looks u t ∧
      (operatorBehind (s.kindAt 1)).run u = (s.operatorAhead, t) := operatorBehind_run u
  have hkeep {c : Continuation} (h : least ≤ c.rank) :
      (some c).filter (least ≤ ·.rank) = some c := Option.filter_some_pos (decide_eq_true h)
  have hdrop {c : Continuation} (h : ¬ least ≤ c.rank) :
      (some c).filter (least ≤ ·.rank) = none := Option.filter_some_neg (by simpa using h)
  have hword {k : Keyword} (hk : k ≠ .NOT) (h : s.kindAt 1 = .keyword k) :
      s.operatorAhead = .keyword k := by
    rw [ParseState.operatorAhead, if_neg, h]
    rw [h]
    exact fun hnot => hk (Kind.keyword.inj hnot.1)
  unfold continuation?
  rw [run_bind, show peekKind.run s = (s.kindAt 1, u) from rfl, ParseState.ahead]
  dsimp only
  split
  next h => exact ⟨u, hlook, by rw [if_pos h.1, hkeep (c := .isNull) h.2]; rfl⟩
  next his =>
    split
    next h =>
      have hne : s.kindAt 1 ≠ .keyword .IS := by rw [h.1]; decide
      exact ⟨u, hlook, by rw [if_neg hne, if_pos h.1, hkeep (c := .clipped) h.2]; rfl⟩
    next hclipped =>
      refine ⟨t, hlook.trans hlook', ?_⟩
      rw [run_bind, hoperator]
      dsimp only
      by_cases h : s.kindAt 1 = .keyword .IS
      · rw [if_pos h, hdrop (c := .isNull) fun hleast => his ⟨h, hleast⟩, hword (by decide) h]
        rfl
      rw [if_neg h]
      by_cases h : s.kindAt 1 = .keyword .CLIPPED
      · rw [if_pos h, hdrop (c := .clipped) fun hleast => hclipped ⟨h, hleast⟩,
          hword (by decide) h]
        rfl
      rw [if_neg h]
      cases s.operatorAhead.level? with
      | none => rfl
      | some level =>
        dsimp only
        by_cases h : least ≤ level.rank
        · rw [Option.map_some, hkeep (c := .binary _ _ level) h, if_pos h]
          rfl
        · rw [Option.map_some, hdrop (c := .binary _ _ level) h, if_neg h]
          rfl

end Parser

/-! ## The grammar -/

/-- An operator behind the expression belongs to an operand at its right end if it has this rank or
a higher one. -/
def Expression.edge : Expression → Nat
  | .unary _ operator operand =>
    min ((operandRank? operator).getD (Level.unary.rank + 1)) operand.edge
  | .binary _ _ operator _ right =>
    min ((operator.level?.map (rightRank operator)).getD (Level.unary.rank + 1)) right.edge
  | _ => Level.unary.rank + 1

section

variable (T : Kind → String → Prop) (D : Nat → Expression → Prop)

/-- The step is read without an error: the kind and the text of a name are as `T` says, and indices
are operands as `D` says. -/
def Accessor.Fits : Accessor → Prop
  | .member name => ∃ k : Kind, (k.canBeName || k.isKeyword) = true ∧ T k name
  | .index indices => indices ≠ [] ∧ ∀ e ∈ indices, D Level.lowest.rank e
  | .allMembers => True

structure Designator.Fits (d : Designator) : Prop where
  name : ∃ k : Kind, k.canBeName = true ∧ T k d.name
  accessors : ∀ a ∈ d.accessors, a.Fits T D

/-- Literals, parenthesized expressions, names and calls. -/
inductive Expression.Primary : Expression → Prop where
  | literal {span : Span} (hkind : literalKind? k = some kind) (htext : T k text) :
      Primary (.literal span kind text)
  | parenthesized {span : Span} {inner : Expression} (hinner : D Level.lowest.rank inner) :
      Primary (.parenthesized span inner)
  | name (hname : d.Fits T D) : Primary (.name d)
  | call {span : Span} (hcallee : callee.Fits T D)
      (harguments : ∀ e ∈ arguments, D Level.lowest.rank e) :
        Primary (.call span callee arguments)

/-- A primary expression, or a sign or negation before an operand. -/
inductive Expression.Signed : Expression → Prop where
  | primary (h : e.Primary T D) : Signed e
  | unary {span : Span} (hrank : operandRank? operator = some rank) (hoperand : D rank operand) :
      Signed (.unary span operator operand)

/-- An operand and operators behind it, each of which has at least the rank `least` and stays below
the edge of what is before it. -/
inductive Expression.Chain (least : Nat) : Expression → Prop where
  | signed (h : e.Signed T D) : Chain least e
  | isNull {span : Span} {left : Expression} (hleft : Chain least left)
      (hleast : least ≤ Level.comparison.rank) (hedge : Level.comparison.rank < left.edge) :
      Chain least (.isNull span left negated)
  | clipped {span : Span} {left : Expression} (hleft : Chain least left)
      (hleast : least ≤ Level.format.rank) (hedge : Level.format.rank < left.edge) :
      Chain least (.clipped span left)
  | binary {span : Span} {left : Expression} (hleft : Chain least left)
      (hlevel : operator.level? = some level) (hleast : least ≤ level.rank)
      (hedge : level.rank < left.edge)
      (hnegated : negated = true → operator = .keyword .LIKE ∨ operator = .keyword .MATCHES)
      (hright : D (rightRank operator level) right) :
      Chain least (.binary span left operator negated right)

end

/-- No operator binds as tightly as a sign. -/
theorem Expression.Chain.signed_of_unary {e : Expression}
    (h : e.Chain T D Level.unary.rank) : e.Signed T D := by
  cases h with
  | signed h => exact h
  | isNull _ hleast => exact absurd hleast (by decide)
  | clipped _ hleast => exact absurd hleast (by decide)
  | binary _ hlevel hleast =>
    unfold Kind.level? at hlevel
    split at hlevel <;> cases hlevel <;> exact absurd hleast (by decide)

/-- The expressions that are read without an error where `levels` levels of nesting are left and
operators have at least the rank `least`. -/
def Expression.Fits (T : Kind → String → Prop) : (levels least : Nat) → Expression → Prop
  | 0, _, _ => False
  | levels + 1, least, e => e.Chain T (Fits T levels) least

/-! ## Clean runs yield expressions of the grammar -/

/-- What comes next goes on neither with the expression, with operators of at least the rank
`least`, nor with an operand at its right end. -/
def ParseState.Closes (s : ParseState) (least : Nat) (e : Expression) : Prop :=
  ∀ c ∈ s.ahead, c.rank < least ∧ c.rank < e.edge

namespace Parser

/-- The next tokens begin the step; the name of a member is a name or a keyword. -/
def Selection.Stands (s : ParseState) : Selection → Prop
  | .member => s.kindAt 1 = .mark .dot ∧ ((s.kindAt 2).canBeName || (s.kindAt 2).isKeyword) = true
  | .allMembers => s.kindAt 1 = .mark .dot ∧ s.kindAt 2 = .mark .asterisk
  | .index => s.kindAt 1 = .mark .openBracket

theorem peeks_selection? : selection?.Peeks := by
  refine .bind peeks_peekKind fun kind => ?_
  split
  · exact .bind (peeks_peekAt 2) fun second => .ite (.pure _) (.ite (.pure _) (.pure _))
  · exact .pure _
  · exact .pure _

theorem selection?_stands (h : selection?.run s = (some selection, t)) : selection.Stands s := by
  obtain ⟨kind, u, hpeek, h⟩ := run_of_bind h
  have hlook := peeks_peekKind.of_run hpeek
  have hfirst : s.kindAt 1 = kind := (hlook.kindAt 1).symm.trans (kindAt_of_peekKind hpeek)
  split at h
  · obtain ⟨second, v, hsecond, h⟩ := run_of_bind h
    have hkind : s.kindAt 2 = second.kind := by
      rw [← tokenAt_of_peekAt hsecond, ← (hlook.trans ((peeks_peekAt 2).of_run hsecond)).kindAt]
      rfl
    split at h
    next hasterisk =>
      cases h
      exact ⟨hfirst, hkind.trans hasterisk⟩
    next =>
      split at h
      next hname =>
        cases h
        refine ⟨hfirst, ?_⟩
        rw [hkind]
        revert hname
        cases second.kind.canBeName <;> cases second.kind.isKeyword <;> simp
      next => cases h
  · cases h
    exact hfirst
  · cases h

/-- Clean runs of a parser of operands yield what `D` says, and leave nothing that would go on with
it. -/
def Yields (T : Kind → String → Prop) (D : Nat → Expression → Prop)
    (deeper : Nat → Parser Expression) : Prop :=
  ∀ {s least e t}, AllLeft T s → (deeper least).Clean s e t → D least e ∧ t.Closes least e

section

set_option synthInstance.maxSize 512

variable {deeper : Nat → Parser Expression} [∀ rank, (deeper rank).KeepsNames]
  (hdeeper : Yields T D deeper)
include hdeeper

theorem yields_expressionWith? (h : (expressionWith? deeper).Clean s (some e) t)
    (hs : AllLeft T s) :
    D Level.lowest.rank e := by
  obtain ⟨k, u, hpeek, h⟩ := h.bind
  split at h
  · obtain ⟨e', v, hrun, h⟩ := h.bind
    obtain ⟨heq, -⟩ := h.of_pure
    obtain rfl := Option.some.inj heq
    exact (hdeeper (hpeek.errorFree.allLeft hs) hrun).1
  · cases h.of_pure.1

theorem yields_expectExpressionWith (h : (expectExpressionWith deeper).Clean s e t)
    (hs : AllLeft T s) : D Level.lowest.rank e := by
  unfold expectExpressionWith at h
  obtain ⟨found, u, hfound, h⟩ := h.bind (F := fun e => by cases e <;> infer_instance)
  cases found with
  | none => exact (Clean.not_missingExpression h).elim
  | some e' =>
    obtain ⟨rfl, -⟩ := h.of_pure
    exact yields_expressionWith? hdeeper hfound hs

theorem yields_expressionListWith (h : (expressionListWith deeper).Clean s es t)
    (hs : AllLeft T s) :
    es ≠ [] ∧ ∀ e ∈ es, D Level.lowest.rank e := by
  refine ⟨Clean.ne_nil_of_commaList h fun s t => ?_,
    Clean.of_commaList h fun herrorFree hitem => ?_⟩
  · rw [run_bind]
    exact fun h => Option.some_ne_none _ (congrArg Prod.fst h)
  · obtain ⟨e', u, hrun, hitem⟩ := hitem.bind
    obtain ⟨heq, -⟩ := hitem.of_pure
    exact Option.some.inj heq ▸ yields_expectExpressionWith hdeeper hrun (herrorFree.allLeft hs)

theorem yields_accessor (h : (accessor deeper selection).Clean s a t) (hs : AllLeft T s)
    (hmember : selection = .member → ((s.kindAt 1).canBeName || (s.kindAt 1).isKeyword) = true) :
    a.Fits T D := by
  cases selection with
  | member =>
    obtain ⟨name, u, hnext, h⟩ := h.bind
    obtain ⟨rfl, -⟩ := h.of_pure
    obtain ⟨htakes, rfl⟩ := hnext.of_next
    refine ⟨s.kindAt 1, hmember rfl, htakes.token hs fun hend => ?_⟩
    have hname := hmember rfl
    rw [hend] at hname
    cases hname
  | allMembers =>
    obtain ⟨_, u, -, h⟩ := h.bind
    obtain ⟨rfl, -⟩ := h.of_pure
    trivial
  | index =>
    obtain ⟨indices, u, hindices, h⟩ := h.bind
    obtain ⟨_, v, -, h⟩ := h.bind
    obtain ⟨rfl, -⟩ := h.of_pure
    exact yields_expressionListWith hdeeper hindices hs

theorem yields_designatorWith? (h : (designatorWith? deeper).Clean s (some d) t)
    (hs : AllLeft T s) :
    d.Fits T D := by
  unfold designatorWith? at h
  obtain ⟨name, u, hname, h⟩ := h.bind (F := fun name => by cases name <;> infer_instance)
  obtain ⟨hkind, htakes, rfl⟩ | ⟨-, -, rfl⟩ := hname.of_name?
  · obtain ⟨accessors, v, hloop, h⟩ := h.bind
    obtain ⟨span, w, -, h⟩ := h.bind
    obtain ⟨heq, -⟩ := h.of_pure
    obtain rfl := Option.some.inj heq
    refine ⟨⟨_, hkind, htakes.token hs (ne_of_canBeName hkind).2⟩, ?_⟩
    let R (as : List Accessor) (s : ParseState) : Prop := AllLeft T s ∧ ∀ a ∈ as, a.Fits T D
    refine (hloop.of_whileNext (R := R) (fun as s g t hfound => ?_)
      (fun as s g t u bs v hR hguard htakes hbody => ?_)
        ⟨htakes.errorFree.allLeft hs, nofun⟩).elim
      fun _ h => h.1.2
    · obtain hkind | hkind := (selection?_found hfound).1 <;> rw [hkind] <;> exact Kind.noConfusion
    · have hu := htakes.errorFree.allLeft (hguard.errorFree.allLeft hR.1)
      have hv := hbody.errorFree.allLeft hu
      obtain ⟨a, w, ha, hbody⟩ := hbody.bind
      obtain ⟨rfl, -⟩ := hbody.of_pure
      refine ⟨hv, List.forall_mem_append.mpr ⟨hR.2, List.forall_mem_singleton.mpr ?_⟩⟩
      refine yields_accessor hdeeper ha hu fun hmember => ?_
      obtain ⟨x, hlook, rfl⟩ := htakes.read
      have hlook' := hguard.looks peeks_selection?
      have hstands : Selection.member.Stands s := selection?_stands (hmember ▸ hguard.run_eq)
      rw [kindAt_read, hlook.kindAt, hlook'.kindAt]
      exact hstands.2
  · cases h.of_pure.1

theorem yields_callWith (h : (callWith deeper callee).Clean s e t) (hs : AllLeft T s)
    (hcallee : callee.Fits T D) : e.Primary T D := by
  unfold callWith at h
  obtain ⟨_, u, hnext, h⟩ := h.bind
  obtain ⟨closed, v, hclosed, h⟩ := h.bind
  have hv := hclosed.errorFree.allLeft (hnext.errorFree.allLeft hs)
  dsimp only at h
  split at h
  · obtain ⟨arguments, w, harguments, h⟩ := h.bind
    obtain ⟨rfl, -⟩ := harguments.of_pure
    obtain ⟨_, x, -, h⟩ := h.bind
    obtain ⟨span, y, -, h⟩ := h.bind
    obtain ⟨rfl, -⟩ := h.of_pure
    exact .call hcallee nofun
  · obtain ⟨arguments, w, harguments, h⟩ := h.bind
    obtain ⟨_, x, -, h⟩ := h.bind
    obtain ⟨span, y, -, h⟩ := h.bind
    obtain ⟨rfl, -⟩ := h.of_pure
    exact .call hcallee (yields_expressionListWith hdeeper harguments hv).2

theorem yields_primaryWith (h : (primaryWith deeper).Clean s e t) (hs : AllLeft T s) :
    e.Primary T D := by
  have hname := has_nameOrCall (R := keepsNames) (l := 0) deeper
  obtain ⟨token, u, hpeek, hlook, h⟩ := h.behind_look (peeks_peekAt 1)
  obtain ⟨rfl, -⟩ := Prod.mk.inj hpeek
  have hu := hlook.errorFree.allLeft hs
  split at h
  next kind hkind =>
    obtain ⟨_, v, hnext, h⟩ := h.bind
    obtain ⟨span, w, -, h⟩ := h.bind
    obtain ⟨rfl, -⟩ := h.of_pure
    refine .literal hkind ?_
    rw [← hlook.tokenAt]
    refine hnext.of_next.1.token hu fun hend => ?_
    rw [hlook.kindAt, kindAt] at hend
    rw [hend] at hkind
    cases hkind
  next =>
    obtain ⟨opened, v, hopened, h⟩ := h.bind
    obtain ⟨rfl, -, htakes⟩ | ⟨rfl, -, hlook'⟩ := hopened.of_optional
    · obtain ⟨inner, w, hinner, h⟩ := h.bind
      obtain ⟨_, x, -, h⟩ := h.bind
      obtain ⟨span, y, -, h⟩ := h.bind
      obtain ⟨rfl, -⟩ := h.of_pure
      exact .parenthesized (yields_expectExpressionWith hdeeper hinner
        (htakes.errorFree.allLeft hu))
    · obtain ⟨found, w, hfound, h⟩ := h.bind
      cases found with
      | none => exact (Clean.not_missingExpression h).elim
      | some d =>
        have hd := yields_designatorWith? hdeeper hfound (hlook'.errorFree.allLeft hu)
        have hw := hfound.errorFree.allLeft (hlook'.errorFree.allLeft hu)
        obtain ⟨called, x, hcalled, h⟩ := h.bind
        split at h
        · exact yields_callWith hdeeper h (hcalled.errorFree.allLeft hw) hd
        · obtain ⟨rfl, -⟩ := h.of_pure
          exact .name hd

omit hdeeper in
/-- Nothing goes on inside an expression that ends with a token of its own. -/
theorem lt_edge_of_eq {e : Expression} (h : e.edge = Level.unary.rank + 1) (c : Continuation) :
    c.rank < e.edge := by
  rw [h]
  exact Nat.lt_succ_of_le c.rank_le_unary

theorem yields_unaryWith (h : (unaryWith deeper).Clean s e t) (hs : AllLeft T s) :
    e.Signed T D ∧ ∀ c ∈ t.ahead, c.rank < e.edge := by
  obtain ⟨token, u, hpeek, hlook, h⟩ := h.behind_look (peeks_peekAt 1)
  obtain ⟨rfl, -⟩ := Prod.mk.inj hpeek
  have hu := hlook.errorFree.allLeft hs
  split at h
  next =>
    have hprimary := yields_primaryWith hdeeper h hu
    refine ⟨.primary hprimary, fun c _ => lt_edge_of_eq ?_ c⟩
    cases hprimary <;> rfl
  next rank hrank =>
    obtain ⟨_, v, hnext, h⟩ := h.bind
    obtain ⟨k, w, hpeek, h⟩ := h.bind
    have hw := hpeek.errorFree.allLeft (hnext.errorFree.allLeft hu)
    dsimp only at h
    split at h
    · obtain ⟨operand, x, hoperand, h⟩ := h.bind
      obtain ⟨span, y, hspan, h⟩ := h.bind
      obtain ⟨rfl, rfl⟩ := h.of_pure
      obtain ⟨-, rfl⟩ := Prod.mk.inj hspan.run_eq
      obtain ⟨hfits, hcloses⟩ := hdeeper hw hoperand
      refine ⟨.unary hrank hfits, fun c hc => ?_⟩
      rw [Expression.edge, hrank]
      exact Nat.lt_min.mpr (hcloses c hc)
    · obtain ⟨operand, x, hoperand, h⟩ := h.bind
      exact (Clean.not_missingExpression hoperand).elim

/-- Going on keeps a chain. -/
theorem yields_continueWith {left : Expression} (h : (continueWith deeper start left c).Clean s e t)
    (hs : AllLeft T s) (hleft : left.Chain T D least) (hleast : least ≤ c.rank)
    (hedge : c.rank < left.edge) {u : ParseState} (hahead : u.ahead = some c) :
    e.Chain T D least ∧ ∀ c ∈ t.ahead, c.rank < e.edge := by
  cases c with
  | isNull =>
    obtain ⟨negated, u, -, h⟩ := h.bind
    obtain ⟨_, v, -, h⟩ := h.bind
    obtain ⟨span, w, -, h⟩ := h.bind
    obtain ⟨rfl, -⟩ := h.of_pure
    exact ⟨.isNull hleft hleast hedge, fun c _ => lt_edge_of_eq rfl c⟩
  | clipped =>
    obtain ⟨span, w, -, h⟩ := h.bind
    obtain ⟨rfl, -⟩ := h.of_pure
    exact ⟨.clipped hleft hleast hedge, fun c _ => lt_edge_of_eq rfl c⟩
  | binary operator negated level =>
    obtain ⟨hlevel, hnegated⟩ := binary_of_ahead hahead
    have hright {v : ParseState} (hv : AllLeft T v) (h : Clean (do
        let right ← deeper (rightRank operator level)
        return .binary (← spanFrom start) left operator negated right) v e t) :
        e.Chain T D least ∧ ∀ c ∈ t.ahead, c.rank < e.edge := by
      obtain ⟨right, w, hright, h⟩ := h.bind
      obtain ⟨span, x, hspan, h⟩ := h.bind
      obtain ⟨rfl, rfl⟩ := h.of_pure
      obtain ⟨-, rfl⟩ := Prod.mk.inj hspan.run_eq
      obtain ⟨hfits, hcloses⟩ := hdeeper hv hright
      refine ⟨.binary hleft hlevel hleast hedge hnegated hfits, fun c hc => ?_⟩
      rw [Expression.edge, hlevel]
      exact Nat.lt_min.mpr (hcloses c hc)
    unfold continueWith at h
    dsimp only at h
    split at h
    · obtain ⟨_, v, hnext, h⟩ := h.bind
      exact hright (hnext.errorFree.allLeft hs) h
    · exact hright hs h

end

/-- A clean run yields an expression that fits. -/
theorem yields_operandAt (T : Kind → String → Prop) (levels : Nat) :
    Yields T (Expression.Fits T levels) (operandAt levels) := by
  induction levels with
  | zero =>
    intro s least e t hs h
    obtain ⟨_, hlevels, -⟩ := h.of_operandAt hs.limitReported_eq
    cases hlevels
  | succ levels ih =>
    intro s least e t hs h
    obtain ⟨_, ⟨⟩, h⟩ := h.of_operandAt hs.limitReported_eq
    obtain ⟨s', t', hbefore, h, hbehind⟩ := h.of_nested
    obtain ⟨start, u, hstart, h⟩ := h.bind
    obtain ⟨first, v, hfirst, h⟩ := h.bind
    have hu := hstart.errorFree.allLeft (hbefore.errorFree.allLeft hs)
    have hv := hfirst.errorFree.allLeft hu
    obtain ⟨hsigned, hedge⟩ := yields_unaryWith ih hfirst hu
    let R (e : Expression) (s : ParseState) : Prop :=
      AllLeft T s ∧ e.Chain T (Expression.Fits T levels) least ∧
      ∀ c ∈ s.ahead, c.rank < e.edge
    have hround (e : Expression) (s : ParseState) (c : Continuation) (t u : ParseState)
        (e' : Expression) (v : ParseState) (hR : R e s)
        (hguard : (continuation? least).Clean s (some c) t) (htakes : Takes t u)
        (hbody : (continueWith (operandAt levels) start e c).Clean u e' v) : R e' v := by
      obtain ⟨hs, hchain, hedge⟩ := hR
      have hu := htakes.errorFree.allLeft (hguard.errorFree.allLeft hs)
      obtain ⟨t', -, hrun⟩ := continuation?_run least s
      obtain ⟨hc, -⟩ := Prod.mk.inj (hguard.run_eq.symm.trans hrun)
      obtain ⟨hahead, hleast⟩ := Option.filter_eq_some_iff.mp hc.symm
      refine ⟨hbody.errorFree.allLeft hu, ?_⟩
      exact yields_continueWith ih hbody hu hchain (of_decide_eq_true hleast)
        (hedge c hahead) hahead
    obtain ⟨w, ⟨-, hchain, hedge⟩, hstop⟩ := h.of_whileNext (R := R)
      (fun _ _ _ _ h => (continuation?_found h).1.2) hround ⟨hv, .signed hsigned, hedge⟩
    obtain ⟨v', hlook, hrun⟩ := continuation?_run least w
    obtain ⟨hnone, rfl⟩ := Prod.mk.inj (hstop.run_eq.symm.trans hrun)
    refine ⟨hchain, fun c hc => ?_⟩
    rw [(hlook.trans hbehind).ahead_eq] at hc
    refine ⟨Nat.lt_of_not_le fun hleast => ?_, hedge c hc⟩
    exact Option.filter_eq_none_iff.mp hnone.symm c hc (decide_eq_true hleast)

end Parser

end FourGL
