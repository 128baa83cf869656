import FourGL.Proofs.Grammar.Likeness

/-!
# Parsers that agree

Two parsers `Agree` if from like states they come to like states with related results. Parsers that
only look around and report give equal results, they are `Steady`. What expressions, types and names
are read does not matter for what comes behind them, only how many there are, which words the names
are and where they stand.
-/

namespace FourGL

open FourGL.Parser FourGL.ParseState

variable {L : Likeness}

namespace Parser

/-- From like states the parsers come to like states, with related results. -/
def Agree (L : Likeness) (V : α → β → Prop) (p : Parser α) (q : Parser β) : Prop :=
  ∀ s t, s.Like L t → V (p.run s).1 (q.run t).1 ∧ (p.run s).2.Like L (q.run t).2

/-- As `Agree`, where corresponding tokens have just been read. -/
def AgreeBehind (L : Likeness) (V : α → β → Prop) (p : Parser α) (q : Parser β) : Prop :=
  ∀ s t, s.Like L t → Token.Like L s.input.last t.input.last →
    V (p.run s).1 (q.run t).1 ∧ (p.run s).2.Like L (q.run t).2

/-- From like states the parser gives equal results. -/
class Steady (L : Likeness) (p : Parser α) : Prop where
  agree : Agree L Eq p p

namespace Agree

variable {p : Parser α} {q : Parser β} {f : α → Parser γ} {g : β → Parser δ}

theorem pure {a : α} {b : β} (h : V a b) :
    Agree L V (pure a) (pure b) := fun _ _ hst => ⟨h, hst⟩

theorem bind (hp : Agree L V p q) (hf : ∀ a b, V a b → Agree L W (f a) (g b)) :
    Agree L W (p >>= f) (q >>= g) := fun s t hst =>
  have h := hp s t hst
  hf _ _ h.1 _ _ h.2

theorem past {p : Parser α} {f : α → Parser γ} {g : α → Parser δ} [hp : Steady L p]
    (hf : ∀ a, Agree L W (f a) (g a)) : Agree L W (p >>= f) (p >>= g) :=
  hp.agree.bind fun a _ hab => hab ▸ hf a

theorem mono (hp : Agree L V p q) (hVW : ∀ a b, V a b → W a b) : Agree L W p q :=
  fun s t hst => (hp s t hst).imp (hVW _ _) id

theorem map {h : α → γ} {k : β → δ} (hp : Agree L V p q)
    (hV : ∀ a b, V a b → W (h a) (k b)) :
    Agree L W (h <$> p) (k <$> q) := hp.bind fun a b hab => pure (hV a b hab)

theorem ite {c : Prop} [Decidable c] {p p' : Parser α} {q q' : Parser β} (hp : Agree L V p q)
    (hp' : Agree L V p' q') : Agree L V (if c then p else p') (if c then q else q') := by
  split
  · exact hp
  · exact hp'

theorem behind (hp : Agree L V p q) : AgreeBehind L V p q := fun s t hst _ => hp s t hst

end Agree

namespace AgreeBehind

theorem last {f : Token → Parser α} {g : Token → Parser β}
    (hf : ∀ t u, Token.Like L t u → AgreeBehind L V (f t) (g u)) :
    AgreeBehind L V (last >>= f) (last >>= g) := fun s t hst hlast => hf _ _ hlast s t hst hlast

theorem bind {p : Parser α} {q : Parser β} {f : α → Parser γ} {g : β → Parser δ}
    (hp : AgreeBehind L V p q) (hf : ∀ a b, V a b → Agree L W (f a) (g b)) :
    AgreeBehind L W (p >>= f) (q >>= g) := fun s t hst hlast =>
  have h := hp s t hst hlast
  hf _ _ h.1 _ _ h.2

end AgreeBehind

/-! ## Loops -/

section

variable {guard : σ → Parser (β ⊕ γ)} {guard' : τ → Parser (β ⊕ γ)}
    {body : σ → γ → Parser σ}
  {body' : τ → γ → Parser τ} {atEnd : β} {S : σ → τ → Prop}

/-- Loops agree whose guards decide alike and whose rounds lead from related values to related
values. -/
theorem Agree.loop (hguard : ∀ a b, S a b → Agree L Eq (guard a) (guard' b))
    (hbody : ∀ a b, S a b → ∀ g, AgreeBehind L S (body a g) (body' b g)) (a : σ) (b : τ)
    (hab : S a b) : Agree L (fun x y => S x.1 y.1 ∧ x.2 = y.2) (loop atEnd guard body a)
      (loop atEnd guard' body' b) := by
  intro s
  revert b
  induction a, s using loopFrom.induct guard body with
  | case1 a s stop u h =>
    intro b hab t hst
    obtain ⟨heq, hlike⟩ := hguard a b hab s t hst
    rw [h] at heq hlike
    have h' : (guard' b).run t = (.inl stop, ((guard' b).run t).2) := Prod.ext heq.symm rfl
    rw [run_loop_stop h, run_loop_stop h']
    exact ⟨⟨hab, rfl⟩, hlike⟩
  | case2 a s g u h hnil =>
    intro b hab t hst
    obtain ⟨heq, hlike⟩ := hguard a b hab s t hst
    rw [h] at heq hlike
    have h' : (guard' b).run t = (.inr g, ((guard' b).run t).2) := Prod.ext heq.symm rfl
    have hnil' : ((guard' b).run t).2.input.rest = [] := by simpa [hnil] using hlike.rest
    rw [run_loop_cut h hnil, run_loop_cut h' hnil']
    exact ⟨⟨hab, rfl⟩, hlike⟩
  | case3 a s g u h l ls hrest r ih =>
    intro b hab t hst
    obtain ⟨heq, hlike⟩ := hguard a b hab s t hst
    rw [h] at heq hlike
    have h' : (guard' b).run t = (.inr g, ((guard' b).run t).2) := Prod.ext heq.symm rfl
    have hne : u.input.rest ≠ [] := by simp [hrest]
    have hne' : ((guard' b).run t).2.input.rest ≠ [] := by
      intro hnil
      have hlength := hlike.rest.length_eq
      simp [hrest, hnil] at hlength
    rw [run_loop_round h hne, run_loop_round h' hne']
    obtain ⟨hS, hround⟩ := hbody a b hab g _ _ hlike.read hlike.last_read
    exact ih _ hS _ hround

theorem Agree.whileNext {guard : σ → Parser (Option γ)} {guard' : τ → Parser (Option γ)}
    (hguard : ∀ a b, S a b → Agree L Eq (guard a) (guard' b))
    (hbody : ∀ a b, S a b → ∀ g, AgreeBehind L S (body a g) (body' b g)) (hab : S a b) :
    Agree L S (whileNext guard body a) (whileNext guard' body' b) :=
  (Agree.loop (fun a b hab => (hguard a b hab).bind fun _ _ hxy => .pure (hxy ▸ rfl)) hbody _ _
    hab).bind fun _ _ hxy => .pure hxy.1

end

/-! ## Looking and reading -/

section

variable {p q : Parser α} {f : α → Parser β}

instance : Steady L (pure a : Parser α) := ⟨.pure rfl⟩

instance [Steady L p] [hf : ∀ a, Steady L (f a)] :
    Steady L (p >>= f) := ⟨.past fun a => (hf a).agree⟩

instance {c : Prop} [Decidable c] [hp : Steady L p] [hq : Steady L q] :
    Steady L (if c then p else q) := ⟨.ite hp.agree hq.agree⟩

end

theorem agree_peekAt (depth : Nat) : Agree L (Token.Like L) (peekAt depth) (peekAt depth) :=
  fun _ _ hst => ⟨hst.tokenAt depth, hst.looked depth⟩

theorem agree_peek : Agree L (Token.Like L) peek peek := agree_peekAt 1

theorem agree_next : Agree L (Token.Like L) next next :=
  fun _ _ hst => ⟨hst.last_read, hst.read⟩

theorem agree_last : Agree L (fun t u => t.kind = u.kind ∧ L.Same t u) last last :=
  fun _ _ hst => ⟨⟨hst.last_kind_eq, hst.last_same⟩, hst⟩

theorem agree_lastStop : Agree L L.Same lastStop lastStop :=
  agree_last.bind fun _ _ h => .pure (h.2.map Token.stop)

theorem agree_nextStart :
    Agree L (fun p q => L.start p q ∧ L.Same p q) nextStart nextStart :=
  agree_peek.bind fun _ _ h => .pure ⟨h.start, h.same.map Token.start⟩

theorem agree_spanFrom (h : L.Same p q) : Agree L L.Same (spanFrom p) (spanFrom q) :=
  agree_lastStop.bind fun _ _ hstop =>
    .pure (h.map₂ hstop fun p stop => Span.between p (max stop p))

instance : Steady L (modifyNesting f) :=
  ⟨fun _ _ hst => ⟨rfl, { hst with nesting_eq := congrArg f hst.nesting_eq }⟩⟩

instance : Steady L leave := inferInstanceAs (Steady L (modifyNesting _))

instance : Steady L limitReached :=
  ⟨fun _ _ hst => ⟨congrArg Nesting.isFull hst.nesting_eq, hst⟩⟩

/-- A token that is read and dropped. -/
theorem Agree.skip {f : Token → Parser α} {g : Token → Parser β}
    (hf : ∀ t u, Agree L V (f t) (g u)) :
    Agree L V (next >>= f) (next >>= g) := agree_next.bind fun t u _ => hf t u

instance : Steady L peekKind := ⟨agree_peek.bind fun _ _ h => .pure h.kind_eq⟩
instance : Steady L (nextIs k) := by unfold nextIs; infer_instance
instance : Steady L (secondIs k) :=
  ⟨(agree_peekAt 2).bind fun _ _ h => .pure (h.kind_eq ▸ rfl)⟩
instance {p q : Parser Bool} [Steady L p] [Steady L q] : Steady L (both p q) := by
  unfold both; infer_instance
instance steady_secondCanBeName : Steady L (do return (← peekAt 2).kind.canBeName) :=
  ⟨(agree_peekAt 2).bind fun _ _ h => .pure (h.kind_eq ▸ rfl)⟩
instance : Steady L (nextBeforeName k) := by unfold nextBeforeName; infer_instance
instance : Steady L (nextAre k l) := by unfold nextAre; infer_instance
instance {p : Parser Bool} [Steady L p] : Steady L (when p) := by unfold when; infer_instance
instance {state : List α × Bool} : Steady L (commaFollows state) := by
  unfold commaFollows; infer_instance

/-! ## Reporting -/

theorem agree_report (m : Message) (hargs : L.Same args args') (hspan : L.Same span span')
    (hstart : L.start span.start span'.start) :
    Agree L Eq (report m args span) (report m args' span') := fun _ _ hst =>
  ⟨rfl, { hst with reports := .cons (Diagnostic.like_of m hargs hspan hstart) hst.reports }⟩

instance : Steady L (reportNext m args) :=
  ⟨agree_peek.bind fun _ _ h => agree_report m .rfl h.same_span h.start⟩

instance : Steady L Parser.errorCount := ⟨fun _ _ hst => ⟨hst.errorCount_eq, hst⟩⟩

instance : Steady L reportLimit := by
  have hlimit : Steady L (ask (·.limitReported)) := ⟨fun _ _ hst => ⟨hst.limit_eq, hst⟩⟩
  have hset : Steady L ⟨fun s => ((), { s with limitReported := true }),
      fun _ => Nat.le_refl _⟩ :=
    ⟨fun _ _ hst => ⟨rfl, { hst with limit_eq := rfl }⟩⟩
  unfold reportLimit
  dsimp only
  infer_instance

instance : Steady L enter := by unfold enter; infer_instance

theorem Agree.nestedOr {tooDeep p : Parser α} {tooDeep' q : Parser β}
    (hdeep : Agree L V tooDeep tooDeep') (hp : Agree L V p q) :
    Agree L V (nestedOr tooDeep p) (nestedOr tooDeep' q) :=
  .past fun _ => .ite (hp.bind fun _ _ hab => .past fun _ => .pure hab) hdeep

instance : Steady L (optional k) := by
  have hskip : Steady L (next >>= fun _ => pure true) := ⟨.skip fun _ _ => .pure rfl⟩
  unfold optional
  infer_instance
instance : Steady L (expect k) := by unfold expect; infer_instance

/-! ## Names -/

theorem agree_name? : Agree L (Option.Rel (Named L)) name? name? := by
  refine agree_peek.bind fun t u h => ?_
  rw [h.kind_eq]
  exact .ite (.skip fun _ _ => .pure (.some h.named)) (.pure .none)

theorem agree_expectName : Agree L (Option.Rel (Named L)) expectName expectName := by
  refine agree_name?.bind fun x y h => ?_
  cases h with
  | some h => exact .pure (.some h)
  | none => exact .past fun _ => .pure .none

theorem agree_expectNameText : Agree L (Option.Rel L.text) expectNameText expectNameText := by
  refine agree_expectName.bind fun x y h => ?_
  cases h with
  | some h => exact .pure (.some h.text)
  | none => exact .pure .none

theorem agree_getNames : Agree L (Names.Like L) getNames getNames :=
  fun _ _ hst => ⟨hst.names, hst⟩

theorem agree_setNames (h : Names.Like L n m) : Agree L Eq (setNames n) (setNames m) :=
  fun _ _ hst => ⟨rfl, { hst with names := h }⟩

theorem agree_modifyNames {f g : Names → Names}
    (h : ∀ n m, Names.Like L n m → Names.Like L (f n) (g m)) :
    Agree L Eq (modifyNames f) (modifyNames g) :=
  agree_getNames.bind fun n m hnm => agree_setNames (h n m hnm)

/-! ## Lists -/

section

variable {item item' : Parser (Option α)} {R : α → α → Prop}

theorem agree_commaTail (hitem : Agree L (Option.Rel R) item item')
    (has : List.Forall₂ R as bs) :
    Agree L (List.Forall₂ R) (commaTail item as) (commaTail item' bs) := by
  let S (x y : List α × Bool) : Prop := List.Forall₂ R x.1 y.1 ∧ x.2 = y.2
  have hguard : ∀ x y, S x y → Agree L Eq (commaFollows x) (commaFollows y) := by
    rintro ⟨as, b⟩ ⟨bs, c⟩ ⟨-, rfl : b = c⟩
    exact Agree.ite Steady.agree (.pure rfl)
  refine (Agree.whileNext (S := S) hguard ?_
    (show S (as, true) (bs, true) from ⟨has, rfl⟩)).bind fun _ _ hxy => .pure hxy.1
  rintro ⟨as, b⟩ ⟨bs, c⟩ ⟨hlist, -⟩ -
  refine (hitem.bind fun x y hxy => ?_).behind
  cases hxy with
  | some h => exact .pure ⟨List.rel_append hlist (.cons h .nil), rfl⟩
  | none => exact .pure ⟨hlist, rfl⟩

theorem agree_commaList (hitem : Agree L (Option.Rel R) item item') :
    Agree L (List.Forall₂ R) (commaList item) (commaList item') := by
  refine hitem.bind fun x y hxy => ?_
  cases hxy with
  | some h => exact agree_commaTail hitem (.cons h .nil)
  | none => exact .pure .nil

end

/-! ## Expressions -/

theorem agree_missingExpression :
    Agree L (Expression.Like L) missingExpression missingExpression :=
  .past fun _ => agree_nextStart.bind fun _ _ h =>
    .pure ⟨h.2.map fun p => Expression.missing (.empty p), rfl⟩

instance : Steady L selection? := by
  unfold selection?
  refine ⟨.past fun kind => ?_⟩
  split
  · refine (agree_peekAt 2).bind fun t u h => ?_
    rw [h.kind_eq, Token.lineBreakBefore, h.flags_eq]
    exact Steady.agree
  · exact .pure rfl
  · exact .pure rfl

instance : Steady L (operatorBehind kind) := by
  unfold operatorBehind
  refine ⟨.ite ?_ (.pure rfl)⟩
  refine (agree_peekAt 2).bind fun t u h => ?_
  rw [h.kind_eq]
  exact Steady.agree

instance : Steady L (continuation? least) := by
  unfold continuation?
  refine ⟨.past fun kind => .ite (.pure rfl) (.ite (.pure rfl) (.past fun operator => ?_))⟩
  split
  · exact .pure rfl
  · exact .ite (.pure rfl) (.pure rfl)

theorem same_expressions (h : List.Forall₂ (Expression.Like L) es fs) : L.Same es fs :=
  Likeness.same_of_forall₂ (fun _ _ h => h.same) h

section

variable {deeper : Nat → Parser Expression}
  (hdeeper : ∀ rank, Agree L (Expression.Like L) (deeper rank) (deeper rank))
include hdeeper

theorem agree_expressionWith? :
    Agree L (Option.Rel (Expression.Like L)) (expressionWith? deeper) (expressionWith? deeper) :=
  .past fun _ => .ite ((hdeeper _).bind fun _ _ h => .pure (.some h)) (.pure .none)

theorem agree_expectExpressionWith :
    Agree L (Expression.Like L) (expectExpressionWith deeper) (expectExpressionWith deeper) := by
  refine (agree_expressionWith? hdeeper).bind fun x y h => ?_
  cases h with
  | some h => exact .pure h
  | none => exact agree_missingExpression

theorem agree_expressionListWith :
    Agree L (List.Forall₂ (Expression.Like L)) (expressionListWith deeper)
      (expressionListWith deeper) :=
  agree_commaList ((agree_expectExpressionWith hdeeper).bind fun _ _ h => .pure (.some h))

theorem agree_accessor (selection : Selection) :
    Agree L L.Same (accessor deeper selection) (accessor deeper selection) := by
  cases selection with
  | member => exact agree_next.bind fun _ _ h => .pure (h.same.map fun t => Accessor.member t.text)
  | allMembers => exact .skip fun _ _ => .pure .rfl
  | index =>
    exact (agree_expressionListWith hdeeper).bind fun _ _ h => .past fun _ =>
      .pure ((same_expressions h).map Accessor.index)

theorem agree_designatorWith? :
    Agree L (Option.Rel L.Same) (designatorWith? deeper) (designatorWith? deeper) := by
  refine agree_name?.bind fun x y h => ?_
  cases h with
  | none => exact .pure .none
  | @some x y h =>
    refine (Agree.whileNext (S := L.Same) (fun _ _ _ => Steady.agree)
      (fun as bs has selection => ?_) .rfl).bind
      fun as bs has => (agree_spanFrom (h.same.map (·.2.start))).bind fun _ _ hspan =>
        .pure (.some ?_)
    · exact ((agree_accessor hdeeper selection).bind fun _ _ ha =>
        .pure (has.map₂ ha fun as a => as ++ [a])).behind
    · exact fun hexact => by rw [hspan hexact, has hexact, h.same hexact]

theorem agree_callWith (hcallee : L.Same callee callee') :
    Agree L (Expression.Like L) (callWith deeper callee) (callWith deeper callee') := by
  have hclose {es fs : List Expression} (h : List.Forall₂ (Expression.Like L) es fs) :
      Agree L (Expression.Like L)
        (do let _ ← expect (.mark .closeParen)
            return .call (← spanFrom callee.span.start) callee es)
        (do let _ ← expect (.mark .closeParen)
            return .call (← spanFrom callee'.span.start) callee' fs) :=
    .past fun _ => (agree_spanFrom (hcallee.map (·.span.start))).bind fun _ _ hspan =>
      .pure ⟨fun hexact => by rw [hspan hexact, hcallee hexact, same_expressions h hexact], rfl⟩
  unfold callWith
  refine .skip fun _ _ => .past fun closed => ?_
  cases closed with
  | true => exact hclose .nil
  | false => exact (agree_expressionListWith hdeeper).bind fun _ _ h => hclose h

theorem agree_primaryWith :
    Agree L (Expression.Like L) (primaryWith deeper) (primaryWith deeper) := by
  refine agree_peek.bind fun t u h => ?_
  have hstart : L.Same t.start u.start := h.same.map Token.start
  rw [h.kind_eq]
  split
  next kind _ =>
    exact .skip fun _ _ => (agree_spanFrom hstart).bind fun _ _ hspan =>
      .pure ⟨hspan.map₂ (h.same.map Token.text) fun span text =>
        Expression.literal span kind text, rfl⟩
  next =>
    refine .past fun opened => ?_
    cases opened with
    | true =>
      exact (agree_expectExpressionWith hdeeper).bind fun _ _ he => .past fun _ =>
        (agree_spanFrom hstart).bind fun _ _ hspan =>
          .pure ⟨hspan.map₂ he.same Expression.parenthesized, rfl⟩
    | false =>
      refine (agree_designatorWith? hdeeper).bind fun x y hd => ?_
      cases hd with
      | none => exact agree_missingExpression
      | some hd =>
        exact .past fun _ => .ite (agree_callWith hdeeper hd)
          (.pure ⟨hd.map Expression.name, rfl⟩)

theorem agree_unaryWith : Agree L (Expression.Like L) (unaryWith deeper) (unaryWith deeper) := by
  refine agree_peek.bind fun t u h => ?_
  rw [h.kind_eq]
  split
  next => exact agree_primaryWith hdeeper
  next rank _ =>
    refine .skip fun _ _ => .past fun kind => ?_
    have hclose {e f : Expression} (he : Expression.Like L e f) : Agree L (Expression.Like L)
        (do return .unary (← spanFrom t.start) u.kind e)
        (do return .unary (← spanFrom u.start) u.kind f) :=
      (agree_spanFrom (h.same.map Token.start)).bind fun _ _ hspan =>
        .pure ⟨hspan.map₂ he.same fun span e => Expression.unary span u.kind e, rfl⟩
    dsimp only
    split
    · exact (hdeeper rank).bind fun _ _ he => hclose he
    · exact agree_missingExpression.bind fun _ _ he => hclose he

theorem agree_continueWith {left left' : Expression} (hstart : L.Same start start')
    (hleft : Expression.Like L left left')
    (continuation : Continuation) :
    Agree L (Expression.Like L) (continueWith deeper start left continuation)
      (continueWith deeper start' left' continuation) := by
  cases continuation with
  | isNull =>
    exact .past fun negated => .past fun _ => (agree_spanFrom hstart).bind fun _ _ hspan =>
      .pure ⟨hspan.map₂ hleft.same fun span e => Expression.isNull span e negated, rfl⟩
  | clipped =>
    exact (agree_spanFrom hstart).bind fun _ _ hspan =>
      .pure ⟨hspan.map₂ hleft.same Expression.clipped, rfl⟩
  | binary operator negated level =>
    have hright : Agree L (Expression.Like L)
        (do let right ← deeper (rightRank operator level)
            return .binary (← spanFrom start) left operator negated right)
        (do let right ← deeper (rightRank operator level)
            return .binary (← spanFrom start') left' operator negated right) :=
      (hdeeper _).bind fun _ _ he => (agree_spanFrom hstart).bind fun _ _ hspan =>
        .pure ⟨fun hexact => by rw [hspan hexact, hleft.same hexact, he.same hexact], rfl⟩
    cases negated with
    | true => exact .skip fun _ _ => hright
    | false => exact hright

end

theorem agree_giveUp : Agree L (Expression.Like L) giveUp giveUp :=
  agree_nextStart.bind fun _ _ hstart => .skip fun _ _ =>
    (agree_spanFrom hstart.2).bind fun _ _ hspan => .pure ⟨hspan.map Expression.missing, rfl⟩

theorem agree_operandAt (levels least : Nat) :
    Agree L (Expression.Like L) (operandAt levels least) (operandAt levels least) := by
  induction levels generalizing least with
  | zero => exact .past fun _ => agree_giveUp
  | succ levels ih =>
    exact .nestedOr agree_giveUp (agree_nextStart.bind fun _ _ hstart => (agree_unaryWith ih).bind
      fun _ _ hfirst => .whileNext (fun _ _ _ => Steady.agree)
        (fun _ _ hleft c => (agree_continueWith ih hstart.2 hleft c).behind) hfirst)

section

variable (levels : Nat)

theorem agree_expression? :
    Agree L (Option.Rel (Expression.Like L)) (expression? levels) (expression? levels) :=
  agree_expressionWith? (agree_operandAt levels)

theorem agree_expectExpression :
    Agree L (Expression.Like L) (expectExpression levels) (expectExpression levels) :=
  agree_expectExpressionWith (agree_operandAt levels)

theorem agree_expressionList :
    Agree L (List.Forall₂ (Expression.Like L)) (expressionList levels) (expressionList levels) :=
  agree_expressionListWith (agree_operandAt levels)

theorem agree_designator? :
    Agree L (Option.Rel L.Same) (designator? levels) (designator? levels) :=
  agree_designatorWith? (agree_operandAt levels)

theorem agree_expectDesignator :
    Agree L (Option.Rel L.Same) (expectDesignator levels) (expectDesignator levels) := by
  refine (agree_designator? levels).bind fun x y h => ?_
  cases h with
  | some h => exact .pure (.some h)
  | none => exact .past fun _ => .pure .none

theorem agree_designatorList :
    Agree L L.Same (designatorList levels) (designatorList levels) :=
  (agree_commaList (agree_expectDesignator levels)).mono fun _ _ h =>
    Likeness.same_of_forall₂ (fun _ _ h => h) h

end

/-! ## Types -/

theorem agree_expectNumber : Agree L (Option.Rel L.Same) expectNumber expectNumber :=
  .past fun _ => .ite (agree_last.bind fun _ _ h =>
    .pure (.some (h.2.map Token.text))) (.pure .none)

theorem agree_sizes : Agree L L.Same sizes sizes :=
  .past fun _ => .ite ((agree_commaList agree_expectNumber).bind fun _ _ h => .past fun _ =>
    .pure (Likeness.same_of_forall₂ (fun _ _ h => h) h)) (.pure .rfl)

theorem same_words (h : Option.Rel L.text x y) : L.Same x y :=
  Likeness.same_of_rel (fun _ _ h => L.same_of_text h) h

theorem agree_tableColumn : Agree L L.Same tableColumn tableColumn := by
  unfold tableColumn
  refine agree_expectNameText.bind fun x y hname => ?_
  have htable : L.Same (x.getD "") (y.getD "") := (same_words hname).map (·.getD "")
  refine .past fun _ => .ite (.past fun _ => .ite (.pure (htable.map (·, "*"))) ?_)
    (.pure (htable.map (·, "")))
  exact agree_expectNameText.bind fun _ _ hname =>
    .pure (htable.map₂ (same_words hname) fun table column => (table, column.getD ""))

instance : Steady L timeUnit? := by
  unfold timeUnit?
  refine ⟨.past fun kind => ?_⟩
  split
  · exact .ite (.pure rfl) (.pure rfl)
  · exact .pure rfl

theorem agree_timeUnit (unit : Keyword) : Agree L L.Same (timeUnit unit) (timeUnit unit) :=
  .skip fun _ _ => .past fun _ => .ite
    (agree_expectNumber.bind fun _ _ h => .past fun _ => .pure
      ((Likeness.same_of_rel (fun _ _ h => h) h).map fun precision =>
        unit.text ++ precision.elim "" fun n => "(" ++ n ++ ")"))
    (.pure .rfl)

theorem agree_timeRange : Agree L L.Same timeRange timeRange := by
  refine .past fun unit => ?_
  cases unit with
  | none => exact .pure .rfl
  | some unit =>
    refine (agree_timeUnit unit).bind fun _ _ hfirst => .past fun found =>
      .ite (.past fun second => ?_)
      (.pure (hfirst.map fun first => [first]))
    cases second with
    | some second =>
      exact (agree_timeUnit second).bind fun _ _ hsecond =>
        .pure (hfirst.map₂ hsecond fun first second => [first, second])
    | none => exact .past fun _ => .pure (hfirst.map fun first => [first])

theorem agree_dottedName (h : L.Same first first') :
    Agree L L.Same (dottedName first) (dottedName first') :=
  .whileNext (fun _ _ _ => Steady.agree) (fun _ _ hname _ => (agree_next.bind fun _ _ ht =>
    .pure (hname.map₂ (ht.same.map Token.text) fun name part => name ++ "." ++ part)).behind) h

theorem agree_leafType : Agree L L.Same leafType leafType := by
  refine agree_peek.bind fun t u h => ?_
  have hown : Agree L L.Same
      (do let _ ← next; return TypeReference.named (← dottedName t.text) [])
      (do let _ ← next; return TypeReference.named (← dottedName u.text) []) :=
    .skip fun _ _ => (agree_dottedName (h.same.map Token.text)).bind fun _ _ hname =>
      .pure (hname.map fun name => TypeReference.named name [])
  have hnamed (k : Keyword) {arguments : Parser (List String)}
      (harguments : Agree L L.Same arguments arguments) : Agree L L.Same
      (do let _ ← next; return TypeReference.named k.text (← arguments))
      (do let _ ← next; return TypeReference.named k.text (← arguments)) :=
    .skip fun _ _ => harguments.bind fun _ _ h => .pure (h.map (TypeReference.named k.text))
  dsimp only
  rw [h.kind_eq]
  split
  · refine .ite (.skip fun _ _ => agree_tableColumn.bind fun _ _ h => .pure ?_)
      (.ite (hnamed _ agree_sizes) (.ite (hnamed _ agree_timeRange)
        (.ite (hnamed _ (.pure .rfl)) (.ite (.past fun _ => .pure .rfl) hown))))
    exact h.map fun column => TypeReference.like column.1 column.2
  · exact hown
  · exact .past fun _ => .pure .rfl

theorem same_variables (h : List.Forall₂ (Variable.Like L) vs ws) : L.Same vs ws :=
  Likeness.same_of_forall₂ (fun _ _ h => h.same) h

instance : Steady L fieldFollows := by unfold fieldFollows; infer_instance

section

variable {inner : Parser TypeReference} (hinner : Agree L L.Same inner inner)
include hinner

theorem agree_variableGroup (h : Named L first first') :
    Agree L (List.Forall₂ (Variable.Like L)) (variableGroup inner first)
      (variableGroup inner first') := by
  refine (Agree.whileNext (S := List.Forall₂ (Named L)) (fun _ _ _ => Steady.agree)
    (fun _ _ hnames _ => ?_) (.cons h .nil)).bind fun _ _ hnames => hinner.bind fun _ _ htype =>
      .pure (List.rel_map (fun _ _ hname => ?_) hnames)
  · exact (agree_next.bind fun _ _ ht =>
      .pure (List.rel_append hnames (.cons ht.named .nil))).behind
  · exact ⟨hname.same.map₂ htype fun name type => Variable.mk name.1 name.2 type, hname⟩

theorem agree_variableGroupsAfter (h : Named L first first') :
    Agree L (List.Forall₂ (Variable.Like L)) (variableGroupsAfter inner first)
      (variableGroupsAfter inner first') := by
  refine (agree_variableGroup hinner h).bind fun _ _ hgroup =>
    (agree_commaTail (agree_expectName.bind fun x y hname => ?_) (.cons hgroup .nil)).bind
      fun _ _ hgroups => .pure (List.rel_flatten hgroups)
  cases hname with
  | some hname =>
    exact (agree_variableGroup hinner hname).bind fun _ _ hgroup => .pure (.some hgroup)
  | none => exact .pure .none

theorem agree_variableGroups :
    Agree L (List.Forall₂ (Variable.Like L)) (variableGroups inner) (variableGroups inner) := by
  refine agree_expectName.bind fun x y hname => ?_
  cases hname with
  | some hname => exact agree_variableGroupsAfter hinner hname
  | none => exact .pure .nil

theorem agree_recordFields : Agree L L.Same (recordFields inner) (recordFields inner) := by
  refine (Agree.loop (S := L.Same) (fun _ _ _ => Steady.agree) (fun _ _ hfields _ =>
    .last fun t u h => Agree.behind
      ((agree_variableGroupsAfter hinner h.named).bind fun _ _ hgroup =>
        .pure (hfields.map₂ (same_variables hgroup) fun fields group => fields ++ group)))
    _ _ .rfl).bind fun x y hxy => ?_
  obtain ⟨fields, closed⟩ := x
  obtain ⟨fields', closed'⟩ := y
  obtain ⟨hfields, rfl : closed = closed'⟩ := hxy
  cases closed with
  | true => exact .skip fun _ _ => .skip fun _ _ => .pure hfields
  | false => exact .past fun _ => .pure hfields

theorem agree_recordType : Agree L L.Same (recordType inner) (recordType inner) :=
  .past fun _ => .ite (agree_tableColumn.bind fun _ _ h =>
      .pure (h.map fun column => TypeReference.recordLike column.1))
    ((agree_recordFields hinner).bind fun _ _ h => .pure (h.map TypeReference.record))

theorem agree_dynamicArrayType :
    Agree L L.Same (dynamicArrayType inner) (dynamicArrayType inner) := by
  have hof {x y : Option String} (h : L.Same x y) : Agree L L.Same
      (do let _ ← expect (.keyword .OF); return TypeReference.array true x.toList (← inner))
      (do let _ ← expect (.keyword .OF); return TypeReference.array true y.toList (← inner)) :=
    .past fun _ => hinner.bind fun _ _ htype =>
      .pure (h.map₂ htype fun x type => TypeReference.array true x.toList type)
  unfold dynamicArrayType
  refine .past fun _ => .past fun sized => ?_
  cases sized with
  | true =>
    exact .past fun _ => agree_expectNumber.bind fun _ _ h =>
      hof (Likeness.same_of_rel (fun _ _ h => h) h)
  | false => exact hof .rfl

theorem agree_staticArrayType :
    Agree L L.Same (staticArrayType inner) (staticArrayType inner) := by
  have hof {xs ys : List (Option String)} (h : L.Same xs ys) : Agree L L.Same
      (do let _ ← expect (.keyword .OF)
          return TypeReference.array false (xs.filterMap id) (← inner))
      (do let _ ← expect (.keyword .OF)
          return TypeReference.array false (ys.filterMap id) (← inner)) :=
    .past fun _ => hinner.bind fun _ _ htype =>
      .pure (h.map₂ htype fun xs type => TypeReference.array false (xs.filterMap id) type)
  unfold staticArrayType
  refine .past fun bracketed => ?_
  cases bracketed with
  | true =>
    refine (agree_commaList (agree_expectNumber.bind fun _ _ h => .pure (.some h))).bind
      fun _ _ h => .past fun _ => hof (Likeness.same_of_forall₂ (fun _ _ h => ?_) h)
    exact Likeness.same_of_rel (fun _ _ h => h) h
  | false => exact hof .rfl

end

theorem agree_typeNested (depth : Nat) : Agree L L.Same (typeWithin depth) (typeWithin depth) := by
  induction depth with
  | zero => exact agree_leafType
  | succ depth ih =>
    unfold typeWithin
    refine .past fun kind => ?_
    split
    · exact .skip fun _ _ => agree_recordType ih
    · exact .skip fun _ _ => agree_dynamicArrayType ih
    · exact .skip fun _ _ => agree_staticArrayType ih
    · exact agree_leafType

theorem agree_typeReference : Agree L L.Same typeReference typeReference := by
  intro s t hst
  have hrun : typeReference.run t = (typeWithin s.left).run t :=
    congrArg (fun n => (typeWithin n).run t) hst.rest.length_eq.symm
  rw [hrun]
  exact agree_typeNested s.left s t hst

end Parser

end FourGL
