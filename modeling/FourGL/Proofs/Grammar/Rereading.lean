import FourGL.Proofs.Grammar.Progress
import FourGL.Proofs.Grammar.Rendering

/-!
# Reading the text of an expression

Where the words of an expression come next, and behind them nothing that would go on with it, the
same expression is read again, up to its spans, and nothing is reported (`rereads_operandAt`).
`Consumes` says what a parser makes of the words that come next. Together with the legibility of
rendered expressions this takes an expression to its text and back (`expression_render_reread`).
-/

namespace FourGL

open FourGL.Parser FourGL.ParseState

/-! ## Spans left out -/

mutual

/-- The expression without its spans: they are all empty. -/
def Expression.bare : Expression → Expression
  | .literal _ kind text => .literal (.empty 0) kind text
  | .name d => .name d.bare
  | .call _ callee arguments => .call (.empty 0) callee.bare (bareList arguments)
  | .unary _ operator operand => .unary (.empty 0) operator operand.bare
  | .binary _ left operator negated right =>
    .binary (.empty 0) left.bare operator negated right.bare
  | .isNull _ operand negated => .isNull (.empty 0) operand.bare negated
  | .clipped _ operand => .clipped (.empty 0) operand.bare
  | .parenthesized _ inner => .parenthesized (.empty 0) inner.bare
  | .missing _ => .missing (.empty 0)

def bareList : List Expression → List Expression
  | [] => []
  | e :: es => e.bare :: bareList es

def Designator.bare : Designator → Designator
  | ⟨_, name, accessors⟩ => ⟨.empty 0, name, bareAccessors accessors⟩

def bareAccessors : List Accessor → List Accessor
  | [] => []
  | a :: as => a.bare :: bareAccessors as

def Accessor.bare : Accessor → Accessor
  | .member name => .member name
  | .index indices => .index (bareList indices)
  | .allMembers => .allMembers

end

theorem bareList_append (es ds : List Expression) :
    bareList (es ++ ds) = bareList es ++ bareList ds := by
  induction es with
  | nil => rfl
  | cons e es ih => exact congrArg (e.bare :: ·) ih

theorem bareAccessors_append (as bs : List Accessor) :
    bareAccessors (as ++ bs) = bareAccessors as ++ bareAccessors bs := by
  induction as with
  | nil => rfl
  | cons a as ih => exact congrArg (a.bare :: ·) ih

/-! ## The words that come next -/

namespace Piece

@[simp] theorem words_nil : words [] = [] := rfl

@[simp] theorem words_blank (ps : List Piece) : words (blank :: ps) = words ps := rfl

@[simp] theorem words_word (w : Word) (ps : List Piece) :
    words (word w :: ps) = w :: words ps := rfl

@[simp] theorem words_of (k : Kind) (ps : List Piece) :
    words (of k :: ps) = ⟨k, k.text⟩ :: words ps :=
  rfl

@[simp] theorem words_append (ps qs : List Piece) : words (ps ++ qs) = words ps ++ words qs :=
  List.filterMap_append

end Piece

/-- The kind of the first word. Behind the last one the text ends. -/
def kindOf : List Word → Kind
  | [] => .endOfFile
  | w :: _ => w.kind

@[simp] theorem kindOf_cons (w : Word) (ws : List Word) : kindOf (w :: ws) = w.kind := rfl

/-- The words `ws` come next and then the end of the text. Nothing is wrong with them, and they are
all in one line. -/
structure ParseState.Faces (s : ParseState) (ws : List Word) : Prop where
  words_eq : s.input.rest.map (·.token.word) = ws ++ [⟨.endOfFile, ""⟩]
  plain : ∀ l ∈ s.input.rest, l.issues = [] ∧ l.token.lineBreakBefore = false

namespace ParseState.Faces

theorem looks (h : Faces s ws) (hlook : Looks s t) : Faces t ws := by
  obtain ⟨seen, -, rfl⟩ := hlook
  exact ⟨h.words_eq, h.plain⟩

theorem rest_eq (h : Faces s (w :: ws)) :
    ∃ l ls, s.input.rest = l :: ls ∧ l.token.word = w ∧ l.token.lineBreakBefore = false := by
  obtain ⟨l, ls, hrest, hl, -⟩ := List.map_eq_cons_iff.mp h.words_eq
  exact ⟨l, ls, hrest, hl, (h.plain l (hrest ▸ List.mem_cons_self ..)).2⟩

theorem tokenAt (h : Faces s (w :: ws)) :
    (s.input.tokenAt 1).word = w ∧ (s.input.tokenAt 1).lineBreakBefore = false := by
  obtain ⟨l, ls, hrest, hl⟩ := h.rest_eq
  rw [show s.input.tokenAt 1 = l.token by simp [Lookahead.tokenAt, hrest]]
  exact hl

theorem kindAt (h : Faces s ws) : s.kindAt 1 = kindOf ws := by
  cases ws with
  | cons w ws => exact congrArg Word.kind h.tokenAt.1
  | nil =>
    obtain ⟨l, ls, hrest, hl, -⟩ := List.map_eq_cons_iff.mp h.words_eq
    rw [ParseState.kindAt, show s.input.tokenAt 1 = l.token by simp [Lookahead.tokenAt, hrest]]
    exact congrArg Word.kind hl

theorem read (h : Faces s (w :: ws)) : Faces s.read ws where
  words_eq := by
    rw [rest_read_eq, List.map_tail, h.words_eq]
    rfl
  plain l hl := h.plain l (List.mem_of_mem_tail (rest_read_eq s ▸ hl))

theorem kindAt_two (h : Faces s (w :: ws)) : s.kindAt 2 = kindOf ws :=
  (kindAt_read s 0).symm.trans h.read.kindAt

end ParseState.Faces

/-! ## What a parser makes of words -/

namespace Parser

/-- Where the words `ws` come next and `l` levels of nesting are left, the parser goes on up to
`rest` without a report, and what it yields is as `P` says. As many levels are left behind it. -/
def Consumes (p : Parser α) (l : Nat) (ws rest : List Word) (P : α → Prop) : Prop :=
  ∀ s, Faces s ws → s.nesting.depth + l ≤ maxNesting →
    P (p.run s).1 ∧ Faces (p.run s).2 rest ∧ (p.run s).2.reports = s.reports ∧
      (p.run s).2.nesting.depth = s.nesting.depth

namespace Consumes

theorem pure {P : α → Prop} (h : P a) : (pure a : Parser α).Consumes l ws ws P :=
  fun _ hs _ => ⟨h, hs, rfl, rfl⟩

theorem bind {p : Parser α} {f : α → Parser β} {P : α → Prop} {Q : β → Prop}
    (hp : p.Consumes l ws mid P)
    (hf : ∀ a, P a → (f a).Consumes l mid rest Q) : (p >>= f).Consumes l ws rest Q := by
  intro s hs hleft
  obtain ⟨ha, hmid, hreports, hdepth⟩ := hp s hs hleft
  obtain ⟨hb, hrest, hreports', hdepth'⟩ := hf _ ha _ hmid (by omega)
  exact ⟨hb, hrest, hreports'.trans hreports, hdepth'.trans hdepth⟩

theorem of_peeks {p : Parser α} {P : α → Prop} (hp : p.Peeks)
    (h : ∀ {s}, Faces s ws → P (p.run s).1)
    (hnesting : ∀ s, (p.run s).2.nesting = s.nesting := by exact fun _ => rfl) :
    p.Consumes l ws ws P :=
  fun s hs _ => ⟨h hs, hs.looks (hp s), (hp s).reports, congrArg _ (hnesting s)⟩

end Consumes

section

variable {ws : List Word}

theorem consumes_peek : peek.Consumes l (w :: ws) (w :: ws) fun t => t.word = w :=
  .of_peeks (peeks_peekAt 1) fun hs => hs.tokenAt.1

/-- Where a level is left, the limit of nesting is not reached. -/
theorem Consumes.nestedOr {tooDeep p : Parser α} {P : α → Prop} (hp : p.Consumes l ws rest P) :
    (nestedOr tooDeep p).Consumes (l + 1) ws rest P := by
  intro s hs hleft
  have hlimit : s.nesting.isFull = false := decide_eq_false (by omega)
  rw [run_nestedOr, hlimit, if_neg Bool.false_ne_true]
  have hinside : s.nesting.enter.depth = s.nesting.depth + 1 := rfl
  obtain ⟨ha, hrest, hreports, hdepth⟩ :=
    hp { s with nesting := s.nesting.enter } (hs.looks (looks_nesting s _)) (by dsimp only; omega)
  refine ⟨ha, hrest.looks (looks_nesting _ _), hreports, ?_⟩
  exact (congrArg (· - 1) hdepth).trans (Nat.add_sub_cancel ..)

theorem consumes_limitReached : limitReached.Consumes (l + 1) ws ws (· = false) :=
  fun _ hs hleft => ⟨decide_eq_false (by omega), hs, rfl, rfl⟩

theorem consumes_peekKind : peekKind.Consumes l ws ws (· = kindOf ws) :=
  .of_peeks peeks_peekKind fun hs => hs.kindAt

theorem consumes_second : (peekAt 2).Consumes l (v :: w :: ws) (v :: w :: ws)
    fun t => t.word = w ∧ t.lineBreakBefore = false := by
  refine .of_peeks (peeks_peekAt 2) fun {s} hs => ?_
  have htoken := hs.read.tokenAt
  rwa [tokenAt_read] at htoken

theorem consumes_nextIs (k : Kind) : (nextIs k).Consumes l ws ws (· = (kindOf ws == k)) :=
  .bind consumes_peekKind fun _ h => .pure (by rw [h])

theorem consumes_next : next.Consumes l (w :: ws) ws fun t => t.word = w := by
  intro s hs _
  refine ⟨?_, hs.read, rfl, rfl⟩
  rw [show (next.run s).1 = s.read.input.last from rfl, last_read]
  exact hs.tokenAt.1

theorem consumes_spanFrom : (spanFrom start).Consumes l ws ws fun _ => True :=
  fun _ hs _ => ⟨trivial, hs, rfl, rfl⟩

theorem consumes_optional (k : Kind) :
    (optional k).Consumes l (⟨k, text⟩ :: ws) ws (· = true) := by
  refine .bind (consumes_nextIs k) ?_
  rintro _ rfl
  rw [kindOf_cons, if_pos (beq_self_eq_true k)]
  exact .bind consumes_next fun _ _ => .pure rfl

theorem consumes_optional_not {k : Kind} (hk : kindOf ws ≠ k) :
    (optional k).Consumes l ws ws (· = false) := by
  refine .bind (consumes_nextIs k) ?_
  rintro _ rfl
  rw [if_neg (by simpa using hk)]
  exact .pure rfl

theorem consumes_expect (k : Kind) :
    (expect k).Consumes l (⟨k, text⟩ :: ws) ws fun _ => True := by
  refine .bind (consumes_optional k) ?_
  rintro _ rfl
  exact .pure trivial

theorem consumes_name? (hk : k.canBeName = true) :
    name?.Consumes l (⟨k, name⟩ :: ws) ws fun found => ∃ span, found = some (name, span) := by
  refine .bind consumes_peek fun t ht => ?_
  obtain ⟨rfl, rfl⟩ := Word.mk.inj ht
  rw [if_pos hk]
  exact .bind consumes_next fun _ _ => .pure ⟨_, rfl⟩

section

variable {guard : σ → Parser (Option γ)} {body : σ → γ → Parser σ}

theorem run_whileNext_stop (h : (guard a).run s = (none, t)) :
    (whileNext guard body a).run s = (a, t) := by
  unfold whileNext
  rw [run_bind, run_loop_stop (b := ()) (t := t) (by rw [run_bind, h]; rfl)]
  rfl

theorem run_whileNext_round (h : (guard a).run s = (some g, t)) (hrest : t.input.rest ≠ []) :
    (whileNext guard body a).run s =
      (whileNext guard body ((body a g).run t.read).1).run ((body a g).run t.read).2 := by
  unfold whileNext
  rw [run_bind, run_loop_round (g := g) (t := t) (by rw [run_bind, h]; rfl) hrest]
  rfl

theorem consumes_whileNext_stop {P : σ → Prop}
    (hguard : (guard a).Consumes l ws ws (· = none)) (ha : P a) :
    (whileNext guard body a).Consumes l ws ws P := by
  intro s hs hleft
  obtain ⟨hnone, hrest, hreports, hdepth⟩ := hguard s hs hleft
  rw [run_whileNext_stop (t := ((guard a).run s).2) (Prod.ext hnone rfl)]
  exact ⟨ha, hrest, hreports, hdepth⟩

theorem consumes_whileNext_round {P Q : σ → Prop}
    (hguard : (guard a).Consumes l (w :: ws) (w :: ws) (· = some g))
    (hbody : (body a g).Consumes l ws mid P)
    (hloop : ∀ b, P b → (whileNext guard body b).Consumes l mid rest Q) :
    (whileNext guard body a).Consumes l (w :: ws) rest Q := by
  intro s hs hleft
  obtain ⟨hsome, hfaces, hreports, hdepth⟩ := hguard s hs hleft
  obtain ⟨lexeme, ls, hrest, -⟩ := hfaces.rest_eq
  obtain ⟨hb, hmid, hreports', hdepth'⟩ := hbody _ hfaces.read (hdepth ▸ hleft)
  obtain ⟨hresult, hend, hreports'', hdepth''⟩ :=
    hloop _ hb _ hmid (hdepth'.trans hdepth ▸ hleft)
  rw [run_whileNext_round (t := ((guard a).run s).2) (Prod.ext hsome rfl) (by simp [hrest])]
  exact ⟨hresult, hend, hreports''.trans (hreports'.trans hreports),
    hdepth''.trans (hdepth'.trans hdepth)⟩

end

end

end Parser

/-! ## Operators -/

namespace ParseState.Faces

theorem ahead_operator (h : Faces s (⟨operator, text⟩ :: ws))
    (hlevel : operator.level? = some level) :
    s.ahead = some (.binary operator false level) := by
  have hne {k : Keyword} (hk : (Kind.keyword k).level? = none) : operator ≠ .keyword k := by
    rintro rfl
    rw [hk] at hlevel
    cases hlevel
  have hoperator : s.operatorAhead = operator := by
    rw [operatorAhead, h.kindAt, kindOf_cons, if_neg fun hnot => hne rfl hnot.1]
  rw [ParseState.ahead, hoperator, h.kindAt, kindOf_cons, if_neg (hne rfl),
    if_neg (hne rfl), hlevel]
  simp

theorem ahead_negated (h : Faces s (⟨.keyword .NOT, text⟩ :: ⟨operator, text'⟩ :: ws))
    (hoperator : operator = .keyword .LIKE ∨ operator = .keyword .MATCHES)
    (hlevel : operator.level? = some level) : s.ahead = some (.binary operator true level) := by
  have hahead : s.operatorAhead = operator := by
    rw [operatorAhead, h.kindAt, h.kindAt_two, kindOf_cons, kindOf_cons,
      if_pos ⟨rfl, hoperator⟩]
  rw [ParseState.ahead, hahead, h.kindAt, kindOf_cons, if_neg (by simp), if_neg (by simp), hlevel]
  obtain rfl | rfl := hoperator <;> rfl

theorem ahead_isNull (h : Faces s (⟨.keyword .IS, text⟩ :: ws)) : s.ahead = some .isNull := by
  rw [ParseState.ahead, h.kindAt, kindOf_cons, if_pos rfl]

theorem ahead_clipped (h : Faces s (⟨.keyword .CLIPPED, text⟩ :: ws)) :
    s.ahead = some .clipped := by
  rw [ParseState.ahead, h.kindAt, kindOf_cons, if_neg (by simp), if_pos rfl]

/-- An expression does not go on at a comma, a closing parenthesis or bracket, or the end. -/
theorem ahead_none (h : Faces s ws)
    (hws : kindOf ws ∈ [.endOfFile, .mark .comma, .mark .closeParen, .mark .closeBracket]) :
    s.ahead = none := by
  have hnot : kindOf ws ≠ .keyword .NOT := by
    intro hnot
    rw [hnot] at hws
    revert hws
    decide
  have hoperator : s.operatorAhead = kindOf ws := by
    rw [operatorAhead, h.kindAt, if_neg fun h => hnot h.1]
  rw [ParseState.ahead, hoperator, h.kindAt]
  simp only [List.mem_cons, List.not_mem_nil, or_false] at hws
  obtain hk | hk | hk | hk := hws <;> rw [hk] <;> rfl

end ParseState.Faces

namespace Parser

/-- Words that go on neither with an operand at the right end of an expression nor with a name
there: no operator of that rank comes next, nothing is selected and nothing is called. -/
structure Bounds (ws : List Word) (e : Expression) : Prop where
  edge : ∀ {s}, Faces s ws → ∀ c ∈ s.ahead, c.rank < e.edge
  selects : kindOf ws ≠ .mark .dot ∧ kindOf ws ≠ .mark .openBracket
  calls : kindOf ws ≠ .mark .openParen

/-- Words that do not go on with an expression whose operators have at least the rank `least`
either. -/
structure Behind (ws : List Word) (least : Nat) (e : Expression) : Prop extends Bounds ws e where
  stays : ∀ {s}, Faces s ws → ∀ c ∈ s.ahead, c.rank < least

theorem behind_of_closing
    (hws : kindOf ws ∈ [.endOfFile, .mark .comma, .mark .closeParen, .mark .closeBracket])
    (least : Nat) (e : Expression) : Behind ws least e := by
  have hne {m : Mark} (hm : Kind.mark m ∉
      [.endOfFile, .mark .comma, .mark .closeParen, .mark .closeBracket]) : kindOf ws ≠ .mark m :=
    fun h => hm (h ▸ hws)
  refine ⟨⟨fun hs c hc => ?_, ⟨hne (by decide), hne (by decide)⟩, hne (by decide)⟩,
    fun hs c hc => ?_⟩
  all_goals
    rw [hs.ahead_none hws] at hc
    cases hc

/-- An item of a list ends before a comma or before what closes the list. -/
theorem behind_tail (hws : kindOf ws = .mark .closeParen ∨ kindOf ws = .mark .closeBracket)
    (es : List Expression) (least : Nat) (e : Expression) :
    Behind (Piece.words (piecesTail es) ++ ws) least e := by
  refine behind_of_closing ?_ _ _
  cases es with
  | nil =>
    change kindOf ws ∈ _
    obtain h | h := hws <;> rw [h] <;> decide
  | cons _ _ => exact List.mem_cons_of_mem _ (List.mem_cons_self ..)

theorem consumes_continuation? (h : ∀ {s}, Faces s ws →
    s.ahead.filter (least ≤ ·.rank) = c) :
    (continuation? least).Consumes l ws ws (· = c) := by
  intro s hs _
  obtain ⟨t, hlook, hrun⟩ := continuation?_run least s
  have hdepth := (Has.has (R := balanced) (l := 0) (p := continuation? least) s).1
  rw [hrun] at hdepth ⊢
  exact ⟨h hs, hs.looks hlook, hlook.reports, hdepth⟩

/-- The parser reads every operand as `D` says, up to spans, from its words. -/
def Rereads (l : Nat) (D : Nat → Expression → Prop) (deeper : Nat → Parser Expression) :
    Prop :=
  ∀ {least e ws}, D least e → Behind ws least e →
    (deeper least).Consumes l (Piece.words e.pieces ++ ws) ws (·.bare = e.bare)

section

variable {D : Nat → Expression → Prop} (hD : OperandsLegible D)
    {deeper : Nat → Parser Expression}
  (hdeeper : Rereads l D deeper)
include hD hdeeper

theorem consumes_expressionWith? {e : Expression} (he : D Level.lowest.rank e)
    (hws : Behind ws Level.lowest.rank e) :
    (expressionWith? deeper).Consumes l (Piece.words e.pieces ++ ws) ws
      fun found => ∃ e', found = some e' ∧ e'.bare = e.bare := by
  obtain ⟨w, ps, hpieces, -, hstarts⟩ := hD.begins he
  refine .bind consumes_peekKind ?_
  rintro _ rfl
  rw [if_pos (by rw [hpieces]; exact hstarts)]
  exact .bind (hdeeper he hws) fun e' he' => .pure ⟨e', rfl, he'⟩

theorem consumes_expectExpressionWith {e : Expression} (he : D Level.lowest.rank e)
    (hws : Behind ws Level.lowest.rank e) :
    (expectExpressionWith deeper).Consumes l (Piece.words e.pieces ++ ws) ws
      (·.bare = e.bare) := by
  refine .bind (consumes_expressionWith? hD hdeeper he hws) ?_
  rintro _ ⟨e', rfl, he'⟩
  exact .pure he'

omit hD hdeeper in
/-- Items behind commas, read one by one onto the items before them. -/
theorem consumes_more {another : List Expression × Bool → Unit →
    Parser (List Expression × Bool)}
    (hanother : ∀ {e ws} (ds : List Expression), D Level.lowest.rank e →
      Behind ws Level.lowest.rank e →
      (another (ds, true) ()).Consumes l (Piece.words e.pieces ++ ws) ws
        fun r => ∃ e', r = (ds ++ [e'], true) ∧ e'.bare = e.bare)
    {es : List Expression} (hes : ∀ e ∈ es, D Level.lowest.rank e)
    (hws : kindOf ws = .mark .closeParen ∨ kindOf ws = .mark .closeBracket)
    (ds : List Expression) :
    (whileNext commaFollows another (ds, true)).Consumes l (Piece.words (piecesTail es) ++ ws) ws
      fun r => bareList r.1 = bareList ds ++ bareList es := by
  induction es generalizing ds with
  | nil =>
    refine consumes_whileNext_stop (.bind (consumes_nextIs _) ?_)
      (by rw [bareList, List.append_nil])
    rintro _ rfl
    have hkind : kindOf (Piece.words (piecesTail []) ++ ws) = kindOf ws := rfl
    obtain h | h := hws <;> rw [hkind, h] <;> exact .pure rfl
  | cons e es ih =>
    obtain ⟨he, hes⟩ := List.forall_mem_cons.mp hes
    have hwords : Piece.words (piecesTail (e :: es)) ++ ws =
        ⟨.mark .comma, Mark.comma.text⟩ ::
          (Piece.words e.pieces ++ (Piece.words (piecesTail es) ++ ws)) := by
      simp [piecesTail, Kind.text]
    rw [hwords]
    refine consumes_whileNext_round (g := ()) ?_ (hanother ds he (behind_tail hws ..)) ?_
    · refine .bind (consumes_nextIs _) ?_
      rintro _ rfl
      exact .pure rfl
    · rintro _ ⟨e', rfl, he'⟩
      have hloop := ih hes (ds ++ [e'])
      rwa [bareList_append, List.append_assoc, bareList, bareList, he'] at hloop

theorem consumes_expressionListWith {es : List Expression} (hne : es ≠ [])
    (hes : ∀ e ∈ es, D Level.lowest.rank e)
    (hws : kindOf ws = .mark .closeParen ∨ kindOf ws = .mark .closeBracket) :
    (expressionListWith deeper).Consumes l (Piece.words (piecesList es) ++ ws) ws
      (bareList · = bareList es) := by
  have hitem {e : Expression} {ws : List Word} (he : D Level.lowest.rank e)
      (hws : Behind ws Level.lowest.rank e) :
      (do return some (← expectExpressionWith deeper)).Consumes l (Piece.words e.pieces ++ ws) ws
        fun found => ∃ e', found = some e' ∧ e'.bare = e.bare :=
    .bind (consumes_expectExpressionWith hD hdeeper he hws) fun e' he' => .pure ⟨e', rfl, he'⟩
  cases es with
  | nil => exact absurd rfl hne
  | cons e es =>
    obtain ⟨he, hes⟩ := List.forall_mem_cons.mp hes
    rw [piecesList, Piece.words_append, List.append_assoc]
    refine .bind (hitem he (behind_tail hws ..)) ?_
    rintro _ ⟨e', rfl, he'⟩
    refine .bind (consumes_more ?_ hes hws [e']) fun r hr => .pure ?_
    · intro e ws ds he hws
      refine .bind (hitem he hws) ?_
      rintro _ ⟨e', rfl, he'⟩
      exact .pure ⟨e', rfl, he'⟩
    · rw [hr, bareList, bareList, bareList, he']
      rfl

/-! ## Designators -/

/-- What selects is read as such, and what is selected behind it. -/
theorem consumes_accessor {a : Accessor} (ha : a.Fits Written D) :
    ∃ w us selection, Piece.words a.pieces = w :: us ∧
      (∀ ws, selection?.Consumes l (w :: (us ++ ws)) (w :: (us ++ ws)) (· = some selection)) ∧
      ∀ ws, (accessor deeper selection).Consumes l (us ++ ws) ws (·.bare = a.bare) := by
  cases a with
  | member name =>
    obtain ⟨k, hk, htext⟩ := ha
    obtain ⟨heq, -⟩ := htext.name hk
    refine ⟨⟨.mark .dot, Mark.dot.text⟩, [⟨k, name⟩],
      .member, by rw [heq]; rfl, fun ws => ?_, fun ws => ?_⟩
    · refine .bind consumes_peekKind ?_
      rintro _ rfl
      refine .bind consumes_second fun t ht => ?_
      obtain ⟨rfl, -⟩ := Word.mk.inj ht.1
      have hne : t.kind ≠ .mark .asterisk := by
        intro hmark
        rw [hmark] at hk
        cases hk
      rw [if_neg hne, ht.2, if_pos (by simpa using hk)]
      exact .pure rfl
    · refine .bind consumes_next fun t ht => .pure ?_
      rw [(Word.mk.inj ht).2]
  | index indices =>
    obtain ⟨hne, hindices⟩ := ha
    refine ⟨⟨.mark .openBracket, Mark.openBracket.text⟩,
      Piece.words (piecesList indices) ++
        [⟨.mark .closeBracket, Mark.closeBracket.text⟩], .index,
      by simp [Accessor.pieces, Kind.text], fun ws => ?_, fun ws => ?_⟩
    · refine .bind consumes_peekKind ?_
      rintro _ rfl
      exact .pure rfl
    · rw [List.append_assoc]
      refine .bind (consumes_expressionListWith hD hdeeper hne hindices (.inr rfl)) fun es hes => ?_
      exact .bind (consumes_expect _) fun _ _ => .pure (congrArg Accessor.index hes)
  | allMembers =>
    refine ⟨⟨.mark .dot, Mark.dot.text⟩, [⟨.mark .asterisk, Mark.asterisk.text⟩],
      .allMembers, rfl, fun ws => ?_, fun ws => ?_⟩
    · refine .bind consumes_peekKind ?_
      rintro _ rfl
      refine .bind consumes_second fun t ht => ?_
      rw [if_pos (Word.mk.inj ht.1).1]
      exact .pure rfl
    · exact .bind consumes_next fun _ _ => .pure rfl

omit hD hdeeper in
theorem consumes_selection?_none
    (hws : kindOf ws ≠ .mark .dot ∧ kindOf ws ≠ .mark .openBracket) :
    selection?.Consumes l ws ws (· = none) := by
  refine .bind consumes_peekKind ?_
  rintro _ rfl
  split
  next h => exact absurd h hws.1
  next h => exact absurd h hws.2
  next => exact .pure rfl

/-- Steps are read one by one onto the steps before them. -/
theorem consumes_accessors {as : List Accessor} (has : ∀ a ∈ as, a.Fits Written D)
    (hws : kindOf ws ≠ .mark .dot ∧ kindOf ws ≠ .mark .openBracket) (bs : List Accessor) :
    (whileNext (fun _ => selection?)
      (fun as selection => do return as ++ [← accessor deeper selection]) bs).Consumes l
      (Piece.words (piecesAccessors as) ++ ws) ws
      (bareAccessors · = bareAccessors bs ++ bareAccessors as) := by
  induction as generalizing bs with
  | nil =>
    exact consumes_whileNext_stop (consumes_selection?_none hws)
      (by rw [bareAccessors, List.append_nil])
  | cons a as ih =>
    obtain ⟨ha, has⟩ := List.forall_mem_cons.mp has
    obtain ⟨w, us, selection, hwords, hselection, haccessor⟩ := consumes_accessor hD hdeeper ha
    rw [piecesAccessors, Piece.words_append, hwords, List.append_assoc, List.cons_append]
    refine consumes_whileNext_round (hselection _)
      (.bind (haccessor _) fun a' ha' => .pure (P := fun r => ∃ a', r = bs ++ [a'] ∧
        a'.bare = a.bare) ⟨a', rfl, ha'⟩) ?_
    rintro _ ⟨a', rfl, ha'⟩
    have hloop := ih has (bs ++ [a'])
    rwa [bareAccessors_append, List.append_assoc, bareAccessors, bareAccessors, ha'] at hloop

theorem consumes_designatorWith? {d : Designator} (hd : d.Fits Written D)
    (hws : kindOf ws ≠ .mark .dot ∧ kindOf ws ≠ .mark .openBracket) :
    (designatorWith? deeper).Consumes l (Piece.words d.pieces ++ ws) ws
      fun found => ∃ d', found = some d' ∧ d'.bare = d.bare := by
  obtain ⟨span, name, accessors⟩ := d
  obtain ⟨k, hk, htext⟩ := hd.name
  obtain ⟨rfl, -⟩ := htext.name (by rw [hk]; rfl)
  refine .bind (consumes_name? hk) ?_
  rintro _ ⟨span', rfl⟩
  refine .bind (consumes_accessors hD hdeeper hd.accessors hws []) fun as has => ?_
  refine .bind consumes_spanFrom fun span'' _ => .pure ⟨_, rfl, ?_⟩
  exact congrArg (Designator.mk (.empty 0) name) has

/-! ## Operands -/

theorem consumes_callWith {callee d : Designator} {arguments : List Expression} (span : Span)
    (hcallee : d.bare = callee.bare) (harguments : ∀ e ∈ arguments, D Level.lowest.rank e) :
    (callWith deeper d).Consumes l
      (⟨.mark .openParen, Mark.openParen.text⟩ :: (Piece.words (piecesList arguments) ++
        ⟨.mark .closeParen, Mark.closeParen.text⟩ :: ws)) ws
      (·.bare = (Expression.call span callee arguments).bare) := by
  have hclose {es : List Expression} (hes : bareList es = bareList arguments) :
      (do
        let _ ← expect (.mark .closeParen)
        return Expression.call (← spanFrom d.span.start) d es).Consumes l
        (⟨.mark .closeParen, Mark.closeParen.text⟩ :: ws) ws
        (·.bare = (Expression.call span callee arguments).bare) := by
    refine .bind (consumes_expect _) fun _ _ => .bind consumes_spanFrom fun _ _ => .pure ?_
    rw [Expression.bare, Expression.bare, hcallee, hes]
  refine .bind consumes_next fun _ _ => .bind (consumes_nextIs _) ?_
  rintro _ rfl
  cases arguments with
  | nil => exact .bind (.pure (P := (· = [])) rfl) fun es hes => hclose (by rw [hes])
  | cons e es =>
    obtain ⟨w, ps, hpieces, -, hstarts⟩ := hD.begins (harguments e (List.mem_cons_self ..))
    have hopen : (kindOf (Piece.words (piecesList (e :: es)) ++
        ⟨.mark .closeParen, Mark.closeParen.text⟩ :: ws) == .mark .closeParen) = false := by
      rw [piecesList, hpieces]
      refine beq_false_of_ne fun hclose : w.kind = _ => ?_
      rw [hclose] at hstarts
      cases hstarts
    rw [hopen]
    exact .bind (consumes_expressionListWith hD hdeeper
      (List.cons_ne_nil e es) harguments (.inl rfl))
      fun es hes => hclose hes

omit hD hdeeper in
theorem literalKind?_of_canBeName {k : Kind} (h : k.canBeName = true) : literalKind? k = none := by
  unfold literalKind?
  split <;> first | rfl | exact absurd h (by decide)

/-- A designator is read, and behind it a call or nothing more. -/
theorem consumes_nameOrCall {d : Designator} (hd : d.Fits Written D) {P : Expression → Prop}
    (hselects : kindOf mid ≠ .mark .dot ∧ kindOf mid ≠ .mark .openBracket)
    (hrest : ∀ d', d'.bare = d.bare →
      (do if ← nextIs (.mark .openParen) then callWith deeper d' else return .name d').Consumes
        l mid ws P) :
    (primaryWith deeper).Consumes l (Piece.words d.pieces ++ mid) ws P := by
  obtain ⟨w, ps, hpieces, -, hname⟩ := hd.begins
  have hwords : Piece.words d.pieces ++ mid = w :: (Piece.words ps ++ mid) := by
    rw [hpieces]
    rfl
  have hopen : kindOf (w :: (Piece.words ps ++ mid)) ≠ .mark .openParen := by
    intro hopen
    rw [kindOf_cons] at hopen
    rw [hopen] at hname
    cases hname
  rw [hwords]
  refine .bind consumes_peek fun t ht => ?_
  rw [show t.kind = w.kind from congrArg Word.kind ht, literalKind?_of_canBeName hname]
  refine .bind (consumes_optional_not hopen) ?_
  rintro _ rfl
  rw [← hwords]
  refine .bind (consumes_designatorWith? hD hdeeper hd hselects) ?_
  rintro _ ⟨d', rfl, hd'⟩
  exact hrest d' hd'

theorem consumes_primaryWith {e : Expression} (he : e.Primary Written D) (hws : Bounds ws e) :
    (primaryWith deeper).Consumes l (Piece.words e.pieces ++ ws) ws (·.bare = e.bare) := by
  cases he with
  | @literal k kind text span hkind htext =>
    obtain ⟨rfl, -⟩ := htext.literal hkind
    refine .bind consumes_peek fun t ht => ?_
    obtain ⟨hk, rfl⟩ := Word.mk.inj ht
    rw [hk, hkind]
    exact .bind consumes_next fun _ _ => .bind consumes_spanFrom fun _ _ => .pure rfl
  | @parenthesized span inner hinner =>
    rw [Expression.pieces, Piece.words_of, Piece.words_append, List.cons_append, List.append_assoc]
    refine .bind consumes_peek fun t ht => ?_
    rw [(Word.mk.inj ht).1]
    refine .bind (consumes_optional _) ?_
    rintro _ rfl
    refine .bind (consumes_expectExpressionWith hD hdeeper hinner
      (behind_of_closing (by simp) _ _)) fun e he => ?_
    refine .bind (consumes_expect _) fun _ _ => .bind consumes_spanFrom fun _ _ => .pure ?_
    rw [Expression.bare, Expression.bare, he]
  | name hd =>
    refine consumes_nameOrCall hD hdeeper hd hws.selects fun d' hd' => .bind (consumes_nextIs _) ?_
    rintro _ rfl
    rw [beq_false_of_ne hws.calls]
    exact .pure (congrArg Expression.name hd')
  | @call arguments callee span hcallee harguments =>
    rw [Expression.pieces, Piece.words_append, Piece.words_of, Piece.words_append,
      List.append_assoc, List.cons_append, List.append_assoc]
    refine consumes_nameOrCall hD hdeeper hcallee ⟨by simp, by simp⟩ fun d' hd' =>
      .bind (consumes_nextIs _) ?_
    rintro _ rfl
    exact consumes_callWith hD hdeeper span hd' harguments

theorem consumes_unaryWith {e : Expression} (he : e.Signed Written D) (hws : Bounds ws e) :
    (unaryWith deeper).Consumes l (Piece.words e.pieces ++ ws) ws (·.bare = e.bare) := by
  cases he with
  | primary h =>
    obtain ⟨w, ps, hpieces, -, -, hsign⟩ := h.begins
    have hwords : Piece.words e.pieces ++ ws = w :: (Piece.words ps ++ ws) := by
      rw [hpieces]
      rfl
    have hprimary := consumes_primaryWith hD hdeeper h hws
    rw [hwords] at hprimary ⊢
    refine .bind consumes_peek fun t ht => ?_
    rw [show t.kind = w.kind from congrArg Word.kind ht, hsign]
    exact hprimary
  | @unary operator rank operand span hrank hoperand =>
    have hwords : Piece.words (Expression.unary span operator operand).pieces =
        ⟨operator, operator.text⟩ :: Piece.words operand.pieces := by
      rw [Expression.pieces, Piece.words_of]
      split <;> rfl
    have hbehind : Behind ws rank operand := by
      have hlt {s : ParseState} (hs : Faces s ws) (c : Continuation) (hc : c ∈ s.ahead) :
          c.rank < rank ∧ c.rank < operand.edge := by
        have hlt := hws.edge hs c hc
        rw [Expression.edge, hrank] at hlt
        exact Nat.lt_min.mp hlt
      exact ⟨⟨fun hs c hc => (hlt hs c hc).2, hws.selects, hws.calls⟩,
        fun hs c hc => (hlt hs c hc).1⟩
    obtain ⟨w, ps, hpieces, -, hstarts⟩ := hD.begins hoperand
    rw [hwords, List.cons_append]
    refine .bind consumes_peek fun t ht => ?_
    rw [(Word.mk.inj ht).1, hrank]
    refine .bind consumes_next fun _ _ => .bind consumes_peekKind ?_
    rintro _ rfl
    rw [if_pos (by rw [hpieces]; exact hstarts)]
    refine .bind (hdeeper hoperand hbehind) fun e he => .bind consumes_spanFrom fun _ _ => .pure ?_
    rw [Expression.bare, Expression.bare, he]

/-! ## Operators behind operands -/

omit hD hdeeper in
/-- A NOT is read if it is there. -/
theorem consumes_negation {k : Kind} (hk : k ≠ .keyword .NOT) (negated : Bool) :
    (optional (.keyword .NOT)).Consumes l
      (Piece.words (if negated then [.of (.keyword .NOT), .blank] else []) ++ ⟨k, text⟩ :: ws)
      (⟨k, text⟩ :: ws) (· = negated) := by
  cases negated with
  | true => exact consumes_optional _
  | false => exact consumes_optional_not hk

omit hD in
/-- What comes behind an operator is read as its right operand. -/
theorem consumes_continueWith_binary {left right first : Expression} (start : Nat) (span : Span)
    (hright : D (rightRank operator level) right) (hws : Behind ws (rightRank operator level) right)
    (negated : Bool) (hfirst : first.bare = left.bare) :
    (continueWith deeper start first (.binary operator negated level)).Consumes l
      ((if negated then [⟨operator, operator.text⟩] else []) ++
        (Piece.words right.pieces ++ ws)) ws
      (·.bare = (Expression.binary span left operator negated right).bare) := by
  have hoperand : (do
      let right ← deeper (rightRank operator level)
      return Expression.binary (← spanFrom start) first operator negated right).Consumes l
      (Piece.words right.pieces ++ ws) ws
      (·.bare = (Expression.binary span left operator negated right).bare) := by
    refine .bind (hdeeper hright hws) fun e he => .bind consumes_spanFrom fun _ _ => .pure ?_
    rw [Expression.bare, Expression.bare, hfirst, he]
  cases negated with
  | true => exact .bind consumes_next fun _ _ => hoperand
  | false => exact hoperand

/-- `operand` reads the first operand of the expression and `goOn` what is behind it, up to words at
which the whole expression has been read. -/
def ReadsThrough (l : Nat) (operand : Parser Expression) (goOn : Expression → Parser Expression)
    (e : Expression) : Prop :=
  ∀ {ws rest P}, Bounds ws e →
    (∀ first, first.bare = e.bare → (goOn first).Consumes l ws rest P) →
    (operand >>= goOn).Consumes l (Piece.words e.pieces ++ ws) rest P

omit hD hdeeper in
/-- One more operator. -/
theorem ReadsThrough.round {left e : Expression} {operand : Parser Expression}
    (hleft : ReadsThrough l operand
      (whileNext (fun _ => continuation? least) (continueWith deeper start)) left)
    (hahead : ∀ {s}, Faces s (w :: us) → s.ahead = some c) (hleast : least ≤ c.rank)
    (hedge : c.rank < left.edge)
    (hmark : ∀ m, w.kind = .mark m → (Kind.mark m).level?.isSome = true)
    (hbody : ∀ first, first.bare = left.bare →
      (continueWith deeper start first c).Consumes l us ws (·.bare = e.bare))
    (hgoOn : ∀ first, first.bare = e.bare →
      (whileNext (fun _ => continuation? least)
        (continueWith deeper start) first).Consumes l ws rest P) :
    (operand >>= whileNext (fun _ => continuation? least) (continueWith deeper start)).Consumes l
      (Piece.words left.pieces ++ w :: us) rest P := by
  have hbounds : Bounds (w :: us) left := by
    refine ⟨fun hs c' hc' => ?_, ⟨fun h => ?_, fun h => ?_⟩, fun h => ?_⟩
    · obtain rfl := Option.some.inj ((hahead hs).symm.trans hc')
      exact hedge
    all_goals cases hmark _ h
  have hfound : (continuation? least).Consumes l (w :: us) (w :: us) (· = some c) :=
    consumes_continuation? fun hs => by
      rw [hahead hs]
      exact Option.filter_some_pos (decide_eq_true hleast)
  exact hleft hbounds fun first hfirst => consumes_whileNext_round hfound (hbody first hfirst) hgoOn

/-- The operators of a chain are read one by one, each with its right operand. -/
theorem readsThrough_chain {e : Expression} (he : e.Chain Written D least) (start : Nat) :
    ReadsThrough l (unaryWith deeper)
      (whileNext (fun _ => continuation? least) (continueWith deeper start)) e := by
  induction he with
  | signed h => exact fun hws hgoOn => .bind (consumes_unaryWith hD hdeeper h hws) hgoOn
  | @isNull negated span left _ hleast hedge ih =>
    intro ws rest P hws hgoOn
    have hwords : Piece.words (Expression.isNull span left negated).pieces ++ ws =
        Piece.words left.pieces ++ ⟨.keyword .IS, Keyword.IS.text⟩ ::
          (Piece.words (if negated then [.of (.keyword .NOT), .blank] else []) ++
            ⟨.keyword .NULL, Keyword.NULL.text⟩ :: ws) := by
      simp [Expression.pieces, Kind.text]
    rw [hwords]
    refine ReadsThrough.round ih Faces.ahead_isNull hleast hedge
      (fun _ => Kind.noConfusion) (fun first hfirst => ?_) hgoOn
    refine .bind (consumes_negation (by decide) negated) ?_
    rintro _ rfl
    refine .bind (consumes_expect _) fun _ _ => .bind consumes_spanFrom fun _ _ => .pure ?_
    rw [Expression.bare, Expression.bare, hfirst]
  | @clipped span left _ hleast hedge ih =>
    intro ws rest P hws hgoOn
    have hwords : Piece.words (Expression.clipped span left).pieces ++ ws =
        Piece.words left.pieces ++ ⟨.keyword .CLIPPED, Keyword.CLIPPED.text⟩ :: ws := by
      simp [Expression.pieces, Kind.text]
    rw [hwords]
    refine ReadsThrough.round ih Faces.ahead_clipped hleast hedge
      (fun _ => Kind.noConfusion) (fun first hfirst => ?_) hgoOn
    refine .bind consumes_spanFrom fun _ _ => .pure ?_
    rw [Expression.bare, Expression.bare, hfirst]
  | @binary level negated operator right span left _ hlevel hleast hedge hnegated hright ih =>
    intro ws rest P hws hgoOn
    have hbehind : Behind ws (rightRank operator level) right := by
      have hlt {s : ParseState} (hs : Faces s ws) (c : Continuation) (hc : c ∈ s.ahead) :
          c.rank < rightRank operator level ∧ c.rank < right.edge := by
        have hlt := hws.edge hs c hc
        rw [Expression.edge, hlevel] at hlt
        exact Nat.lt_min.mp hlt
      exact ⟨⟨fun hs c hc => (hlt hs c hc).2, hws.selects, hws.calls⟩,
        fun hs c hc => (hlt hs c hc).1⟩
    have hbody (first : Expression) (hfirst : first.bare = left.bare) :=
      consumes_continueWith_binary hdeeper start span hright hbehind negated hfirst
    cases negated with
    | true =>
      have hwords : Piece.words (Expression.binary span left operator true right).pieces ++ ws =
          Piece.words left.pieces ++ ⟨.keyword .NOT, Keyword.NOT.text⟩ ::
            ⟨operator, operator.text⟩ :: (Piece.words right.pieces ++ ws) := by
        simp [Expression.pieces, Kind.text]
      rw [hwords]
      exact ReadsThrough.round ih (fun hs => hs.ahead_negated (hnegated rfl) hlevel) hleast hedge
        (fun _ => Kind.noConfusion) hbody hgoOn
    | false =>
      have hwords : Piece.words (Expression.binary span left operator false right).pieces ++ ws =
          Piece.words left.pieces ++ ⟨operator, operator.text⟩ ::
            (Piece.words right.pieces ++ ws) := by
        simp [Expression.pieces]
      rw [hwords]
      refine ReadsThrough.round ih (fun hs => hs.ahead_operator hlevel) hleast hedge
        (fun m (hm : operator = _) => ?_) hbody hgoOn
      rw [← hm, hlevel]
      rfl

end

/-- An operand that is read without an error is read again from its words. -/
theorem rereads_operandAt (levels : Nat) :
    Rereads levels (Expression.Fits Written levels) (operandAt levels) := by
  induction levels with
  | zero => exact fun h => h.elim
  | succ levels ih =>
    intro least e ws he hws
    have hstart : nextStart.Consumes levels (Piece.words e.pieces ++ ws)
      (Piece.words e.pieces ++ ws)
        fun _ => True := fun s hs _ => ⟨trivial, hs.looks (looks_inspect s 1), rfl, rfl⟩
    refine .nestedOr (.bind hstart fun start _ => ?_)
    refine readsThrough_chain (operandsLegible_fits levels) ih he start hws.toBounds
      fun first hfirst => ?_
    refine consumes_whileNext_stop (consumes_continuation? fun hs => ?_) hfirst
    refine Option.filter_eq_none_iff.mpr fun c hc hleast => ?_
    exact absurd (of_decide_eq_true hleast) (Nat.not_le.mpr (hws.stays hs c hc))

end Parser

/-! ## Rendering and reading back -/

/-- What a text is scanned into without an error is written as its kind says. -/
theorem ParseState.allLeft_ofText (mode : ScanMode) (text : String) :
    AllLeft Written (.ofText mode text) where
  limitReported_eq := rfl
  texts _ hl herrors hend hmark := Lexeme.spelled hl hend hmark herrors

/-- The words of a legible text come next at its beginning. -/
theorem ParseState.faces_ofText (h : Legible ps) (mode : ScanMode) :
    Faces (.ofText mode (String.ofList (Piece.text ps))) (Piece.words ps) := by
  obtain ⟨hwords, hplain⟩ := Lexeme.yields_ofText h mode
  refine ⟨?_, fun l hl => hplain _ (List.mem_map_of_mem hl)⟩
  rw [← hwords, List.map_map]
  rfl

/-- An expression that is read from a text without an error is rendered as a text from which the
same expression is read again, up to its spans: that whole text is read, and nothing is reported
about it. This holds unless a minus stands directly before another. -/
theorem expression_render_reread {text : String} {mode : ScanMode} {e : Expression} {t : ParseState}
    (hread : (expression? maxNesting).run (.ofText mode text) = (some e, t))
    (herrors : t.errorCount = 0) (hapart : e.signsApart = true) (mode' : ScanMode) :
    ∃ e' u, (expression? maxNesting).run (.ofText mode' e.render) = (some e', u) ∧
      e'.bare = e.bare ∧ u.diagnostics = [] ∧
        u.input.rest.map (·.token.kind) = [.endOfFile] := by
  have hfits : e.Fits Written maxNesting Level.lowest.rank :=
    yields_expressionWith? (yields_operandAt Written maxNesting) ⟨hread, herrors⟩
      (allLeft_ofText mode text)
  have hlegible := legible_pieces hfits hapart
  have htext : e.render = String.ofList (Piece.text e.pieces) := by
    rw [← e.toList_render, String.ofList_toList]
  have hreads : (expression? maxNesting).Consumes maxNesting (Piece.words e.pieces ++ []) [] _ :=
    consumes_expressionWith? (operandsLegible_fits maxNesting) (rereads_operandAt maxNesting) hfits
      (behind_of_closing (List.mem_cons_self ..) _ _)
  rw [List.append_nil] at hreads
  obtain ⟨⟨e', hfound, hbare⟩, hend, hreports, -⟩ :=
    hreads _ (htext ▸ faces_ofText hlegible mode') (Nat.le_refl _)
  refine ⟨e', _, Prod.ext hfound rfl, hbare, ?_, ?_⟩
  · -- Neither scanning nor reading has anything to say.
    have hflows : ParseState.Flows (.ofText mode' e.render) _ :=
      Flows.flows (p := expression? maxNesting) inferInstance _
    obtain ⟨ts, htokensRead⟩ := hflows.later
    have hissues : ((expression? maxNesting).run (.ofText mode' e.render)).2.input.issues = [] := by
      refine List.flatMap_eq_nil_iff.mpr fun l hl => ?_
      have hl := List.mem_of_mem_take hl
      rw [htokensRead.stream_eq] at hl
      exact ((faces_ofText hlegible mode').plain l (htext ▸ hl)).1
    rw [ParseState.diagnostics, hissues, hreports]
    exact List.mergeSort_nil
  · have hkinds := congrArg (List.map Word.kind) hend.words_eq
    rwa [List.map_map] at hkinds

/-- A minus before a sum in parentheses, one of whose names selects a member by a keyword. -/
theorem expression_render_reread_sum :
    ∃ e t, (expression? maxNesting).run
      (.ofText .default "-(X.end+1)IS NOT NULL ;") = (some e, t) ∧
      e.render = "-(X.end + 1) is not null" ∧
      ∃ e' u, (expression? maxNesting).run (.ofText .verbatim e.render) = (some e', u) ∧
        e'.bare = e.bare ∧ u.diagnostics = [] ∧
          u.input.rest.map (·.token.kind) = [.endOfFile] := by
  have hparsed :
      let r := (expression? maxNesting).run (.ofText .default "-(X.end+1)IS NOT NULL ;")
      r.1.any (fun e => e.signsApart && e.render == "-(X.end + 1) is not null") = true ∧
        r.2.errorCount = 0 := by decide +kernel
  obtain ⟨hfound, herrors⟩ := hparsed
  obtain ⟨e, he, hall⟩ := (Option.any_eq_true ..).mp hfound
  obtain ⟨hapart, hrender⟩ := Bool.and_eq_true_iff.mp hall
  exact ⟨e, _, Prod.ext he rfl, eq_of_beq hrender,
    expression_render_reread (Prod.ext he rfl) herrors hapart .verbatim⟩

-- Two hyphens begin a comment, so that nothing is left of a minus before another.
example : ((expression? maxNesting).run (.ofText .default "- -1")).1.map
    (·.render) = some "--1" ∧
    ((expression? maxNesting).run (.ofText .default "--1")).1.isNone = true := by decide +kernel

end FourGL
