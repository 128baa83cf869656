import FourGL.Proofs.Grammar.Operands
import FourGL.Proofs.Token.Spelling

/-!
# The text of an expression

An expression is rendered word by word, with blanks around the operators between operands. The text
is scanned into these words again (`legible_pieces`), unless a minus stands directly before another:
two hyphens begin a comment.
-/

namespace FourGL

open FourGL.Parser FourGL.ParseState

/-! ## Words and blanks -/

/-- The word that every token of the kind is. -/
def Piece.of (k : Kind) : Piece := .word ⟨k, k.text⟩

/-- The kind of the token that a literal is. -/
def LiteralKind.tokenKind : LiteralKind → Kind
  | .number => .number
  | .string => .string
  | .yes => .keyword .TRUE
  | .no => .keyword .FALSE
  | .null => .keyword .NULL

mutual

/-- The words of an expression and the blanks between them. -/
def Expression.pieces : Expression → List Piece
  | .literal _ kind text => [.word ⟨kind.tokenKind, text⟩]
  | .name d => d.pieces
  | .call _ callee arguments =>
    callee.pieces ++ .of (.mark .openParen) :: (piecesList arguments ++ [.of (.mark .closeParen)])
  | .unary _ operator operand =>
    .of operator :: (if operator = .keyword .NOT then .blank :: operand.pieces else operand.pieces)
  | .binary _ left operator negated right =>
    left.pieces ++ .blank :: ((if negated then [.of (.keyword .NOT), .blank] else []) ++
      .of operator :: .blank :: right.pieces)
  | .isNull _ operand negated =>
    operand.pieces ++ .blank :: .of (.keyword .IS) :: .blank ::
      ((if negated then [.of (.keyword .NOT), .blank] else []) ++ [.of (.keyword .NULL)])
  | .clipped _ operand => operand.pieces ++ [.blank, .of (.keyword .CLIPPED)]
  | .parenthesized _ inner => .of (.mark .openParen) :: (inner.pieces ++ [.of (.mark .closeParen)])
  | .missing _ => []

def piecesList : List Expression → List Piece
  | [] => []
  | e :: es => e.pieces ++ piecesTail es

/-- Expressions behind another one, each with a comma before it. -/
def piecesTail : List Expression → List Piece
  | [] => []
  | e :: es => .of (.mark .comma) :: .blank :: (e.pieces ++ piecesTail es)

def Designator.pieces : Designator → List Piece
  | ⟨_, name, accessors⟩ => .word ⟨Element.wordKind name, name⟩ :: piecesAccessors accessors

def piecesAccessors : List Accessor → List Piece
  | [] => []
  | a :: as => a.pieces ++ piecesAccessors as

def Accessor.pieces : Accessor → List Piece
  | .member name => [.of (.mark .dot), .word ⟨Element.wordKind name, name⟩]
  | .index indices => .of (.mark .openBracket) ::
      (piecesList indices ++ [.of (.mark .closeBracket)])
  | .allMembers => [.of (.mark .dot), .of (.mark .asterisk)]

end

@[simp] theorem Piece.text_nil : text [] = [] := rfl

@[simp] theorem Piece.text_cons (p : Piece) (ps : List Piece) :
    text (p :: ps) = p.chars ++ text ps :=
  rfl

@[simp] theorem Piece.text_append (ps qs : List Piece) : text (ps ++ qs) = text ps ++ text qs :=
  List.flatMap_append

@[simp] theorem Piece.chars_of (k : Kind) : (of k).chars = k.text.toList := rfl

@[simp] theorem Piece.chars_blank : blank.chars = " ".toList := rfl

@[simp] theorem Piece.chars_word (w : Word) : (word w).chars = w.text.toList := rfl

mutual

/-- An expression is rendered as its pieces. -/
theorem Expression.toList_render : (e : Expression) → e.render.toList = Piece.text e.pieces
  | .literal _ kind text => by simp [Expression.render, Expression.pieces]
  | .name d => by rw [Expression.render, Expression.pieces, Designator.toList_render d]
  | .call _ callee arguments => by
    simp [Expression.render, Expression.pieces, Designator.toList_render callee,
      toList_renderList arguments, Kind.text, Mark.text]
  | .unary _ operator operand => by
    rw [Expression.render, Expression.pieces]
    split
    next h => simp [Expression.toList_render operand, h, Kind.text, Keyword.text]
    next => simp [Expression.toList_render operand]
  | .binary _ left operator negated right => by
    cases negated <;>
    simp [Expression.render, Expression.pieces, Expression.toList_render left,
      Expression.toList_render right, Kind.text, Keyword.text]
  | .isNull _ operand negated => by
    cases negated <;> simp [Expression.render, Expression.pieces, Expression.toList_render operand,
      Kind.text, Keyword.text]
  | .clipped _ operand => by
    simp [Expression.render, Expression.pieces, Expression.toList_render operand,
      Kind.text, Keyword.text]
  | .parenthesized _ inner => by
    simp [Expression.render, Expression.pieces, Expression.toList_render inner,
      Kind.text, Mark.text]
  | .missing _ => rfl

theorem toList_renderList : (es : List Expression) →
    (renderList es).toList = Piece.text (piecesList es)
  | [] => rfl
  | [e] => by simp [renderList, piecesList, piecesTail, Expression.toList_render e]
  | e :: d :: es => by
    simp [renderList, piecesList, piecesTail, Expression.toList_render e,
      toList_renderList (d :: es), Kind.text, Mark.text]

theorem Designator.toList_render : (d : Designator) → d.render.toList = Piece.text d.pieces
  | ⟨_, name, accessors⟩ => by
    simp [Designator.render, Designator.pieces, toList_renderAccessors accessors]

theorem toList_renderAccessors : (as : List Accessor) →
    (renderAccessors as).toList = Piece.text (piecesAccessors as)
  | [] => rfl
  | a :: as => by
    simp [renderAccessors, piecesAccessors, Accessor.toList_render a, toList_renderAccessors as]

theorem Accessor.toList_render : (a : Accessor) → a.render.toList = Piece.text a.pieces
  | .member name => by simp [Accessor.render, Accessor.pieces, Kind.text, Mark.text]
  | .index indices => by
    simp [Accessor.render, Accessor.pieces, toList_renderList indices, Kind.text, Mark.text]
  | .allMembers => by simp [Accessor.render, Accessor.pieces, Kind.text, Mark.text]

end

/-! ## Signs -/

/-- A minus before an operand. -/
def Expression.isNegation : Expression → Bool
  | .unary _ (.mark .minus) _ => true
  | _ => false

mutual

/-- Nowhere in the expression stands a minus directly before another. -/
def Expression.signsApart : Expression → Bool
  | .literal .. => true
  | .name d => d.signsApart
  | .call _ callee arguments => callee.signsApart && signsApartList arguments
  | .unary _ operator operand =>
    !(operator == .mark .minus && operand.isNegation) && operand.signsApart
  | .binary _ left _ _ right => left.signsApart && right.signsApart
  | .isNull _ operand _ => operand.signsApart
  | .clipped _ operand => operand.signsApart
  | .parenthesized _ inner => inner.signsApart
  | .missing _ => true

def signsApartList : List Expression → Bool
  | [] => true
  | e :: es => e.signsApart && signsApartList es

def Designator.signsApart : Designator → Bool
  | ⟨_, _, accessors⟩ => signsApartAccessors accessors

def signsApartAccessors : List Accessor → Bool
  | [] => true
  | a :: as => a.signsApart && signsApartAccessors as

def Accessor.signsApart : Accessor → Bool
  | .member _ => true
  | .index indices => signsApartList indices
  | .allMembers => true

end

theorem signsApartList_iff {es : List Expression} :
    signsApartList es = true ↔ ∀ e ∈ es, e.signsApart = true := by
  induction es with
  | nil => simp [signsApartList]
  | cons e es ih => simp [signsApartList, ih]

theorem signsApartAccessors_iff {as : List Accessor} :
    signsApartAccessors as = true ↔ ∀ a ∈ as, a.signsApart = true := by
  induction as with
  | nil => simp [signsApartAccessors]
  | cons a as ih => simp [signsApartAccessors, ih]

/-! ## First words -/

/-- Literals, names and keywords are spelled. -/
def Written (k : Kind) (text : String) : Prop :=
  k ≠ .endOfFile → k.isMark = false → Word.Spelled ⟨k, text⟩

theorem Written.literal (h : Written k text) (hkind : literalKind? k = some kind) :
    k = kind.tokenKind ∧ Word.Spelled ⟨k, text⟩ := by
  refine ⟨?_, h (by rintro rfl; cases hkind) ?_⟩
  · unfold literalKind? at hkind
    split at hkind <;> cases hkind <;> rfl
  · cases k <;> first | rfl | cases hkind

theorem Written.name (h : Written k text) (hk : (k.canBeName || k.isKeyword) = true) :
    k = Element.wordKind text ∧ Word.Spelled ⟨k, text⟩ := by
  have hspelled := h (by rintro rfl; cases hk) (by cases k <;> first | rfl | cases hk)
  exact ⟨hspelled.kind_eq hk, hspelled⟩

/-- The pieces begin with a spelled word of a kind that can start an expression. -/
def Begins (ps : List Piece) : Prop :=
  ∃ w qs, ps = .word w :: qs ∧ w.Spelled ∧ w.kind.startsExpression = true

theorem Begins.append (h : Begins ps) (qs : List Piece) : Begins (ps ++ qs) := by
  obtain ⟨w, rest, rfl, hw⟩ := h
  exact ⟨w, rest ++ qs, rfl, hw⟩

section

variable {D : Nat → Expression → Prop}

theorem Designator.Fits.begins {d : Designator} (h : d.Fits Written D) :
    ∃ w qs, d.pieces = .word w :: qs ∧ w.Spelled ∧ w.kind.canBeName = true := by
  obtain ⟨k, hk, htext⟩ := h.name
  obtain ⟨span, name, accessors⟩ := d
  obtain ⟨rfl, hspelled⟩ := htext.name (by rw [hk]; rfl)
  exact ⟨_, _, rfl, hspelled, hk⟩

theorem Kind.startsExpression_of_canBeName {k : Kind} (h : k.canBeName = true) :
    k.startsExpression = true := by
  unfold Kind.startsExpression
  split <;> first | rfl | exact h

/-- A primary expression begins with a literal, a name or a parenthesis. -/
theorem Expression.Primary.begins {e : Expression} (h : e.Primary Written D) :
    ∃ w qs, e.pieces = .word w :: qs ∧ w.Spelled ∧ w.kind.startsExpression = true ∧
      operandRank? w.kind = none := by
  have hname {k : Kind} (hk : k.canBeName = true) : operandRank? k = none := by
    unfold operandRank?
    split <;> first | rfl | cases hk
  cases h with
  | @literal k kind text span hkind htext =>
    obtain ⟨rfl, hspelled⟩ := htext.literal hkind
    refine ⟨_, _, rfl, hspelled, ?_, ?_⟩ <;> cases kind <;> rfl
  | parenthesized => exact ⟨_, _, rfl, Element.spelled_mark _, rfl, rfl⟩
  | name hd =>
    obtain ⟨w, qs, heq, hspelled, hk⟩ := hd.begins
    exact ⟨w, qs, heq, hspelled, Kind.startsExpression_of_canBeName hk, hname hk⟩
  | @call arguments callee span hcallee =>
    obtain ⟨w, qs, heq, hspelled, hk⟩ := hcallee.begins
    have hpieces : (Expression.call span callee arguments).pieces = callee.pieces ++ _ := rfl
    rw [hpieces, heq]
    exact ⟨w, _, rfl, hspelled, Kind.startsExpression_of_canBeName hk, hname hk⟩

theorem spelled_sign (h : operandRank? operator = some rank) :
    Word.Spelled ⟨operator, operator.text⟩ ∧ operator.startsExpression = true := by
  unfold operandRank? at h
  split at h <;> cases h
  · exact ⟨Element.spelled_keyword (by decide), rfl⟩
  · exact ⟨Element.spelled_mark _, rfl⟩
  · exact ⟨Element.spelled_mark _, rfl⟩

/-- An expression begins with a minus only if it is a negation of a value. -/
theorem Expression.Signed.begins {e : Expression} (h : e.Signed Written D) :
    ∃ w qs, e.pieces = .word w :: qs ∧ w.Spelled ∧ w.kind.startsExpression = true ∧
      (e.isNegation = false → w.kind ≠ .mark .minus) := by
  cases h with
  | primary h =>
    obtain ⟨w, qs, heq, hspelled, hstarts, hsign⟩ := h.begins
    refine ⟨w, qs, heq, hspelled, hstarts, fun _ hminus => ?_⟩
    rw [hminus] at hsign
    cases hsign
  | unary hrank =>
    obtain ⟨hspelled, hstarts⟩ := spelled_sign hrank
    refine ⟨_, _, rfl, hspelled, hstarts, ?_⟩
    rintro hnot rfl
    cases hnot

theorem Expression.Chain.begins {e : Expression} (h : e.Chain Written D least) :
    Begins e.pieces := by
  induction h with
  | signed h =>
    obtain ⟨w, qs, heq, hspelled, hstarts, -⟩ := h.begins
    exact ⟨w, qs, heq, hspelled, hstarts⟩
  | isNull _ _ _ ih | clipped _ _ _ ih | binary _ _ _ _ _ _ ih => exact ih.append _

end

/-! ## Legibility -/

/-- What comes directly behind an expression, if anything does. -/
def endsExpression (c : Char) : Bool := c == ' ' || c == ')' || c == ']' || c == ','

/-- What comes directly behind a part of a designator, if anything does. -/
def endsName (c : Char) : Bool := endsExpression c || c == '.' || c == '[' || c == '('

theorem Kind.endsBefore_of_endsExpression (k : Kind) (h : endsExpression c = true) :
    k.endsBefore c = true := by
  obtain rfl | rfl | rfl | rfl : c = ' ' ∨ c = ')' ∨ c = ']' ∨ c = ',' := by
    simpa [endsExpression, or_assoc] using h
  all_goals
    cases k with
    | mark m => cases m <;> rfl
    | _ => rfl

/-- A name or a keyword ends before whatever can come behind a name. -/
theorem Kind.endsBefore_of_endsName {k : Kind} (hk : (k.canBeName || k.isKeyword) = true)
    (h : endsName c = true) : k.endsBefore c = true := by
  obtain h | rfl | rfl | rfl : endsExpression c = true ∨ c = '.' ∨ c = '[' ∨ c = '(' := by
    simpa [endsName, or_assoc] using h
  · exact k.endsBefore_of_endsExpression h
  all_goals cases k <;> first | rfl | cases hk

theorem Piece.atHead {p : Char → Bool} {x : Piece} (h : x.chars.head?.any p = true)
    (ps : List Piece) : AtHead p (text (x :: ps)) := by
  rw [text_cons]
  cases hx : x.chars with
  | nil => rw [hx] at h; cases h
  | cons c cs =>
    rw [hx] at h
    exact .cons h _

namespace Legible

/-- A word that is the same for all tokens of its kind, before something that can end it. -/
theorem of (hspelled : Word.Spelled ⟨k, k.text⟩) (h : Legible ps)
    (hends : AtHead endsExpression (Piece.text ps)) : Legible (.of k :: ps) :=
  .word hspelled (hends.mono fun _ => k.endsBefore_of_endsExpression) h

/-- A mark that ends before anything. -/
theorem ofMark {m : Mark} (hm : ∀ c, (Kind.mark m).endsBefore c = true) (h : Legible ps) :
    Legible (.of (.mark m) :: ps) :=
  .word (Element.spelled_mark m) (fun c _ => hm c) h

theorem afterBlank (h : Legible ps) (hps : ∃ w qs, ps = .word w :: qs) :
    Legible (.blank :: ps) := by
  obtain ⟨w, qs, rfl⟩ := hps
  exact .blank h

end Legible

/-- The pieces are legible before everything legible that can come behind an expression. -/
def LegibleBefore (ps : List Piece) : Prop :=
  ∀ qs, Legible qs → AtHead endsExpression (Piece.text qs) → Legible (ps ++ qs)

/-- Operands as `D` says begin with a word and are legible, and only negations of values among the
operands of a sign begin with a minus. -/
structure OperandsLegible (D : Nat → Expression → Prop) : Prop where
  begins : ∀ {rank e}, D rank e → Begins e.pieces
  unsigned : ∀ {e}, D Level.unary.rank e → e.isNegation = false → ∀ qs,
    AtHead (Kind.mark .minus).endsBefore (Piece.text (e.pieces ++ qs))
  legible : ∀ {rank e}, D rank e → e.signsApart = true → LegibleBefore e.pieces

section

variable {D : Nat → Expression → Prop} (hD : OperandsLegible D)
include hD

theorem legible_tail {es : List Expression} (hes : ∀ e ∈ es, D Level.lowest.rank e)
    (hapart : ∀ e ∈ es, e.signsApart = true) (hqs : Legible qs)
    (hends : AtHead endsExpression (Piece.text qs)) :
    Legible (piecesTail es ++ qs) ∧ AtHead endsExpression (Piece.text (piecesTail es ++ qs)) := by
  induction es with
  | nil => exact ⟨hqs, hends⟩
  | cons e es ih =>
    obtain ⟨he, hes⟩ := List.forall_mem_cons.mp hes
    obtain ⟨hsign, hsigns⟩ := List.forall_mem_cons.mp hapart
    obtain ⟨htail, hend⟩ := ih hes hsigns
    obtain ⟨w, ps, hpieces, -⟩ := hD.begins he
    have hword : e.pieces ++ piecesTail es ++ qs = .word w :: (ps ++ piecesTail es ++ qs) := by
      rw [hpieces]
      rfl
    have hlegible : Legible (e.pieces ++ piecesTail es ++ qs) := by
      rw [List.append_assoc]
      exact hD.legible he hsign _ htail hend
    exact ⟨.ofMark (fun _ => rfl) (hlegible.afterBlank ⟨w, _, hword⟩),
      Piece.atHead (by decide) _⟩

theorem legible_list {es : List Expression} (hes : ∀ e ∈ es, D Level.lowest.rank e)
    (hapart : ∀ e ∈ es, e.signsApart = true) (hqs : Legible qs)
    (hends : AtHead endsExpression (Piece.text qs)) : Legible (piecesList es ++ qs) := by
  cases es with
  | nil => exact hqs
  | cons e es =>
    obtain ⟨he, hes⟩ := List.forall_mem_cons.mp hes
    obtain ⟨hsign, hsigns⟩ := List.forall_mem_cons.mp hapart
    obtain ⟨htail, hend⟩ := legible_tail hD hes hsigns hqs hends
    rw [piecesList, List.append_assoc]
    exact hD.legible he hsign _ htail hend

theorem legible_accessor {a : Accessor} (ha : a.Fits Written D) (hapart : a.signsApart = true)
    (hqs : Legible qs) (hends : AtHead endsName (Piece.text qs)) : Legible (a.pieces ++ qs) := by
  cases a with
  | member name =>
    obtain ⟨k, hk, htext⟩ := ha
    obtain ⟨rfl, hspelled⟩ := htext.name hk
    refine .word (Element.spelled_mark _) ?_
      (.word hspelled (hends.mono fun _ => Kind.endsBefore_of_endsName hk) hqs)
    refine hspelled.atHead_dot (fun hnumber : Element.wordKind name = .number => ?_) _
    rw [hnumber] at hk
    cases hk
  | index indices =>
    have hclose : Legible (.of (.mark .closeBracket) :: qs) := .ofMark (fun _ => rfl) hqs
    have hlist := legible_list hD ha.2 (signsApartList_iff.mp hapart) hclose
      (Piece.atHead (by decide) _)
    rw [Accessor.pieces, List.cons_append, List.append_assoc]
    exact .ofMark (fun _ => rfl) hlist
  | allMembers =>
    refine .word (Element.spelled_mark _) (Piece.atHead (by decide) _)
      (.word (Element.spelled_mark _) (hends.mono fun c hc => ?_) hqs)
    obtain hc | rfl | rfl | rfl : endsExpression c = true ∨ c = '.' ∨ c = '[' ∨ c = '(' := by
      simpa [endsName, or_assoc] using hc
    · exact Kind.endsBefore_of_endsExpression _ hc
    all_goals rfl

theorem legible_accessors {as : List Accessor} (has : ∀ a ∈ as, a.Fits Written D)
    (hapart : ∀ a ∈ as, a.signsApart = true) (hqs : Legible qs)
    (hends : AtHead endsName (Piece.text qs)) :
    Legible (piecesAccessors as ++ qs) ∧
    AtHead endsName (Piece.text (piecesAccessors as ++ qs)) := by
  induction as with
  | nil => exact ⟨hqs, hends⟩
  | cons a as ih =>
    obtain ⟨ha, has⟩ := List.forall_mem_cons.mp has
    obtain ⟨hsign, hsigns⟩ := List.forall_mem_cons.mp hapart
    obtain ⟨htail, hend⟩ := ih has hsigns
    rw [piecesAccessors, List.append_assoc]
    refine ⟨legible_accessor hD ha hsign htail hend, ?_⟩
    cases a <;> exact Piece.atHead (by decide) _

theorem legible_designator {d : Designator} (hd : d.Fits Written D) (hapart : d.signsApart = true)
    (hqs : Legible qs) (hends : AtHead endsName (Piece.text qs)) : Legible (d.pieces ++ qs) := by
  obtain ⟨span, name, accessors⟩ := d
  obtain ⟨k, hk, htext⟩ := hd.name
  have hk : (k.canBeName || k.isKeyword) = true := by rw [hk]; rfl
  obtain ⟨rfl, hspelled⟩ := htext.name hk
  obtain ⟨htail, hend⟩ := legible_accessors hD hd.accessors
    (signsApartAccessors_iff.mp hapart) hqs hends
  exact .word hspelled (hend.mono fun _ => Kind.endsBefore_of_endsName hk) htail

theorem legible_primary {e : Expression} (he : e.Primary Written D) (hapart : e.signsApart = true) :
    LegibleBefore e.pieces := by
  intro qs hqs hends
  have hclose : Legible (.of (.mark .closeParen) :: qs) := .ofMark (fun _ => rfl) hqs
  have hatClose : AtHead endsExpression (Piece.text (.of (.mark .closeParen) :: qs)) :=
    Piece.atHead (by decide) _
  cases he with
  | literal hkind htext =>
    obtain ⟨rfl, hspelled⟩ := htext.literal hkind
    exact .word hspelled (hends.mono fun _ => Kind.endsBefore_of_endsExpression _) hqs
  | parenthesized hinner =>
    rw [Expression.pieces, List.cons_append, List.append_assoc]
    exact .ofMark (fun _ => rfl) (hD.legible hinner hapart _ hclose hatClose)
  | name hd =>
    exact legible_designator hD hd hapart hqs (hends.mono fun c hc => by simp [endsName, hc])
  | call hcallee harguments =>
    obtain ⟨hcalleeApart, hargumentsApart⟩ := Bool.and_eq_true_iff.mp hapart
    have hlist := legible_list hD harguments (signsApartList_iff.mp hargumentsApart)
      hclose hatClose
    rw [Expression.pieces, List.append_assoc, List.cons_append, List.append_assoc]
    exact legible_designator hD hcallee hcalleeApart (.ofMark (fun _ => rfl) hlist)
      (Piece.atHead (by decide) _)

/-- Two signs in a row are legible unless both are a minus. -/
theorem legible_signed {e : Expression} (he : e.Signed Written D) (hapart : e.signsApart = true) :
    LegibleBefore e.pieces := by
  cases he with
  | primary h => exact legible_primary hD h hapart
  | unary hrank hoperand =>
    intro qs hqs hends
    obtain ⟨hapart, hoperandApart⟩ := Bool.and_eq_true_iff.mp hapart
    have hlegible := hD.legible hoperand hoperandApart qs hqs hends
    obtain ⟨hspelled, -⟩ := spelled_sign hrank
    unfold operandRank? at hrank
    split at hrank <;> cases hrank
    · obtain ⟨w, ps, hpieces, -⟩ := hD.begins hoperand
      have hword := congrArg (· ++ qs) hpieces
      exact .of hspelled (hlegible.afterBlank ⟨w, _, hword⟩) (Piece.atHead (by decide) _)
    · exact .word hspelled (hD.unsigned hoperand (by simpa using hapart) qs) hlegible
    · exact .ofMark (fun _ => rfl) hlegible

omit hD in
theorem spelled_operator (h : operator.level? = some level) :
    Word.Spelled ⟨operator, operator.text⟩ := by
  cases operator with
  | mark m => exact Element.spelled_mark m
  | keyword k => exact Element.spelled_keyword (by cases k <;> first | decide | cases h)
  | _ => cases h

omit hD in
/-- A NOT may stand before the operator. -/
theorem legible_negated (negated : Bool) (h : Legible (.of k :: ps)) :
    Legible
      (.blank :: ((if negated then [.of (.keyword .NOT), .blank] else []) ++ .of k :: ps)) := by
  cases negated with
  | false => exact h.afterBlank ⟨_, _, rfl⟩
  | true =>
    have hnot : Legible (.of (.keyword .NOT) :: .blank :: .of k :: ps) :=
      .of (Element.spelled_keyword (by decide)) (h.afterBlank ⟨_, _, rfl⟩)
        (Piece.atHead (by decide) _)
    exact hnot.afterBlank ⟨_, _, rfl⟩

/-- Operators stand between blanks. -/
theorem legible_chain {e : Expression} (he : e.Chain Written D least)
    (hapart : e.signsApart = true) : LegibleBefore e.pieces := by
  induction he with
  | signed h => exact legible_signed hD h hapart
  | @isNull negated span left hleft _ _ ih =>
    intro qs hqs hends
    have hnull : Legible (.of (.keyword .NULL) :: qs) :=
      .of (Element.spelled_keyword (by decide)) hqs hends
    have his : Legible (.of (.keyword .IS) :: .blank ::
        ((if negated then [.of (.keyword .NOT), .blank] else []) ++ .of (.keyword .NULL) :: qs)) :=
      .of (Element.spelled_keyword (by decide)) (legible_negated negated hnull)
        (Piece.atHead (by decide) _)
    have hall := ih hapart _ (his.afterBlank ⟨_, _, rfl⟩) (Piece.atHead (by decide) _)
    rw [Expression.pieces]
    simpa using hall
  | @clipped span left hleft _ _ ih =>
    intro qs hqs hends
    have hclipped : Legible (.of (.keyword .CLIPPED) :: qs) :=
      .of (Element.spelled_keyword (by decide)) hqs hends
    rw [Expression.pieces, List.append_assoc]
    exact ih hapart _ (hclipped.afterBlank ⟨_, _, rfl⟩) (Piece.atHead (by decide) _)
  | @binary level negated operator right span left hleft hlevel _ _ _ hright ih =>
    intro qs hqs hends
    obtain ⟨hleftApart, hrightApart⟩ := Bool.and_eq_true_iff.mp hapart
    obtain ⟨w, ps, hpieces, -⟩ := hD.begins hright
    have hword := congrArg (· ++ qs) hpieces
    have hoperator : Legible (.of operator :: .blank :: (right.pieces ++ qs)) :=
      .of (spelled_operator hlevel)
        ((hD.legible hright hrightApart qs hqs hends).afterBlank ⟨w, _, hword⟩)
        (Piece.atHead (by decide) _)
    have hall := ih hleftApart _ (legible_negated negated hoperator) (Piece.atHead (by decide) _)
    rw [Expression.pieces]
    simpa using hall

end

/-- An expression that is read without an error is legible, but for a minus before another. -/
theorem operandsLegible_fits (levels : Nat) : OperandsLegible (Expression.Fits Written levels) := by
  induction levels with
  | zero => exact ⟨fun h => h.elim, fun h => h.elim, fun h => h.elim⟩
  | succ levels ih =>
    refine ⟨fun h => Expression.Chain.begins h, fun h hsign qs => ?_,
      fun h hapart => legible_chain ih h hapart⟩
    obtain ⟨w, ps, hpieces, hspelled, -, hminus⟩ := (Expression.Chain.signed_of_unary h).begins
    rw [hpieces]
    exact hspelled.atHead_minus (hminus hsign) _

/-- An expression that is read without an error is scanned back into its words. -/
theorem legible_pieces {e : Expression} (h : e.Fits Written levels least)
    (hapart : e.signsApart = true) : Legible e.pieces := by
  have hlegible := (operandsLegible_fits levels).legible h hapart [] .nil (.nil _)
  rwa [List.append_nil] at hlegible

end FourGL
