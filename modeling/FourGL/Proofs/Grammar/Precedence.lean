import FourGL.Proofs.Grammar.Yield

/-!
# Precedence

An expression that is read without an error is the one that the levels of the operators prescribe:
its tokens are those that are read, and wherever an operator stands in it, its operands go no
further than its level lets them (`expression_prescribed`).

Every operand is read with the least rank that operators in it may have, which bounds what a right
operand is (`Expression.Chain.least_le`). What a left operand is follows from its edge: an operator
that it could have taken itself does not stand behind it.
-/

namespace FourGL

open FourGL.Parser FourGL.ParseState

/-! ## Parts -/

def Accessor.parts : Accessor → List Expression
  | .index indices => indices
  | .member _ | .allMembers => []

def Designator.parts (d : Designator) : List Expression := d.accessors.flatMap Accessor.parts

namespace Expression

/-- The expressions directly inside the expression. -/
def parts : Expression → List Expression
  | literal .. | missing _ => []
  | name d => d.parts
  | call _ callee arguments => callee.parts ++ arguments
  | binary _ left _ _ right => [left, right]
  | unary _ _ operand | isNull _ operand _ | clipped _ operand | parenthesized _ operand =>
    [operand]

/-- The expression itself or one inside it, however deep. -/
inductive Within : Expression → Expression → Prop where
  | refl (e : Expression) : Within e e
  | part (hpart : part ∈ e.parts) (h : Within d part) : Within d e

theorem Within.forall_of_parts {P : Expression → Prop} {e : Expression} (he : P e)
    (hparts : ∀ part ∈ e.parts, ∀ d : Expression, d.Within part → P d) :
    ∀ d : Expression, d.Within e → P d := by
  rintro d (_ | ⟨hpart, h⟩)
  · exact he
  · exact hparts _ hpart d h

/-! ## What the levels prescribe -/

/-- The level of the operator between two operands. -/
def level? : Expression → Option Level
  | binary _ _ operator _ _ => operator.level?
  | _ => none

def isNot : Expression → Bool
  | unary _ (.keyword .NOT) _ => true
  | _ => false

def isNullTest : Expression → Bool
  | isNull .. => true
  | _ => false

def isClipped : Expression → Bool
  | clipped .. => true
  | _ => false

def isBinary : Expression → Bool
  | binary .. => true
  | _ => false

/-- The operands of the expression are as the levels of the operators prescribe. Of operators of one
level the first ones bind tighter, but of those of exponentiation the last ones. -/
def Prescribed : Expression → Prop
  | binary _ left operator _ right => ∃ p, operator.level? = some p ∧
    (∀ q ∈ left.level?, if operator = .mark .power then p.rank < q.rank
      else p.rank ≤ q.rank) ∧
    (left.isNot = true → p.rank < Level.not.rank) ∧
    (∀ q ∈ right.level?, if operator = .mark .power then p.rank ≤ q.rank
      else p.rank < q.rank) ∧
    (right.isClipped = true → p.rank < Level.format.rank) ∧
    (right.isNullTest = true → p.rank < Level.comparison.rank)
  | isNull _ operand _ => ∀ q ∈ operand.level?, Level.comparison.rank ≤ q.rank
  | clipped _ operand => ∀ q ∈ operand.level?, Level.format.rank ≤ q.rank
  | unary _ operator operand =>
    operator = .keyword .NOT ∧ (∀ q ∈ operand.level?, Level.not.rank < q.rank) ∨
      (operator = .mark .plus ∨ operator = .mark .minus) ∧ operand.isBinary = false ∧
        operand.isNullTest = false ∧ operand.isClipped = false
  | literal .. | name _ | call .. | parenthesized .. | missing _ => True

end Expression

/-! ## Ranks of operands -/

theorem rank_lt_of_level? (h : Kind.level? operator = some level) :
    level.rank ≤ Level.exponentiation.rank ∧ level ≠ .not := by
  unfold Kind.level? at h
  split at h <;> cases h <;> decide

/-- Only exponentiation is as tight as exponentiation. -/
theorem eq_power_of_level? (h : Kind.level? operator = some level)
    (hrank : Level.exponentiation.rank ≤ level.rank) : operator = .mark .power := by
  unfold Kind.level? at h
  split at h <;> cases h <;> first | rfl | exact absurd hrank (by decide)

theorem rightRank_le (h : operator.level? = some level) :
    rightRank operator level ≤ level.rank + 1 ∧
      rightRank operator level ≤ Level.exponentiation.rank := by
  have hle := (rank_lt_of_level? h).1
  unfold rightRank
  split
  next => exact ⟨Nat.le_succ _, hle⟩
  next hpower =>
    refine ⟨Nat.le_refl _, Nat.lt_of_not_le fun hrank => hpower (eq_power_of_level? h hrank)⟩

theorem lt_of_rightRank_le (hlevel : operator.level? = some level)
    (h : rightRank operator level ≤ rank) (hrank : rank < Level.exponentiation.rank) :
    level.rank < rank := by
  unfold rightRank at h
  split at h
  next hpower =>
    subst hpower
    cases hlevel
    exact absurd h (Nat.not_le.mpr hrank)
  next => exact h

namespace Expression

/-- An operator that a left operand did not take binds no tighter than the operator in that operand,
and looser than exponentiation if there is one. -/
theorem level_of_edge {left : Expression} (hedge : rank < left.edge)
    (hlevel : left.level? = some q) :
    rank ≤ q.rank ∧ rank < Level.exponentiation.rank := by
  cases left with
  | binary span left operator negated right =>
    have hlevel : operator.level? = some q := hlevel
    have hrank := (Nat.lt_min.mp hedge).1
    rw [hlevel] at hrank
    obtain ⟨hle, hpower⟩ := rightRank_le hlevel
    exact ⟨Nat.le_of_lt_succ (Nat.lt_of_lt_of_le hrank hle), Nat.lt_of_lt_of_le hrank hpower⟩
  | _ => cases hlevel

theorem not_of_edge {left : Expression} (hedge : rank < left.edge) (hnot : left.isNot = true) :
    rank < Level.not.rank := by
  unfold isNot at hnot
  split at hnot
  · exact (Nat.lt_min.mp hedge).1
  · cases hnot

/-- What stands between or behind the operands of a chain has at least its rank. -/
theorem Chain.least_le {e : Expression} (h : e.Chain T D least) :
    (∀ q ∈ e.level?, least ≤ q.rank) ∧
    (e.isNullTest = true → least ≤ Level.comparison.rank) ∧
      (e.isClipped = true → least ≤ Level.format.rank) := by
  cases h with
  | signed h =>
    cases h with
    | primary h => cases h <;> exact ⟨nofun, nofun, nofun⟩
    | unary => exact ⟨nofun, nofun, nofun⟩
  | isNull _ hleast => exact ⟨nofun, fun _ => hleast, nofun⟩
  | clipped _ hleast => exact ⟨nofun, nofun, fun _ => hleast⟩
  | binary _ hlevel hleast =>
    refine ⟨fun q hq => ?_, nofun, nofun⟩
    obtain rfl := Option.some.inj (hlevel.symm.trans hq)
    exact hleast

theorem Fits.chain {e : Expression} (h : e.Fits T levels least) :
    ∃ levels', e.Chain T (Fits T levels') least := by
  cases levels with
  | zero => exact h.elim
  | succ levels => exact ⟨levels, h⟩

/-! ## Every node is as prescribed -/

theorem Signed.prescribed {e : Expression} (h : e.Signed T (Fits T levels)) : e.Prescribed := by
  cases h with
  | primary h => cases h <;> trivial
  | @unary operator rank operand span hrank hoperand =>
    obtain ⟨levels', hchain⟩ := hoperand.chain
    have hsign (hchain : operand.Chain T (Fits T levels') Level.unary.rank) :
        operand.isBinary = false ∧ operand.isNullTest = false ∧ operand.isClipped = false := by
      cases hchain.signed_of_unary with
      | primary h => cases h <;> exact ⟨rfl, rfl, rfl⟩
      | unary => exact ⟨rfl, rfl, rfl⟩
    unfold operandRank? at hrank
    split at hrank <;> cases hrank
    · refine .inl ⟨rfl, fun q hq => Nat.lt_of_le_of_ne (hchain.least_le.1 q hq) fun heq => ?_⟩
      cases operand with
      | binary => exact (rank_lt_of_level? hq).2 (by cases q <;> first | rfl | cases heq)
      | _ => cases hq
    · exact .inr ⟨.inr rfl, hsign hchain⟩
    · exact .inr ⟨.inl rfl, hsign hchain⟩

theorem Chain.prescribed {e : Expression} (h : e.Chain T (Fits T levels) least) : e.Prescribed := by
  cases h with
  | signed h => exact h.prescribed
  | isNull _ _ hedge => exact fun q hq => (level_of_edge hedge hq).1
  | clipped _ _ hedge => exact fun q hq => (level_of_edge hedge hq).1
  | @binary level negated operator right span left hleft hlevel hleast hedge hnegated hright =>
    obtain ⟨levels', hright⟩ := hright.chain
    obtain ⟨hbinary, hnullTest, hclipped⟩ := hright.least_le
    refine ⟨level, hlevel, fun q hq => ?_, not_of_edge hedge, fun q hq => ?_, fun h => ?_,
      fun h => ?_⟩
    · obtain ⟨hle, hlt⟩ := level_of_edge hedge hq
      split
      next hpower =>
        subst hpower
        cases hlevel
        exact absurd hlt (Nat.lt_irrefl _)
      next => exact hle
    · have hle := hbinary q hq
      unfold rightRank at hle
      split at hle
      next hpower => rwa [if_pos hpower]
      next hpower => rwa [if_neg hpower]
    · exact lt_of_rightRank_le hlevel (hclipped h) (by decide)
    · exact lt_of_rightRank_le hlevel (hnullTest h) (by decide)

/-- Where the operands of the levels below are as prescribed throughout, so are those of a chain. -/
theorem Chain.within_prescribed {e : Expression} (h : e.Chain T (Fits T levels) least)
    (hdeeper : ∀ {least e}, Fits T levels least e →
      ∀ d : Expression, d.Within e → d.Prescribed) :
    ∀ d : Expression, d.Within e → d.Prescribed := by
  have hdesignator {d : Designator} (h : d.Fits T (Fits T levels)) :
      ∀ part ∈ d.parts, ∀ d : Expression, d.Within part → d.Prescribed := by
    intro part hpart
    obtain ⟨a, ha, hpart⟩ := List.mem_flatMap.mp hpart
    cases a with
    | index indices => exact hdeeper ((h.accessors _ ha).2 part hpart)
    | _ => cases hpart
  refine Within.forall_of_parts h.prescribed ?_
  induction h with
  | signed h =>
    cases h with
    | primary h =>
      cases h with
      | literal => exact nofun
      | parenthesized hinner => exact List.forall_mem_singleton.mpr (hdeeper hinner)
      | name h => exact hdesignator h
      | call hcallee harguments =>
        exact List.forall_mem_append.mpr
          ⟨hdesignator hcallee, fun part hpart => hdeeper (harguments part hpart)⟩
    | unary _ hoperand => exact List.forall_mem_singleton.mpr (hdeeper hoperand)
  | isNull hleft _ _ ih | clipped hleft _ _ ih =>
    exact List.forall_mem_singleton.mpr (Within.forall_of_parts hleft.prescribed ih)
  | binary hleft _ _ _ _ hright ih =>
    exact List.forall_mem_cons.mpr ⟨Within.forall_of_parts hleft.prescribed ih,
      List.forall_mem_singleton.mpr (hdeeper hright)⟩

theorem Fits.prescribed {e : Expression} (h : e.Fits T levels least) :
    ∀ d : Expression, d.Within e → d.Prescribed := by
  induction levels generalizing least e with
  | zero => exact h.elim
  | succ levels ih => exact Chain.within_prescribed h ih

end Expression

/-- An expression that is read from the beginning of a text without an error is the one that the
levels of the operators prescribe: it stands for all tokens that are read, in their order, and
everywhere in it the operands are as the level of their operator prescribes. -/
theorem expression_prescribed {text : String} {mode : ScanMode} {e : Expression} {t : ParseState}
    (hread : (expression? maxNesting).run (.ofText mode text) = (some e, t))
    (herrors : t.errorCount = 0) :
    (∃ ts, (Lexeme.ofText mode text).map (·.token) = ts ++ t.input.rest.map (·.token) ∧
      List.Forall₂ Token.Spells ts e.yield) ∧ ∀ d : Expression, d.Within e →
      d.Prescribed := by
  have hclean : (expression? maxNesting).Clean (.ofText mode text) (some e) t :=
    ⟨hread, herrors⟩
  have hallLeft : AllLeft (fun _ _ => True) (.ofText mode text) := ⟨rfl, fun _ _ _ => trivial⟩
  have hfits : e.Fits (fun _ _ => True) maxNesting Level.lowest.rank :=
    yields_expressionWith? (yields_operandAt _ maxNesting) hclean hallLeft
  exact ⟨spelled_expressionWith? (spelled_operandAt maxNesting) hclean rfl, hfits.prescribed⟩

/-- A negation of a test of a comparison, with all of it before an operator that binds more
loosely. -/
theorem expression_prescribed_test :
    ∃ e t, (expression? maxNesting).run
        (.ofText .default "NOT a + -b ** c[1] not like 'x' CLIPPED IS NOT NULL OR f(d.e) ;") =
          (some e, t) ∧
      e.level? = some .or ∧
      (∃ ts, (Lexeme.ofText .default
          "NOT a + -b ** c[1] not like 'x' CLIPPED IS NOT NULL OR f(d.e) ;").map (·.token) =
            ts ++ t.input.rest.map (·.token) ∧
        List.Forall₂ Token.Spells ts e.yield) ∧ ∀ d : Expression, d.Within e →
        d.Prescribed := by
  have hparsed :
      let r := (expression? maxNesting).run
        (.ofText .default "NOT a + -b ** c[1] not like 'x' CLIPPED IS NOT NULL OR f(d.e) ;")
      r.1.any (·.level? == some .or) = true ∧ r.2.errorCount = 0 := by decide +kernel
  obtain ⟨hfound, herrors⟩ := hparsed
  obtain ⟨e, he, hlevel⟩ := (Option.any_eq_true ..).mp hfound
  exact ⟨e, _, Prod.ext he rfl, eq_of_beq hlevel,
    expression_prescribed (Prod.ext he rfl) herrors⟩

end FourGL
