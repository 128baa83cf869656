import FourGL.Parse
import FourGL.Proofs.Grammar.Rounds
import FourGL.Proofs.Grammar.Statements

/-!
# Derivations

How the tree of a text comes about, as a relation between states: a body is a number of rounds, a
round adds a statement or skips a token, a statement is a leaf or a block, and a block holds a body,
two branches or clauses. Properties of trees are proved by induction on it, one case for each way to
add to a tree.
-/

namespace FourGL

open FourGL.Parser FourGL.ParseState

/-- The words other than END at which the body of a block can stop. -/
def Context.stopWords : List Keyword :=
  [.ELSE, .CATCH, .WHEN, .OTHERWISE, .BEFORE, .COMMAND, .ON, .FUNCTION, .MAIN, .PUBLIC, .PRIVATE,
   .GLOBALS]

/-- The contexts in which a block of a keyword reads what it holds. -/
inductive Context.Inside (ctx : Context) : Keyword → Context → Prop where
  | plain (k : Keyword) : Inside ctx k (ctx.withEnd (.keyword k))
  | branch (k : Keyword) {word : Keyword} : word = .ELSE ∨ word = .CATCH →
      Inside ctx k ((ctx.withEnd (.keyword k)).withStops [.keyword word])
  | loop (k : Keyword) : Inside ctx k (ctx.insideLoop k)
  | caseOf : Inside ctx .CASE
      ((ctx.insideLoop .CASE).withStops [.keyword .WHEN, .keyword .OTHERWISE])
  | menu : Inside ctx .MENU ctx.insideMenu
  | globals : Inside ctx .GLOBALS ctx.insideGlobals
  | routine (k : Keyword) (returns : Option Owner) : Inside ctx k (ctx.routine (.keyword k) returns)

namespace Context.Inside

theorem ends_eq {ctx inner : Context} (h : ctx.Inside k inner) :
    inner.ends = .keyword k :: ctx.ends := by
  cases h <;> rfl

/-- The context stops a body at the stop words only. -/
theorem stops_subset {ctx inner : Context} (h : ctx.Inside k inner)
    (hctx : ctx.stops ⊆ stopWords.map .keyword) : inner.stops ⊆ stopWords.map .keyword := by
  have happend : ∀ ks : List Kind, ks ⊆ stopWords.map .keyword →
      ks ++ ctx.stops ⊆ stopWords.map .keyword :=
        fun ks hks => List.append_subset.mpr ⟨hks, hctx⟩
  cases h with
  | plain | loop => exact hctx
  | branch _ hword => obtain rfl | rfl := hword <;> exact happend [_] (by decide)
  | caseOf => exact happend [_, _] (by decide)
  | menu => exact happend menuWords (by decide)
  | globals => exact happend [_, _, _] (by decide)
  | routine => exact show routineStops ⊆ _ by decide

end Context.Inside

namespace ParseState

/-- Steps that read nothing and do not look ahead. -/
def Stays (s t : ParseState) : Prop := Steps statementMessages s t ∧ t.input = s.input

/-- The header of a node is read from `s` to `t` and ends at `stop`. -/
structure Header (o : Opening) (s t : ParseState) (stop : Nat) : Prop where
  steps : Steps statementMessages s t
  stop_eq : stop = max t.input.last.stop o.token.start

end ParseState

/-- A body of some productions that END with a keyword closes. -/
def Parser.Region.upTo (ps : List Production) (k : Keyword) : Region :=
  { productions := ps, terminator := some (.keyword k) }

/-- Reads a clause of a CASE or a MENU behind its first token, where `levels` levels of nesting are
left inside it. -/
def Parser.clauseAt (levels : Nat) (ctx : Context) :
    Keyword → List Node → Opening → Parser Node
  | .CASE => caseClause levels (bodyAt levels) ctx
  | _ => fun _ => menuClause levels (bodyAt levels) ctx

/-- Something that is read between two states where `levels` levels of nesting are left inside. -/
inductive Judgment where
  /-- The rounds of a body up to here. -/
  | rounds (levels : Nat) (ctx : Context) (region : Region) (s : ParseState) (p : Progress)
      (t : ParseState)
  /-- The rounds of the clauses of a block up to here; a clause is read in the context `inner`. -/
  | clauseRounds (levels : Nat) (ctx inner : Context) (k : Keyword) (s : ParseState) (p : Progress)
      (t : ParseState)
  /-- A body. -/
  | body (levels : Nat) (ctx : Context) (region : Region) (s : ParseState) (nodes : List Node)
      (stop : Stop) (t : ParseState)
  /-- What a block of a keyword holds. -/
  | content (levels : Nat) (ctx : Context) (k : Keyword) (s : ParseState) (nodes : List Node)
      (stop : Stop) (t : ParseState)
  /-- A clause or a second branch, behind its first token. -/
  | clause (levels : Nat) (ctx : Context) (region : Region) (o : Opening) (s : ParseState)
      (n : Node) (stop : Stop) (t : ParseState)
  /-- A statement behind its first token. -/
  | statement (levels : Nat) (ctx : Context) (o : Opening) (s : ParseState) (n : Node)
      (t : ParseState)

/-- How a judgment comes about. The nodes are those that the parsers of the grammar return, and
wherever such a node `n` is put among the nodes `ns` before it, `I n ns` has to hold. -/
inductive Derives (I : Node → List Node → Prop) : Judgment → Prop where
  | noRound (levels : Nat) (ctx : Context) (region : Region) (s : ParseState) :
      Derives I (.rounds levels ctx region s {} s)
  | addStatement (hbefore : Derives I (.rounds (levels + 1) ctx region s p t))
      (hchoice : Chooses false ctx region t (.form f word) u)
      (hrun : (formWith levels (bodyAt levels) f word ctx ⟨u.read.input.last, t.errorCount⟩).run
        u.read = (n, v))
      (hstatement : Derives I
        (.statement levels ctx ⟨u.read.input.last, t.errorCount⟩ u.read n v))
      (hjump : (checkJump ctx n).run v = ((), w)) (hleave : Looks w x) (hinsert : I n p.nodes) :
      Derives I (.rounds (levels + 1) ctx region s ⟨n.insert p.nodes, false⟩ x)
  | skip (hbefore : Derives I (.rounds levels ctx region s p t))
      (hskip : Skip atLimit ctx region (p, t) (q, u)) : Derives I (.rounds levels ctx region s q u)
  | noClause (levels : Nat) (ctx inner : Context) (k : Keyword) (s : ParseState) :
      Derives I (.clauseRounds levels ctx inner k s {} s)
  | addClause {ctx inner : Context} (hbefore : Derives I (.clauseRounds levels ctx inner k s p t))
      (hpass : Passes ctx (some (.keyword k)) t) (hlook : Looks t u)
      (hrun : (clauseAt levels inner k p.nodes ⟨u.read.input.last, t.errorCount⟩).run u.read =
        (n, v))
      (hclause : Derives I
        (.clause levels inner {} ⟨u.read.input.last, t.errorCount⟩ u.read n stop v))
      (hinsert : I n p.nodes) :
      Derives I (.clauseRounds levels ctx inner k s ⟨n.insert p.nodes, false⟩ v)
  | skipClause {ctx inner : Context} (hbefore : Derives I (.clauseRounds levels ctx inner k s p t))
      (hpass : Passes ctx (some (.keyword k)) t) (hmem : t.kindAt 1 ∉ ctx.stops)
        (hlook : Looks t u)
      (hskip : (skipUnexpected .unexpectedToken (!p.skipping)).run u.read = ((), v)) :
      Derives I (.clauseRounds levels ctx inner k s { p with skipping := true } v)
  | body (hrounds : Derives I (.rounds levels ctx region s p t))
      (hstop : Stops ctx region.terminator t stop) (hlook : Looks t u) :
      Derives I (.body levels ctx region s p.nodes stop u)
  | holdsBody {ctx inner : Context} (hinside : ctx.Inside k inner)
      (hbody : Derives I (.body levels inner (.upTo ps k) s nodes stop t)) :
      Derives I (.content levels ctx k s nodes stop t)
  | holdsBranches {ctx first second : Context} (hfirst : ctx.Inside k first)
      (hbody : Derives I (.body levels first (.upTo ps k) s nodes (.stopToken (.keyword word)) t))
      (hsecond : ctx.Inside k second)
      (hrun : (branch (bodyAt levels) second k kind
        ⟨t.read.input.last, t.errorCount⟩).run t.read =
        ((n, stop), u))
      (hbranch : Derives I
        (.clause levels second (.upTo ps k) ⟨t.read.input.last, t.errorCount⟩ t.read n stop u))
      (hinsert : I n nodes) : Derives I (.content levels ctx k s (n.insert nodes) stop u)
  | holdsClauses {ctx outer inner : Context} (houter : ctx.Inside k outer)
      (hinside : ctx.Inside k inner)
      (hrounds : Derives I (.clauseRounds levels outer inner k s p t))
      (hstop : Stops outer (some (.keyword k)) t stop) (hlook : Looks t u) :
      Derives I (.content levels ctx k s p.nodes stop u)
  | clause (hheader : Header o s t header)
      (hbody : Derives I (.body levels ctx region t nodes stop u)) (hkind : kind.block? = none)
      (hclose : (closeNode o header kind nodes).run u = (n, v)) :
      Derives I (.clause levels ctx region o s n stop v)
  | leaf (hsteps : Steps statementMessages s t) (hkind : kind.block? = none)
      (hclose : (closeStatement o kind).run t = (n, u)) : Derives I (.statement levels ctx o s n u)
  | block (hheader : Header o s s₁ header) (hbefore : Stays s₁ s₂)
      (hcontent : Derives I (.content levels ctx k s₂ nodes stop s₃))
        (hbehind : Stays s₃ s₄)
      (hend : (closeBlock o header k stop).run s₄ = ((), s₅)) (hafter : Stays s₅ s₆)
      (hkind : kind.block? = some k) (hclose : (closeNode o header kind nodes).run s₆ = (n, t)) :
      Derives I (.statement levels ctx o s n t)

namespace Derives

theorem stops_body (h : Derives I (.body levels ctx region s nodes stop t)) :
    Stops ctx region.terminator t stop := by
  cases h with
  | body _ hstop hlook => exact hstop.looks hlook

theorem stops_clause (h : Derives I (.clause levels ctx region o s n stop t)) :
    Stops ctx region.terminator t stop := by
  cases h with
  | clause _ hbody _ hclose =>
    obtain rfl := (Prod.mk.inj hclose).2
    exact hbody.stops_body

/-- What a block holds stops in a context inside the block. -/
theorem stops_content (h : Derives I (.content levels ctx k s nodes stop t)) :
    ∃ inner, ctx.Inside k inner ∧ Stops inner (some (.keyword k)) t stop := by
  cases h with
  | holdsBody hinside hbody => exact ⟨_, hinside, hbody.stops_body⟩
  | holdsBranches _ _ hsecond _ hbranch => exact ⟨_, hsecond, hbranch.stops_clause⟩
  | holdsClauses houter _ _ hstop hlook => exact ⟨_, houter, hstop.looks hlook⟩

end Derives

/-- Nothing is asked of insertions. -/
abbrev Derivable : Judgment → Prop := Derives fun _ _ => True

/-- What stands directly inside a module. -/
def Parser.Region.members : Region :=
  { productions := Production.members, unexpected := .unexpectedMember }

end FourGL
