import FourGL.Grammar.Parser
import FourGL.Proofs.Token.Issues
import Mathlib.Logic.Relation

/-!
# Steps of parsers

Whatever a parser does comes down to six kinds of steps: it looks ahead, reads a token, reports
something, notes that the limit of nesting was reported, changes the names collected so far, or
counts levels of nesting.
`p.ReportsOnly M` says that every run of `p` consists of such steps and that its reports are
messages of `M`. What every step preserves every such parser preserves.
-/

namespace FourGL

namespace ParseState

/-- One step of a parser that reports only messages of `M`. -/
inductive Step (M : Set Message) (s : ParseState) : ParseState → Prop where
  | look (depth : Nat) : Step M s { s with input := s.input.inspect depth }
  | read : Step M s { s with input := s.input.advance }
  | report {m : Message} (args : List String) (span : Span) : m ∈ M →
      Step M s { s with reports := .of m args (some span) :: s.reports }
  | limit : Step M s { s with limitReported := true }
  | rename (names : Names) : Step M s { s with names }
  | nest (nesting : Nesting) : Step M s { s with nesting }

/-- Any number of steps. -/
def Steps (M : Set Message) : ParseState → ParseState → Prop := Relation.ReflTransGen (Step M)

namespace Steps

theorem single (h : Step M s t) : Steps M s t := Relation.ReflTransGen.single h

/-- Nothing is unsaid: the reports of a state are those of an earlier one and messages of `M`. -/
theorem reports (h : Steps M s t) :
    ∃ new, t.reports = new ++ s.reports ∧ ∀ d ∈ new, d.IsFrom M := by
  induction h with
  | refl => exact ⟨[], rfl, by simp⟩
  | tail _ hst ih =>
    obtain ⟨new, hnew, hmem⟩ := ih
    cases hst with
    | look | read | limit | rename | nest => exact ⟨new, hnew, hmem⟩
    | @report m args span hm =>
      refine ⟨.of m args (some span) :: new, by rw [hnew]; rfl, ?_⟩
      rintro d (_ | ⟨_, hd⟩)
      · exact ⟨m, hm, args, span, rfl⟩
      · exact hmem d hd

end Steps

end ParseState

namespace Parser

open ParseState (Step Steps)

/-- Every run consists of steps that report only messages of `M`. -/
def ReportsOnly (M : Set Message) (p : Parser α) : Prop := ∀ s, Steps M s (p.run s).2

/-! ## Closure -/

theorem reportsOnly_report {m : Message} (hm : m ∈ M) (args : List String) (span : Span) :
    (report m args span).ReportsOnly M := fun _ => .single (.report args span hm)

/-! ## What phrases can say -/

/-- What can be said about names, marks and keywords that have to follow, and about expressions. -/
def phraseMessages : Set Message :=
  {.expected, .expressionExpected, .identifierExpected, .nestingTooDeep}

end Parser

end FourGL
