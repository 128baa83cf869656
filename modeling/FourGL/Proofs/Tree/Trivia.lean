import FourGL.Proofs.Grammar.ParallelBlocks
import FourGL.Proofs.Token.Spelling
import FourGL.Proofs.Token.Stream
import FourGL.Proofs.Tree.Completeness

/-!
# Trivia

A text that is parsed verbatim is read side by side with the same text without its trivia, and
nothing may differ: the lexemes have the same tokens and the same issues. The trivia itself stands
before the lexemes that parsing has seen, and those are all.
-/

namespace FourGL

open FourGL.Parser FourGL.ParseState

/-- The text is read twice, and nothing differs. -/
def Likeness.sameText (text : String) : Likeness where
  left := text
  right := text
  exact := True
  text := Eq
  start := Eq
  stop := Eq
  text_refl _ := rfl
  text_exact _ h := h
  sameName_eq hx hy := by rw [hx, hy]
  start_lt_iff hp hq := by rw [hp, hq]

namespace Lexeme

/-- Lexemes are alike that differ in the trivia before them only. -/
theorem forall₂_like_ofText (mode mode' : ScanMode) (text : String) :
    List.Forall₂ (Like (.sameText text)) (ofText mode text) (ofText mode' text) := by
  have hscanned : (ofText mode text).map scanned = (ofText mode' text).map scanned :=
    (map_scanned_ofText mode text).trans (map_scanned_ofText mode' text).symm
  rw [← List.forall₂_eq_eq_eq, List.forall₂_map_left_iff,
    List.forall₂_map_right_iff] at hscanned
  refine hscanned.imp fun l m h => ?_
  have htoken : l.token = m.token := congrArg Scanned.token h
  have hissues : l.issues = m.issues := congrArg Scanned.issues h
  constructor
  · rw [htoken]
    exact ⟨fun _ => rfl, rfl, rfl, rfl, rfl, rfl⟩
  · rw [hissues]
    exact List.forall₂_same.mpr fun d _ => ⟨fun _ => rfl, rfl, rfl, rfl, rfl⟩

/-- No trivia is lost where none comes last. -/
theorem flatMap_before_gather {ss : List Scanned} {before : List Token}
    (hlast : ∀ s ∈ ss.getLast?, s.token.kind.isTrivia = false)
    (hbefore : ss = [] → before = [])
    (issues : List Diagnostic) :
    (gather before issues ss).flatMap (·.before) =
      before ++ (ss.map (·.token)).filter (·.kind.isTrivia) := by
  induction ss generalizing before issues with
  | nil => simp [gather, hbefore rfl]
  | cons s ss ih =>
    have htail : ∀ s ∈ ss.getLast?, s.token.kind.isTrivia = false := by
      intro r hr
      exact hlast r (by simp [List.getLast?_cons, Option.mem_def.mp hr])
    rw [gather, List.map_cons]
    split
    next htrivia =>
      have hne : ss = [] → before ++ [s.token] = [] := by
        rintro rfl
        rw [hlast s rfl] at htrivia
        cases htrivia
      rw [ih htail hne, List.filter_cons_of_pos (by exact htrivia), List.append_assoc]
      rfl
    next htrivia =>
      rw [List.flatMap_cons, ih htail (fun _ => rfl), List.filter_cons_of_neg (by exact htrivia)]
      rfl

/-- Before the lexemes of a text stands all trivia that scanning finds. -/
theorem flatMap_before_ofText (mode : ScanMode) (text : String) :
    (ofText mode text).flatMap (·.before) = (tokens mode text).filter (·.kind.isTrivia) :=
  flatMap_before_gather (isTrivia_getLast_scan mode text) (fun _ => rfl) []

end Lexeme

namespace ParseState

/-- Where nothing is left to read, all trivia has been seen. -/
theorem Counted.trivia_eq (h : Counted s) (hrest : s.input.rest = []) :
    s.input.trivia = s.input.stream.flatMap (·.before) := by
  rw [Lookahead.trivia, h.seenLexemes_of_rest hrest]

end ParseState

/-- The trivia of a module is the trivia of its text. -/
theorem trivia_parseModule (text : String) (options : ParseOptions) :
    (parseModule text options).trivia =
      (tokens options.mode text).filter (·.kind.isTrivia) := by
  obtain ⟨s, stop, hmodule, hrun, -⟩ := account_parseModule text options
  obtain ⟨-, hend⟩ := hmodule.stops_body.at_end rfl rfl
  obtain ⟨ts, htokensRead : TokensRead (.ofText options.mode text) ts s⟩ := hmodule.later
  have hrest := (htokensRead.onward (at_ofText _ text)).1.rest_read hend
  calc (parseModule text options).trivia
      = s.read.input.trivia := congrArg (·.input.trivia) hrun
    _ = s.read.input.stream.flatMap (·.before) :=
      ((Counted.ofText _ _).tokensRead htokensRead.read).trivia_eq hrest
    _ = (Lexeme.ofText options.mode text).flatMap (·.before) := by
      rw [htokensRead.read.stream_eq]; rfl
    _ = (tokens options.mode text).filter (·.kind.isTrivia) := Lexeme.flatMap_before_ofText _ _

/-- A text that is parsed verbatim gives the same module and the same diagnostics as without its
trivia, and what is kept besides is its blanks, line breaks and comments, in order. -/
theorem parseModule_verbatim (text : String) (options : ParseOptions) :
    (parseModule text { options with verbatim := true }).module =
        (parseModule text { options with verbatim := false }).module ∧
      (parseModule text { options with verbatim := true }).diagnostics =
        (parseModule text { options with verbatim := false }).diagnostics ∧
      (parseModule text { options with verbatim := true }).trivia =
        (tokens .verbatim text).filter (fun t =>
          t.kind = .whitespace ∨ t.kind = .newLine ∨ t.kind = .comment) := by
  have hlike (options options' : ParseOptions) := like_parseModule (L := .sameText text)
    (Lexeme.forall₂_like_ofText options.mode options'.mode text)
    ⟨fun _ => rfl, rfl, rfl, rfl, rfl, rfl⟩
  obtain ⟨hmodule, hdiagnostics⟩ := hlike { options with verbatim := true }
    { options with verbatim := false } rfl rfl
  refine ⟨hmodule.same trivial, ?_, ?_⟩
  · exact Likeness.same_of_forall₂ (fun _ _ h => h.same) hdiagnostics trivial
  · rw [trivia_parseModule]
    refine List.filter_congr fun t _ => ?_
    cases t.kind <;> simp [Kind.isTrivia]

end FourGL
