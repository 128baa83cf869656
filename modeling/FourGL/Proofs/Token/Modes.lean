import FourGL.Proofs.Token.Tiling
import FourGL.Token.Lookahead

/-!
# The two ways to scan

A default scanner passes over trivia with one function, a verbatim scanner hands it out piece by
piece and carries the line breaks in its state. `Lexeme.scanned_gather_all` ties the two together:
what a verbatim scanner has handed out, gathered around the tokens that are not trivia, is what a
default scanner finds, with the same flags and the same issues for each token. So the lexemes of a
text have the same tokens in both modes (`Lexeme.map_token_ofText`).
-/

namespace FourGL

/-! ## Steps of both scanners -/

namespace Scanner

/-- What a default scanner finds behind the trivia it has passed over. -/
def resume (t : Skipped) : List Scanned :=
  match t.rest with
  | [] => [finish t.pos t.sawBreak t.issues]
  | c :: cs =>
    let e := Element.significant c cs
    ⟨e.token t.sawBreak t.pos c cs, t.issues ++ e.issues t.pos c cs⟩ ::
      all ⟨.default, t.pos + (e.taken c cs).length, e.behind cs, false⟩

theorem all_default (pos : Nat) (cs : List Char) :
    all ⟨.default, pos, cs, false⟩ = resume (skipTrivia pos cs false []) := by
  rw [all_eq]
  cases hrest : (skipTrivia pos cs false []).rest with
  | nil =>
    simp only [next, resume, hrest]
    rw [if_pos (by rfl)]
  | cons c ds =>
    have hkind := (Element.isSignificant_significant c ds).2
    simp only [next, resume, hrest]
    rw [if_neg (by exact hkind)]

theorem all_verbatim_trivia {c : Char} {cs : List Char} {e : Element}
    (h : Element.trivia? c cs = some e) (pos : Nat) (pending : Bool) :
    all ⟨.verbatim, pos, c :: cs, pending⟩ =
      ⟨e.token false pos c cs, e.issues pos c cs⟩ ::
        all ⟨.verbatim, pos + (e.taken c cs).length, e.behind cs,
          pending || e.hasLineBreak c cs⟩ := by
  have hkind := Element.ne_endOfFile_of_trivia? h
  rw [all_eq]
  simp only [next, h]
  rw [if_neg (by exact hkind)]

theorem all_verbatim_significant {c : Char} {cs : List Char} (h : Element.trivia? c cs = none)
    (pos : Nat) (pending : Bool) :
    all ⟨.verbatim, pos, c :: cs, pending⟩ =
      let e := Element.significant c cs
      ⟨e.token pending pos c cs, e.issues pos c cs⟩ ::
        all ⟨.verbatim, pos + (e.taken c cs).length, e.behind cs, false⟩ := by
  have hkind := (Element.isSignificant_significant c cs).2
  rw [all_eq]
  simp only [next, h]
  rw [if_neg (by exact hkind)]

end Scanner

/-! ## Gathering -/

namespace Lexeme

open Scanner

/-- The lexeme without the trivia before it. -/
def scanned (l : Lexeme) : Scanned := ⟨l.token, l.issues⟩

theorem map_token_gather (before : List Token) (issues : List Diagnostic) (ss : List Scanned) :
    (gather before issues ss).map (·.token) =
      (ss.map (·.token)).filter fun t => !t.kind.isTrivia := by
  induction ss generalizing before issues with
  | nil => rfl
  | cons s ss ih =>
    unfold gather
    split
    next h => simpa [h] using ih ..
    next h => simpa [h] using ih ..

/-- No issue is lost where trivia does not come last. -/
theorem flatMap_issues_gather {ss : List Scanned}
    (h : ∃ s, ss.getLast? = some s ∧ s.token.kind.isTrivia = false)
    (before : List Token) (issues : List Diagnostic) :
    (gather before issues ss).flatMap (·.issues) = issues ++ ss.flatMap (·.issues) := by
  induction ss generalizing before issues with
  | nil => obtain ⟨s, hs, -⟩ := h; cases hs
  | cons s ss ih =>
    cases ss with
    | nil =>
      have hkind : s.token.kind.isTrivia = false := by simpa using h
      simp [gather, hkind]
    | cons r rs =>
      have ih := ih (by simpa using h)
      rw [gather]
      split
      · rw [ih]; simp
      · rw [List.flatMap_cons, ih]; simp

/-- A verbatim scanner from where a default scanner has noted `sawBreak` and `issues` on. -/
theorem scanned_gather_skipTrivia (pos : Nat) (cs : List Char) (sawBreak : Bool)
    (issues : List Diagnostic) (before : List Token)
    (ih : ∀ pos ds, ds.length < cs.length →
      (gather [] [] (all ⟨.verbatim, pos, ds, false⟩)).map scanned =
      all ⟨.default, pos, ds, false⟩) :
    (gather before issues (all ⟨.verbatim, pos, cs, sawBreak⟩)).map scanned =
      resume (skipTrivia pos cs sawBreak issues) := by
  -- What was noted so far stands in the pending break of the one scanner and in the arguments of
  -- the other; `ih` is for the text behind the next token that is no trivia.
  fun_induction skipTrivia pos cs sawBreak issues generalizing before with
  | case1 pos sawBreak issues =>
    simp [all_verbatim_nil, gather, scanned, resume, finish, Token.endOfFile, Kind.isTrivia]
  | case2 pos sawBreak issues c cs h =>
    have hkind := (Element.isSignificant_significant c cs).1
    rw [all_verbatim_significant h, gather, if_neg (by simp [Element.token, hkind]), List.map_cons,
      ih _ _ (Nat.lt_succ_of_le (Element.length_behind_le _ cs))]
    rfl
  | case3 pos sawBreak issues c cs e h ihSkip =>
    rw [all_verbatim_trivia h, gather, if_pos (by exact Element.isTrivia_of_trivia? h)]
    refine ihSkip _ fun pos ds hlt => ih pos ds ?_
    exact Nat.lt_trans hlt (Nat.lt_succ_of_le (Element.length_behind_le _ cs))

/-- Gathered around the other tokens, what a verbatim scanner hands out is what a default scanner
finds. -/
theorem scanned_gather_all (pos : Nat) (cs : List Char) :
    (gather [] [] (all ⟨.verbatim, pos, cs, false⟩)).map scanned =
    all ⟨.default, pos, cs, false⟩ := by
  rw [all_default]
  exact scanned_gather_skipTrivia pos cs false [] [] fun pos ds _ => scanned_gather_all pos ds
termination_by cs.length

theorem scanned_ofText_verbatim (text : String) :
    (ofText .verbatim text).map scanned = scan .default text :=
  scanned_gather_all 0 text.toList

/-! ## Lexemes in both modes -/

theorem isTrivia_of_mem_tokens_default {text : String} {t : Token}
    (ht : t ∈ tokens .default text) :
    t.kind.isTrivia = false := by
  rw [tokens, ← scanned_ofText_verbatim, List.map_map] at ht
  have ht : t ∈ (ofText .verbatim text).map (·.token) := ht
  rw [ofText, map_token_gather, List.mem_filter] at ht
  simpa using ht.2

/-- The tokens of the lexemes of a text do not depend on how it is scanned. -/
theorem map_token_ofText (mode : ScanMode) (text : String) :
    (ofText mode text).map (·.token) = tokens .default text := by
  cases mode with
  | default =>
    rw [ofText, map_token_gather]
    exact List.filter_eq_self.mpr fun t ht => by simp [isTrivia_of_mem_tokens_default ht]
  | verbatim =>
    rw [tokens, ← scanned_ofText_verbatim, List.map_map]
    rfl

end Lexeme

/-- Scanning a text by default yields the tokens of scanning it verbatim without the blanks, line
breaks and comments, flags included, and says the same about the text. -/
theorem tokens_default_eq_filter (text : String) :
    tokens .default text =
        (tokens .verbatim text).filter (fun t =>
          t.kind ≠ .whitespace ∧ t.kind ≠ .newLine ∧ t.kind ≠ .comment) ∧
      scanIssues .default text = scanIssues .verbatim text := by
  constructor
  · rw [← Lexeme.map_token_ofText .verbatim, Lexeme.ofText, Lexeme.map_token_gather]
    refine List.filter_congr fun t _ => ?_
    cases t.kind <;> simp [Kind.isTrivia]
  · obtain ⟨flags, hlast⟩ := (tiles_tokens_verbatim text).getLast?
    obtain ⟨s, hs, htoken⟩ :=
      Option.map_eq_some_iff.mp ((List.getLast?_map ..).symm.trans hlast)
    have hissues := Lexeme.flatMap_issues_gather ⟨s, hs, by rw [htoken]; rfl⟩ [] []
    rw [scanIssues, ← Lexeme.scanned_ofText_verbatim, List.flatMap_map]
    exact hissues

end FourGL
