import FourGL.Proofs.Token.Tiling
import FourGL.Token.Lookahead
import Mathlib.Data.Set.Insert

/-!
# What scanning says

Scanning has four things to say about a text; whichever way it is scanned, everything noticed on the
way is one of them.
-/

namespace FourGL

/-- The messages of scanning. -/
def scanMessages : Set Message :=
  {.unterminatedString, .unterminatedComment, .invalidCharacter, .malformedNumber}

/-- The diagnostic says a message of a set about a stretch of text. -/
def Diagnostic.IsFrom (M : Set Message) (d : Diagnostic) : Prop :=
  ∃ m ∈ M, ∃ args span, d = .of m args (some span)

open Diagnostic (IsFrom)

namespace Element

theorem fault_of_trivia? {c : Char} {cs : List Char} {e : Element} (h : trivia? c cs = some e)
    {m : Message} (hm : e.fault = some m) : m ∈ scanMessages := by
  cases triviaOf_of_trivia? h with
  | lineBreak | blanks | lineComment => cases hm
  | blockComment =>
    unfold blockComment at hm
    dsimp only at hm
    split at hm
    · cases hm
    · cases hm; simp [scanMessages]

theorem fault_numberOf {mantissa : Nat} {decimalPoint : Bool} {cs : List Char} {m : Message}
    (hm : (numberOf mantissa decimalPoint cs).fault = some m) : m ∈ scanMessages := by
  unfold numberOf at hm
  split at hm
  · cases hm
  · dsimp only at hm
    split at hm
    · cases hm; simp [scanMessages]
    · cases hm

theorem fault_stringLiteral {quote : Char} {cs : List Char} {m : Message}
    (hm : (stringLiteral quote cs).fault = some m) : m ∈ scanMessages := by
  unfold stringLiteral at hm
  dsimp only at hm
  split at hm
  · cases hm
  · cases hm; simp [scanMessages]

theorem fault_significant {c : Char} {cs : List Char} {m : Message} :
    (significant c cs).fault = some m → m ∈ scanMessages := by
  refine significant_of_sorts (P := fun e => e.fault = some m → m ∈ scanMessages)
    (fun _ _ => fault_numberOf) (fun _ _ => nofun) fault_stringLiteral nofun fun hm => ?_
  cases hm
  simp [scanMessages]

theorem isFrom_issues {e : Element} {c : Char} {cs : List Char}
    (h : ∀ m, e.fault = some m → m ∈ scanMessages) (pos : Nat) :
    ∀ d ∈ e.issues pos c cs, d.IsFrom scanMessages := by
  unfold issues
  split
  · simp
  next m hm =>
    intro d hd
    obtain rfl := List.mem_singleton.mp hd
    exact ⟨m, h m hm, _, _, rfl⟩

end Element

namespace Scanner

theorem isFrom_issues_skipTrivia {pos : Nat} {cs : List Char} {sawBreak : Bool}
    {issues : List Diagnostic} (h : ∀ d ∈ issues, d.IsFrom scanMessages) :
    ∀ d ∈ (skipTrivia pos cs sawBreak issues).issues, d.IsFrom scanMessages := by
  fun_induction skipTrivia pos cs sawBreak issues with
  | case1 => exact h
  | case2 => exact h
  | case3 pos sawBreak issues c cs e he ih =>
    refine ih fun d hd => ?_
    obtain hd | hd := List.mem_append.mp hd
    · exact h d hd
    · exact Element.isFrom_issues (fun _ => Element.fault_of_trivia? he) pos d hd

theorem isFrom_issues_next (s : Scanner) : ∀ d ∈ s.next.1.issues, d.IsFrom scanMessages := by
  unfold next
  split
  · have hskip : ∀ d ∈ (skipTrivia s.pos s.rest false []).issues, d.IsFrom scanMessages :=
      isFrom_issues_skipTrivia (by simp)
    dsimp only
    split
    · exact hskip
    · intro d hd
      obtain hd | hd := List.mem_append.mp hd
      · exact hskip d hd
      · exact Element.isFrom_issues (fun _ => Element.fault_significant) _ d hd
  · split
    · exact fun d hd => absurd hd List.not_mem_nil
    · split
      next he => exact Element.isFrom_issues (fun _ => Element.fault_of_trivia? he) _
      next => exact Element.isFrom_issues (fun _ => Element.fault_significant) _

theorem isFrom_issues_all (s : Scanner) :
    ∀ x ∈ s.all, ∀ d ∈ x.issues, d.IsFrom scanMessages := by
  fun_induction all s with
  | case1 s found behind h hkind =>
    intro x hx
    obtain rfl := List.mem_singleton.mp hx
    simpa [h] using s.isFrom_issues_next
  | case2 s found behind h hkind ih =>
    intro x hx
    obtain rfl | hx := List.mem_cons.mp hx
    · simpa [h] using s.isFrom_issues_next
    · exact ih x hx

end Scanner

namespace Lexeme

theorem mem_issues_gather {before : List Token} {issues : List Diagnostic} {ss : List Scanned}
    {l : Lexeme} (hl : l ∈ gather before issues ss) {d : Diagnostic} (hd : d ∈ l.issues) :
    d ∈ issues ∨ ∃ s ∈ ss, d ∈ s.issues := by
  induction ss generalizing before issues with
  | nil => cases hl
  | cons s ss ih =>
    have hcons {issues' : List Diagnostic} (h : d ∈ issues' ∨ ∃ s' ∈ ss, d ∈ s'.issues)
        (hsub : ∀ d ∈ issues', d ∈ issues ∨ d ∈ s.issues) :
        d ∈ issues ∨ ∃ s' ∈ s :: ss, d ∈ s'.issues := by
      obtain h | ⟨s', hs', h⟩ := h
      · exact (hsub d h).imp id fun h => ⟨s, List.mem_cons_self .., h⟩
      · exact .inr ⟨s', List.mem_cons_of_mem _ hs', h⟩
    rw [gather] at hl
    split at hl
    · exact hcons (ih hl) fun d => List.mem_append.mp
    · obtain rfl | hl := List.mem_cons.mp hl
      · exact hcons (.inl hd) fun d => List.mem_append.mp
      · exact hcons (ih hl) (by simp)

/-- Whatever was noticed while a text was scanned is a message of scanning. -/
theorem isFrom_issues_ofText {mode : ScanMode} {text : String} {l : Lexeme}
    (hl : l ∈ ofText mode text) : ∀ d ∈ l.issues, d.IsFrom scanMessages := by
  intro d hd
  obtain hd | ⟨s, hs, hd⟩ := mem_issues_gather hl hd
  · cases hd
  · exact Scanner.isFrom_issues_all _ s hs d hd

end Lexeme

end FourGL
