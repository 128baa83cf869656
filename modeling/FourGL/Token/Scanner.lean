import FourGL.Token.Element

/-!
# Scanning

A scanner reads a text token by token. By default it passes over trivia and only remembers whether
it held a line break; a verbatim scanner hands trivia out as tokens of their own.
-/

namespace FourGL

inductive ScanMode where
  | default
  | verbatim
deriving DecidableEq

/-- A token and what was noticed while it was read. -/
structure Scanned where
  token : Token
  issues : List Diagnostic

/-- A scanner between two tokens. -/
structure Scanner where
  mode : ScanMode
  /-- The offset of the rest of the text. -/
  pos : Nat
  rest : List Char
  /-- A verbatim scanner has handed out a line break since the last token that is not trivia. -/
  breakPending : Bool := false

namespace Scanner

def ofText (mode : ScanMode) (text : String) : Scanner := { mode, pos := 0, rest := text.toList }

/-- What a default scanner has passed over: where it arrived, whether there was a line break. -/
structure Skipped where
  pos : Nat
  rest : List Char
  sawBreak : Bool
  issues : List Diagnostic

/-- Passes over trivia. -/
def skipTrivia (pos : Nat) (cs : List Char) (sawBreak : Bool) (issues : List Diagnostic) :
    Skipped :=
  match cs with
  | [] => ⟨pos, [], sawBreak, issues⟩
  | c :: cs =>
    match Element.trivia? c cs with
    | none => ⟨pos, c :: cs, sawBreak, issues⟩
    | some e =>
      skipTrivia (pos + (e.taken c cs).length) (e.behind cs) (sawBreak || e.hasLineBreak c cs)
        (issues ++ e.issues pos c cs)
termination_by cs.length
decreasing_by exact Nat.lt_succ_of_le (e.length_behind_le cs)

theorem length_rest_skipTrivia_le (pos : Nat) (cs : List Char) (sawBreak : Bool)
    (issues : List Diagnostic) : (skipTrivia pos cs sawBreak issues).rest.length ≤ cs.length := by
  fun_induction skipTrivia pos cs sawBreak issues with
  | case1 => exact Nat.le_refl _
  | case2 => exact Nat.le_refl _
  | case3 pos sawBreak issues c cs e _ ih =>
    exact Nat.le_trans ih (Nat.le_succ_of_le (e.length_behind_le cs))

/-- The token at the end of the text. -/
def finish (pos : Nat) (lineBreakBefore : Bool) (issues : List Diagnostic) : Scanned where
  token := { Token.endOfFile pos with flags := { lineBreakBefore } }
  issues

/-- The next token and the scanner behind it. At the end of the text that is the end of file, again
and again. -/
def next (s : Scanner) : Scanned × Scanner :=
  match s.mode with
  | .default =>
    let t := skipTrivia s.pos s.rest false []
    match t.rest with
    | [] => (finish t.pos t.sawBreak t.issues, { s with pos := t.pos, rest := [] })
    | c :: cs =>
      let e := Element.significant c cs
      (⟨e.token t.sawBreak t.pos c cs, t.issues ++ e.issues t.pos c cs⟩,
        { s with pos := t.pos + (e.taken c cs).length, rest := e.behind cs })
  | .verbatim =>
    match s.rest with
    | [] => (finish s.pos s.breakPending [], { s with breakPending := false })
    | c :: cs =>
      match Element.trivia? c cs with
      | some e =>
        (⟨e.token false s.pos c cs, e.issues s.pos c cs⟩,
          { s with
            pos := s.pos + (e.taken c cs).length
            rest := e.behind cs
            breakPending := s.breakPending || e.hasLineBreak c cs })
      | none =>
        let e := Element.significant c cs
        (⟨e.token s.breakPending s.pos c cs, e.issues s.pos c cs⟩,
          { s with
            pos := s.pos + (e.taken c cs).length
            rest := e.behind cs
            breakPending := false })

/-- Each token but the end of file takes something from the text. -/
theorem length_rest_next_lt (s : Scanner) (h : s.next.1.token.kind ≠ .endOfFile) :
    s.next.2.rest.length < s.rest.length := by
  revert h
  unfold next
  split
  · dsimp only
    split
    next => intro h; exact absurd rfl h
    next c cs hc =>
      intro _
      have hle := length_rest_skipTrivia_le s.pos s.rest false []
      rw [hc] at hle
      exact Nat.lt_of_lt_of_le (Nat.lt_succ_of_le (Element.length_behind_le _ cs)) hle
  · split
    next => intro h; exact absurd rfl h
    next c cs hc =>
      rw [hc]
      split <;> exact fun _ => Nat.lt_succ_of_le (Element.length_behind_le _ cs)

/-- All tokens up to the end of file. -/
def all (s : Scanner) : List Scanned :=
  match _h : s.next with
  | (found, behind) => if found.token.kind = .endOfFile then [found] else found :: behind.all
termination_by s.rest.length
decreasing_by
  have hlt := s.length_rest_next_lt
  rw [‹s.next = _›] at hlt
  exact hlt ‹_›

end Scanner

/-- Everything that scanning a text yields, token by token. -/
def scan (mode : ScanMode) (text : String) : List Scanned := (Scanner.ofText mode text).all

/-- The tokens of a text, the end of file last. -/
def tokens (mode : ScanMode) (text : String) : List Token := (scan mode text).map (·.token)

/-- What scanning a text has to say about it. -/
def scanIssues (mode : ScanMode) (text : String) : List Diagnostic :=
  (scan mode text).flatMap (·.issues)

/-! ## Scanning on demand -/

/-- A scanner together with the token it read last and the issues not yet handed over. -/
structure ScanSession where
  scanner : Scanner
  last : Token := { kind := .unknown, start := 0, stop := 0 }
  issues : List Diagnostic := []
  /-- Errors noticed so far, those handed over included. -/
  errors : Nat := 0

namespace ScanSession

def ofText (mode : ScanMode) (text : String) : ScanSession where
  scanner := .ofText mode text

/-- Reads one more token. -/
def scan (s : ScanSession) : ScanSession :=
  let (found, scanner) := s.scanner.next
  { scanner
    last := found.token
    issues := s.issues ++ found.issues
    errors := s.errors + Diagnostic.errorCount found.issues }

/-- Hands over the issues noticed since the last time. -/
def takeIssues (s : ScanSession) : List Diagnostic × ScanSession :=
  (s.issues, { s with issues := [] })

end ScanSession

end FourGL
