import FourGL.Token.Scanner

/-!
# Tokens on demand

A queue scans no further than it is asked to look. The tokens that have been scanned and not yet
read wait in a buffer; trivia never enters it. With each token wait the errors noticed while it and
the trivia before it were scanned, so that they count only once the token is read.
-/

namespace FourGL

/-- A token that was scanned ahead, with the number of errors noticed in it and in the trivia before
it. -/
structure Buffered where
  token : Token
  errors : Nat

structure TokenQueue where
  session : ScanSession
  /-- The tokens scanned ahead, the next one first. -/
  buffer : List Buffered := []
  /-- Errors noticed in trivia that no other token has followed yet. -/
  pendingErrors : Nat := 0
  /-- Errors noticed in what has been read. -/
  consumedErrors : Nat := 0
  /-- The trivia scanned so far, in source order. -/
  trivia : List Token := []
  /-- The token read last. -/
  last : Token := .endOfFile 0
  /-- How many tokens have been read; ends of file do not count. -/
  consumed : Nat := 0

namespace TokenQueue

def ofText (mode : ScanMode) (text : String) : TokenQueue where
  session := .ofText mode text

/-- Scans one more token. Trivia is put aside and its errors wait for the next token. -/
def pull (q : TokenQueue) : TokenQueue :=
  let session := q.session.scan
  let errors := q.pendingErrors + (session.errors - q.session.errors)
  if session.last.kind.isTrivia then
    { q with session, pendingErrors := errors, trivia := q.trivia ++ [session.last] }
  else
    { q with session, pendingErrors := 0, buffer := q.buffer ++ [⟨session.last, errors⟩] }

/-- Scanning on fills the buffer or leaves less of the text. -/
theorem pull_lt (q : TokenQueue) :
    q.buffer.length < q.pull.buffer.length ∨
      q.pull.buffer.length = q.buffer.length ∧
        q.pull.session.scanner.rest.length < q.session.scanner.rest.length := by
  unfold pull
  dsimp only
  split
  next htrivia =>
    refine .inr ⟨rfl, Scanner.length_rest_next_lt _ fun hend => ?_⟩
    have hkind : q.session.scan.last.kind = .endOfFile := hend
    rw [hkind] at htrivia
    cases htrivia
  next => exact .inl (by simp)

/-- Scans until so many tokens wait. -/
def fill (q : TokenQueue) (depth : Nat) : TokenQueue :=
  if q.buffer.length < depth then q.pull.fill depth else q
termination_by (depth - q.buffer.length, q.session.scanner.rest.length)
decreasing_by
  obtain h | ⟨hlength, h⟩ := q.pull_lt
  · exact .left _ _ (by omega)
  · rw [hlength]
    exact .right _ h

theorem le_length_fill (q : TokenQueue) (depth : Nat) : depth ≤ (q.fill depth).buffer.length := by
  fun_induction fill q depth with
  | case1 q _ ih => exact ih
  | case2 q h => exact Nat.le_of_not_lt h

theorem lt_length_fill (q : TokenQueue) (depth : Nat) :
    max depth 1 - 1 < (q.fill (max depth 1)).buffer.length := by
  have := q.le_length_fill (max depth 1)
  omega

/-- The token at `depth`, where the next one has depth 1 and depth 0 counts as 1; the buffer reaches
that far afterwards. -/
def peekAt (q : TokenQueue) (depth : Nat) : Token × TokenQueue :=
  let filled := q.fill (max depth 1)
  have hlength : max depth 1 - 1 < filled.buffer.length := q.lt_length_fill depth
  (filled.buffer[max depth 1 - 1].token, filled)

/-- Whether the token at `depth` is of a kind. -/
def isAt (q : TokenQueue) (k : Kind) (depth : Nat) : Bool × TokenQueue :=
  let (t, q) := q.peekAt depth
  (t.kind == k, q)

/-- Whether the next token is of a kind. -/
def isNext (q : TokenQueue) (k : Kind) : Bool × TokenQueue := q.isAt k 1

/-- Whether the text ends here. -/
def atEnd (q : TokenQueue) : Bool × TokenQueue := q.isNext .endOfFile

/-- Takes the next token out of the buffer. -/
def pop (q : TokenQueue) : TokenQueue :=
  match q.buffer with
  | [] => q
  | b :: bs =>
    { q with
      buffer := bs
      consumed := if b.token.kind = .endOfFile then q.consumed else q.consumed + 1
      consumedErrors := q.consumedErrors + b.errors
      last := b.token }

/-- Reads the next token and answers its kind. -/
def next (q : TokenQueue) : Kind × TokenQueue :=
  let q := (q.fill 1).pop
  (q.last.kind, q)

end TokenQueue

end FourGL
