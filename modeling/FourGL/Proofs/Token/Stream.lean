import FourGL.Proofs.Token.Modes

/-!
# Reading the stream

A `Lookahead` is a place in one stream that never ends: the tokens of the text that are not trivia,
and ends of file behind them. Whatever is asked of it, it answers as this stream does at the place
that the tokens read so far lead to, and what it has counted depends on that place only
(`Lookahead.StandsAt.behind`).
-/

namespace FourGL

/-! ## The stream -/

/-- The tokens of a text that are not trivia, and ends of file without end behind them. -/
def streamToken (mode : ScanMode) (text : String) (i : Nat) : Token :=
  ((tokens mode text).filter fun t => !t.kind.isTrivia)[i]?.getD (.endOfFile text.length)

/-- What was scanned up to the `n`-th token that is not trivia, with the trivia before it. -/
def Scanned.upTo : Nat → List Scanned → List Scanned
  | 0, _ | _ + 1, [] => []
  | n + 1, s :: ss => s :: upTo (if s.token.kind.isTrivia then n + 1 else n) ss

/-- The errors noticed in the first `n` tokens of the stream and in the trivia before each of
them. -/
def streamErrors (mode : ScanMode) (text : String) (n : Nat) : Nat :=
  Diagnostic.errorCount ((Scanned.upTo n (scan mode text)).flatMap (·.issues))

namespace Lexeme

/-- What was noticed in the first lexemes is what was noticed up to their tokens. -/
theorem flatMap_issues_take_gather {ss : List Scanned} {issues : List Diagnostic}
    (hlast : ∀ s ∈ ss.getLast?, s.token.kind.isTrivia = false)
    (hissues : ss = [] → issues = [])
    (before : List Token) (n : Nat) :
    ((gather before issues ss).take (n + 1)).flatMap (·.issues) =
      issues ++ (Scanned.upTo (n + 1) ss).flatMap (·.issues) := by
  induction ss generalizing before issues n with
  | nil => simp [gather, Scanned.upTo, hissues rfl]
  | cons s ss ih =>
    have htail : ∀ s ∈ ss.getLast?, s.token.kind.isTrivia = false := by
      intro r hr
      exact hlast r (by simp [List.getLast?_cons, Option.mem_def.mp hr])
    rw [gather, Scanned.upTo]
    split
    next htrivia =>
      -- Trivia does not come last, so what waits here has a token to go to.
      have hne : ss = [] → issues ++ s.issues = [] := by
        rintro rfl
        rw [hlast s rfl] at htrivia
        cases htrivia
      rw [ih htail hne, List.flatMap_cons, List.append_assoc]
    next =>
      cases n with
      | zero => simp [Scanned.upTo]
      | succ n =>
        rw [List.take_succ_cons, List.flatMap_cons, ih htail (fun _ => rfl), List.flatMap_cons,
          List.nil_append, List.append_assoc]

theorem getElem?_ofText (mode : ScanMode) (text : String) (i : Nat) :
    ((ofText mode text)[i]?.map (·.token)).getD (.endOfFile text.length) =
      streamToken mode text i := by
  rw [streamToken, tokens, ← map_token_gather [] [], ← List.getElem?_map]
  rfl

/-- Trivia does not come last. -/
theorem isTrivia_getLast_scan (mode : ScanMode) (text : String) :
    ∀ s ∈ (scan mode text).getLast?, s.token.kind.isTrivia = false := by
  intro s hs
  cases mode with
  | default =>
    exact isTrivia_of_mem_tokens_default (List.mem_map_of_mem (List.mem_of_getLast? hs))
  | verbatim =>
    obtain ⟨flags, hlast⟩ := (tiles_tokens_verbatim text).getLast?
    rw [tokens, List.getLast?_map, Option.mem_def.mp hs] at hlast
    have htoken : s.token = _ := Option.some.inj hlast
    rw [htoken]
    rfl

theorem errorCount_take_ofText (mode : ScanMode) (text : String) (n : Nat) :
    Diagnostic.errorCount (((ofText mode text).take n).flatMap (·.issues)) =
      streamErrors mode text n := by
  cases n with
  | zero => simp [streamErrors, Scanned.upTo]
  | succ n =>
    have hissues := flatMap_issues_take_gather (isTrivia_getLast_scan mode text) (fun _ => rfl) [] n
    rw [ofText, hissues]
    rfl

end Lexeme

/-! ## Asking and reading -/

namespace Lookahead

/-- What can be asked of a place in the stream, or be done there. -/
inductive Request where
  /-- Which token stands at a depth. -/
  | token (depth : Nat)
  /-- Whether the next token is of a kind. -/
  | isNext (k : Kind)
  /-- Whether the token at a depth is of a kind. -/
  | isAt (k : Kind) (depth : Nat)
  /-- Whether the text ends here. -/
  | atEnd
  /-- Read the next token. -/
  | read

inductive Answer where
  | token (t : Token)
  | truth (holds : Bool)
  /-- The kind of the token that was read. -/
  | kind (k : Kind)

/-- The answer to a request and the place behind it. -/
def serve (q : Lookahead) : Request → Answer × Lookahead
  | .token depth => (.token (q.tokenAt depth), q.inspect depth)
  | .isNext k => (.truth ((q.tokenAt 1).kind == k), q.inspect 1)
  | .isAt k depth => (.truth ((q.tokenAt depth).kind == k), q.inspect depth)
  | .atEnd => (.truth ((q.tokenAt 1).kind == .endOfFile), q.inspect 1)
  | .read => (.kind q.advance.last.kind, q.advance)

/-- The place behind requests. -/
def behind (q : Lookahead) (requests : List Request) : Lookahead :=
  requests.foldl (fun q r => (q.serve r).2) q

/-- Whether a request reads a token. -/
def Request.reads : Request → Bool
  | .read => true
  | _ => false

/-- What the stream answers at the place behind `i` tokens. -/
def streamAnswer (mode : ScanMode) (text : String) (i : Nat) : Request → Answer
  | .token depth => .token (streamToken mode text (i + max depth 1 - 1))
  | .isNext k => .truth ((streamToken mode text i).kind == k)
  | .isAt k depth => .truth ((streamToken mode text (i + max depth 1 - 1)).kind == k)
  | .atEnd => .truth ((streamToken mode text i).kind == .endOfFile)
  | .read => .kind (streamToken mode text i).kind

/-- The place behind the first `i` tokens of the stream, with what has been counted in them. -/
structure StandsAt (mode : ScanMode) (text : String) (q : Lookahead) (i : Nat) : Prop where
  length_eq : q.length = text.length
  rest_eq : q.rest = (Lexeme.ofText mode text).drop i
  last_eq : q.last = if i = 0 then .endOfFile 0 else streamToken mode text (i - 1)
  consumed_eq : q.consumed =
    (List.range i).countP fun j => (streamToken mode text j).kind ≠ .endOfFile
  errors_eq : q.errors = streamErrors mode text i

namespace StandsAt

theorem ofText (mode : ScanMode) (text : String) : StandsAt mode text (.ofText mode text) 0 :=
  ⟨rfl, rfl, rfl, rfl, (Lexeme.errorCount_take_ofText mode text 0)⟩

variable {mode : ScanMode} {text : String} {q : Lookahead} {i : Nat} (h : StandsAt mode text q i)
include h

theorem tokenAt (depth : Nat) : q.tokenAt depth = streamToken mode text (i + max depth 1 - 1) := by
  have hindex : i + max depth 1 - 1 = i + (depth - 1) := by omega
  rw [Lookahead.tokenAt, h.rest_eq, h.length_eq, List.getElem?_drop, hindex,
    ← Lexeme.getElem?_ofText]
  cases (Lexeme.ofText mode text)[i + (depth - 1)]? <;> rfl

theorem inspect (depth : Nat) : StandsAt mode text (q.inspect depth) i :=
  ⟨h.length_eq, h.rest_eq, h.last_eq, h.consumed_eq, h.errors_eq⟩

theorem advance : StandsAt mode text q.advance (i + 1) := by
  have htoken := Lexeme.getElem?_ofText mode text i
  have herrors := Lexeme.errorCount_take_ofText mode text (i + 1)
  rw [List.take_add_one, List.flatMap_append, Diagnostic.errorCount, List.countP_append] at herrors
  change Diagnostic.errorCount _ + Diagnostic.errorCount _ = _ at herrors
  rw [Lexeme.errorCount_take_ofText, ← h.errors_eq] at herrors
  have hrest : q.rest =
      (Lexeme.ofText mode text)[i]?.toList ++ (Lexeme.ofText mode text).drop (i + 1) := by
    rw [h.rest_eq, List.drop_eq_getElem?_toList_append]
  unfold Lookahead.advance
  cases hl : (Lexeme.ofText mode text)[i]? with
  | none =>
    -- Behind the end of file nothing changes but the token read last.
    rw [hl] at htoken herrors hrest
    have hkind : (streamToken mode text i).kind = .endOfFile := by rw [← htoken]; rfl
    have hnil : (Lexeme.ofText mode text).drop (i + 1) = [] :=
      List.drop_eq_nil_of_le (Nat.le_succ_of_le (List.getElem?_eq_none_iff.mp hl))
    rw [hnil] at hrest
    rw [hrest]
    refine ⟨h.length_eq, hnil.symm, ?_, ?_, herrors⟩
    · rw [if_neg (Nat.succ_ne_zero i), Nat.add_sub_cancel, ← htoken, h.length_eq]
      rfl
    · rw [List.range_succ, List.countP_append, List.countP_singleton, if_neg (by simp [hkind])]
      exact h.consumed_eq
  | some l =>
    rw [hl] at htoken herrors hrest
    have htoken : l.token = streamToken mode text i := htoken
    rw [hrest]
    refine ⟨h.length_eq, rfl, ?_, ?_, ?_⟩
    · rw [if_neg (Nat.succ_ne_zero i), Nat.add_sub_cancel]
      exact htoken
    · rw [List.range_succ, List.countP_append,
        List.countP_singleton, ← h.consumed_eq, ← htoken]
      change (if l.token.kind = .endOfFile then q.consumed else q.consumed + 1) = _
      by_cases hkind : l.token.kind = .endOfFile <;> simp [hkind]
    · simpa using herrors

theorem serve (r : Request) : StandsAt mode text (q.serve r).2 (if r.reads then i + 1 else i) := by
  cases r with
  | token depth => exact h.inspect depth
  | isNext => exact h.inspect 1
  | isAt _ depth => exact h.inspect depth
  | atEnd => exact h.inspect 1
  | read => exact h.advance

theorem answer (r : Request) : (q.serve r).1 = streamAnswer mode text i r := by
  have hnext : q.tokenAt 1 = streamToken mode text i := h.tokenAt 1
  cases r with
  | token depth => exact congrArg Answer.token (h.tokenAt depth)
  | isNext k => exact congrArg (fun t : Token => Answer.truth (t.kind == k)) hnext
  | isAt k depth => exact congrArg (fun t : Token => Answer.truth (t.kind == k)) (h.tokenAt depth)
  | atEnd => exact congrArg (fun t : Token => Answer.truth (t.kind == .endOfFile)) hnext
  | read =>
    have hlast := h.advance.last_eq
    rw [if_neg (Nat.succ_ne_zero i), Nat.add_sub_cancel] at hlast
    exact congrArg (fun t : Token => Answer.kind t.kind) hlast

/-- Whatever is asked on the way, only what is read leads further. -/
theorem behind (requests : List Request) :
    StandsAt mode text (q.behind requests) (i + requests.countP (·.reads)) := by
  induction requests generalizing q i with
  | nil => exact h
  | cons r rs ih =>
    have hi : i + (r :: rs).countP (·.reads) =
        (if r.reads then i + 1 else i) + rs.countP (·.reads) := by
      rw [List.countP_cons]
      split <;> omega
    rw [hi]
    exact ih (h.serve r)

end StandsAt

end Lookahead

end FourGL
