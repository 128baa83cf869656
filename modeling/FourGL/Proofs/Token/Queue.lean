import FourGL.Proofs.Token.Stream
import FourGL.Token.Queue

/-!
# Tokens on demand are a stream

A `TokenQueue` scans only as far as it is asked to look. A scanner hands out the lexemes of the
text, in either mode, and ends of file behind them (`Scanner.HandsOut`); what a queue holds in its
buffer is what it has scanned of them and not yet read (`TokenQueue.Buffers`). So it does the same
as a place in the stream of all lexemes, request by request (`TokenQueue.Refines.serve`) and in any
run (`TokenQueue.refines_behind`), and no caller can tell how far it has scanned
(`TokenQueue.serve_eq_stream`).
-/

namespace FourGL

/-! ## What a scanner hands out -/

theorem Element.length_taken_add_behind (e : Element) (c : Char) (cs : List Char) :
    (e.taken c cs).length + (e.behind cs).length = (c :: cs).length := by
  rw [← List.length_append, e.taken_append_behind]

namespace Scanner

/-- Where the text ends. -/
def finalPos (s : Scanner) : Nat := s.pos + s.rest.length

theorem finalPos_skipTrivia (pos : Nat) (cs : List Char) (sawBreak : Bool)
    (issues : List Diagnostic) :
    (skipTrivia pos cs sawBreak issues).pos + (skipTrivia pos cs sawBreak issues).rest.length =
      pos + cs.length := by
  fun_induction skipTrivia pos cs sawBreak issues with
  | case1 => rfl
  | case2 => rfl
  | case3 pos sawBreak issues c cs e _ ih =>
    have hlength := Element.length_taken_add_behind e c cs
    omega

/-- The end of the text stays where it is. -/
theorem finalPos_next (s : Scanner) : s.next.2.finalPos = s.finalPos := by
  have hbehind (e : Element) (c : Char) (cs : List Char) (pos : Nat) :
      pos + (e.taken c cs).length + (e.behind cs).length = pos + (c :: cs).length := by
    rw [Nat.add_assoc, Element.length_taken_add_behind]
  unfold next
  split
  · have hskip := finalPos_skipTrivia s.pos s.rest false []
    dsimp only
    split
    next hrest =>
      rw [hrest] at hskip
      exact hskip
    next c cs hrest =>
      rw [hrest] at hskip
      exact (hbehind _ c cs _).trans hskip
  · split
    next hrest => rfl
    next c cs hrest =>
      unfold finalPos
      rw [hrest]
      split
      · exact hbehind _ c cs _
      · exact hbehind _ c cs _

/-- Nothing is left of the text, and no line break waits for a token. -/
structure Exhausted (s : Scanner) : Prop where
  rest_eq : s.rest = []
  breakPending_eq : s.breakPending = false

/-- Behind the end of the text there are only ends of file without flags. -/
theorem Exhausted.next {s : Scanner} (h : s.Exhausted) :
    s.next.1 = ⟨.endOfFile s.finalPos, []⟩ ∧ s.next.2.Exhausted := by
  obtain ⟨mode, pos, rest, pending⟩ := s
  obtain ⟨rfl, rfl⟩ := h
  cases mode with
  | default =>
    unfold Scanner.next
    dsimp only
    rw [skipTrivia]
    exact ⟨rfl, rfl, rfl⟩
  | verbatim => exact ⟨rfl, rfl, rfl⟩

/-- The end of file stands where the text ends, and behind it the scanner is exhausted. -/
theorem exhausted_of_endOfFile {s : Scanner} (hs : s.mode = .default → s.breakPending = false)
    (h : s.next.1.token.kind = .endOfFile) : s.next.2.Exhausted := by
  unfold next at h ⊢
  split
  next hmode =>
    rw [hmode] at h
    dsimp only at h ⊢
    split
    next => exact ⟨rfl, hs hmode⟩
    next c cs hrest =>
      rw [hrest] at h
      exact absurd h (Element.isSignificant_significant c cs).2
  next hmode =>
    rw [hmode] at h
    dsimp only at h ⊢
    split
    next hrest => exact ⟨hrest, rfl⟩
    next c cs hrest =>
      rw [hrest] at h
      dsimp only at h
      split at h
      next htrivia => exact absurd h (Element.ne_endOfFile_of_trivia? htrivia)
      next => exact absurd h (Element.isSignificant_significant c cs).2

/-- A default scanner never has a line break waiting. -/
def Settled (s : Scanner) : Prop := s.mode = .default → s.breakPending = false

theorem Settled.next {s : Scanner} (h : s.Settled) : s.next.2.Settled := by
  unfold Scanner.next
  split
  · dsimp only
    split
    · exact h
    · exact h
  next hmode =>
    split
    · exact fun _ => rfl
    · split
      · exact fun hdefault => by cases hmode.symm.trans hdefault
      · exact fun _ => rfl

/-- A scanner that still hands out these lexemes, where `before` and `issues` wait for the first of
them, and then ends of file at `length`. -/
inductive HandsOut (length : Nat) :
    List Token → List Diagnostic → Scanner → List Lexeme → Prop where
  | more {s : Scanner} (hsettled : s.Settled) (hfinal : s.finalPos = length) :
      HandsOut length before issues s (Lexeme.gather before issues s.all)
  | done {s : Scanner} (hexhausted : s.Exhausted) (hfinal : s.finalPos = length) :
      HandsOut length [] [] s []

theorem handsOut_ofText (mode : ScanMode) (text : String) :
    HandsOut text.length [] [] (.ofText mode text) (Lexeme.ofText mode text) :=
  .more (fun _ => rfl) ((Nat.zero_add _).trans String.length_toList)

end Scanner

namespace Lexeme

/-- An end of file behind all lexemes. -/
def endOfFile (length : Nat) : Lexeme := ⟨.endOfFile length, [], []⟩

end Lexeme

namespace Scanner.HandsOut

variable {length : Nat} {before : List Token} {issues : List Diagnostic} {s : Scanner}
  {ls : List Lexeme}

/-- A piece of trivia waits for the next lexeme with what waits already. -/
theorem next_trivia (h : HandsOut length before issues s ls)
    (htrivia : s.next.1.token.kind.isTrivia = true) :
    HandsOut length (before ++ [s.next.1.token]) (issues ++ s.next.1.issues) s.next.2 ls := by
  cases h with
  | more hsettled hfinal =>
    have hend : s.next.1.token.kind ≠ .endOfFile := by
      intro hend
      rw [hend] at htrivia
      cases htrivia
    rw [all_eq, if_neg hend, Lexeme.gather, if_pos htrivia]
    exact .more hsettled.next (s.finalPos_next.trans hfinal)
  | done hexhausted =>
    rw [hexhausted.next.1] at htrivia
    cases htrivia

/-- Any other token takes what waits with it; it is the token of the next lexeme. -/
theorem next_token (h : HandsOut length before issues s ls)
    (htrivia : s.next.1.token.kind.isTrivia = false) :
    ls.head?.getD (.endOfFile length) = ⟨s.next.1.token, before, issues ++ s.next.1.issues⟩ ∧
      HandsOut length [] [] s.next.2 ls.tail := by
  cases h with
  | more hsettled hfinal =>
    have hfinal := s.finalPos_next.trans hfinal
    rw [all_eq]
    split
    next hend =>
      rw [Lexeme.gather, if_neg (by simp [htrivia])]
      exact ⟨rfl, .done (exhausted_of_endOfFile hsettled hend) hfinal⟩
    next =>
      rw [Lexeme.gather, if_neg (by simp [htrivia])]
      exact ⟨rfl, .more hsettled.next hfinal⟩
  | done hexhausted hfinal =>
    obtain ⟨hnext, hexhausted⟩ := hexhausted.next
    rw [hnext, hfinal]
    exact ⟨rfl, .done hexhausted (s.finalPos_next.trans hfinal)⟩

end Scanner.HandsOut

/-! ## The buffer -/

namespace Lookahead

/-- The lexeme that lies so far ahead, where the next one lies at 0. -/
def lexemeAhead (p : Lookahead) (d : Nat) : Lexeme := p.rest[d]?.getD (.endOfFile p.length)

theorem tokenAt_eq (p : Lookahead) (depth : Nat) :
    p.tokenAt depth = (p.lexemeAhead (depth - 1)).token := by
  unfold tokenAt lexemeAhead
  cases p.rest[depth - 1]? <;> rfl

/-- The lexeme as it waits in a buffer. -/
def bufferedAhead (p : Lookahead) (d : Nat) : Buffered :=
  ⟨(p.lexemeAhead d).token, Diagnostic.errorCount (p.lexemeAhead d).issues⟩

theorem advance_of_nil {p : Lookahead} (h : p.rest = []) :
    p.advance = { p with last := .endOfFile p.length } := by
  rw [advance, h]

theorem advance_of_cons {p : Lookahead} (h : p.rest = l :: ls) :
    p.advance = { p with
      rest := ls
      index := p.index + 1
      seen := max p.seen (p.index + 1)
      last := l.token
      consumed := if l.token.kind = .endOfFile then p.consumed else p.consumed + 1
      errors := p.errors + Diagnostic.errorCount l.issues } := by
  rw [advance, h]

theorem lexemeAhead_advance (p : Lookahead) (d : Nat) :
    p.advance.lexemeAhead d = p.lexemeAhead (d + 1) := by
  cases h : p.rest with
  | nil => simp [advance_of_nil h, lexemeAhead, h]
  | cons => simp [advance_of_cons h, lexemeAhead, h]

/-- What reading the next lexeme changes, also at the end of the text. -/
theorem read_advance (p : Lookahead) :
    p.advance.last = (p.lexemeAhead 0).token ∧
      p.advance.consumed =
        (if (p.lexemeAhead 0).token.kind = .endOfFile then p.consumed else p.consumed + 1) ∧
      p.advance.errors = p.errors + Diagnostic.errorCount (p.lexemeAhead 0).issues := by
  cases h : p.rest with
  | nil =>
    rw [advance_of_nil h, lexemeAhead, h]
    exact ⟨rfl, rfl, rfl⟩
  | cons =>
    rw [advance_of_cons h, lexemeAhead, h]
    exact ⟨rfl, rfl, rfl⟩

end Lookahead

namespace TokenQueue

/-- The buffer holds the next `n` lexemes of the stream, the trivia and the issues up to there are
put aside, and `before` and `issues` have been scanned since. -/
structure Buffers (q : TokenQueue) (p : Lookahead) (n : Nat) (before : List Token)
    (issues : List Diagnostic) : Prop where
  buffer_eq : q.buffer = (List.range n).map p.bufferedAhead
  pending_eq : q.pendingErrors = Diagnostic.errorCount issues
  trivia_eq : q.trivia = (p.stream.take (p.index + n)).flatMap (·.before) ++ before
  issues_eq : q.session.issues = (p.stream.take (p.index + n)).flatMap (·.issues) ++ issues
  rest_eq : p.rest = p.stream.drop p.index
  handsOut : q.session.scanner.HandsOut p.length before issues (p.rest.drop n)

namespace Buffers

variable {q : TokenQueue} {p : Lookahead} {n : Nat} {before : List Token}
  {issues : List Diagnostic}

theorem length_buffer (h : Buffers q p n before issues) : q.buffer.length = n := by
  rw [h.buffer_eq, List.length_map, List.length_range]

/-- Up to one lexeme further there is what that lexeme has in addition. -/
theorem flatMap_take_succ (h : Buffers q p n before issues) (f : Lexeme → List α)
    (hend : f (.endOfFile p.length) = []) :
    (p.stream.take (p.index + (n + 1))).flatMap f =
      (p.stream.take (p.index + n)).flatMap f ++ f (p.lexemeAhead n) := by
  rw [← Nat.add_assoc, List.take_add_one, List.flatMap_append, Lookahead.lexemeAhead, h.rest_eq,
    List.getElem?_drop]
  cases p.stream[p.index + n]? <;> simp [hend]

/-- Scanning one more token either lets it wait for the next lexeme or brings this lexeme into the
buffer. -/
theorem pull (h : Buffers q p n before issues) :
    (∃ t more, Buffers q.pull p n (before ++ [t]) (issues ++ more)) ∨
      Buffers q.pull p (n + 1) [] [] := by
  have hpending : q.pendingErrors + (q.session.scan.errors - q.session.errors) =
      Diagnostic.errorCount (issues ++ q.session.scanner.next.1.issues) := by
    have herrors : q.session.scan.errors = q.session.errors +
      Diagnostic.errorCount q.session.scanner.next.1.issues := rfl
    rw [herrors, Nat.add_sub_cancel_left, h.pending_eq]
    exact (List.countP_append ..).symm
  have hissues : q.session.scan.issues = (p.stream.take (p.index + n)).flatMap (·.issues) ++
      (issues ++ q.session.scanner.next.1.issues) := by
    rw [← List.append_assoc, ← h.issues_eq]
    rfl
  cases htrivia : q.session.scan.last.kind.isTrivia with
  | true =>
    refine .inl ⟨q.session.scan.last, q.session.scanner.next.1.issues, ?_⟩
    rw [TokenQueue.pull, if_pos htrivia]
    refine ⟨h.buffer_eq, hpending, ?_, hissues, h.rest_eq, h.handsOut.next_trivia htrivia⟩
    rw [← List.append_assoc, ← h.trivia_eq]
  | false =>
    obtain ⟨hahead, hnext⟩ := h.handsOut.next_token htrivia
    rw [List.head?_drop] at hahead
    have hahead : p.lexemeAhead n =
      ⟨q.session.scan.last, before, issues ++ q.session.scanner.next.1.issues⟩ := hahead
    right
    rw [TokenQueue.pull, if_neg (by simp [htrivia])]
    refine ⟨?_, rfl, ?_, ?_, h.rest_eq, ?_⟩
    · rw [List.range_succ, List.map_append, ← h.buffer_eq, hpending, List.map_singleton,
        Lookahead.bufferedAhead, hahead]
    · rw [h.flatMap_take_succ (·.before) rfl, hahead, List.append_nil]
      exact h.trivia_eq
    · rw [h.flatMap_take_succ (·.issues) rfl, hahead, List.append_nil]
      exact hissues
    · rw [← List.tail_drop]
      exact hnext

/-- However far the buffer is filled, it holds the lexemes up to there and nothing waits. -/
theorem fill (h : Buffers q p n before issues) (depth : Nat)
    (hwaiting : n < depth ∨ before = [] ∧ issues = []) :
    Buffers (q.fill depth) p (max n depth) [] [] := by
  fun_induction TokenQueue.fill q depth generalizing n before issues with
  | case1 q hlt ih =>
    rw [h.length_buffer] at hlt
    obtain ⟨t, more, hpull⟩ | hpull := h.pull
    · exact ih hpull (.inl hlt)
    · have hmax : max (n + 1) depth = max n depth := by omega
      exact hmax ▸ ih hpull (.inr ⟨rfl, rfl⟩)
  | case2 q hge =>
    rw [h.length_buffer] at hge
    obtain hlt | ⟨rfl, rfl⟩ := hwaiting
    · exact absurd hlt hge
    · rw [Nat.max_eq_left (Nat.le_of_not_lt hge)]
      exact h

/-- Taking the next token out of the buffer is going one lexeme further. -/
theorem pop (h : Buffers q p (n + 1) [] []) : Buffers q.pop p.advance n [] [] := by
  have hbuffer : q.buffer = p.bufferedAhead 0 :: (List.range n).map p.advance.bufferedAhead := by
    rw [h.buffer_eq, List.range_succ_eq_map, List.map_cons, List.map_map]
    refine congrArg _ (List.map_congr_left fun d _ => ?_)
    rw [Lookahead.bufferedAhead, Lookahead.lexemeAhead_advance]
    rfl
  rw [TokenQueue.pop, hbuffer]
  cases hrest : p.rest with
  | nil =>
    -- All lexemes have been read, so that it does not matter how far one looks.
    have hall (m : Nat) : p.stream.take (p.index + m) = p.stream :=
      List.take_of_length_le (Nat.le_add_right_of_le
        (List.drop_eq_nil_iff.mp (h.rest_eq.symm.trans hrest)))
    obtain ⟨-, hpending, htrivia, hissues, hdrop, hhands⟩ := h
    rw [hall] at htrivia hissues
    rw [hrest, List.drop_nil] at hhands
    rw [Lookahead.advance_of_nil hrest]
    refine ⟨rfl, hpending, by rw [hall]; exact htrivia, by rw [hall]; exact hissues, hdrop, ?_⟩
    rw [hrest, List.drop_nil]
    exact hhands
  | cons l ls =>
    obtain ⟨-, hpending, htrivia, hissues, hdrop, hhands⟩ := h
    have hindex : p.index + (n + 1) = p.index + 1 + n := by omega
    rw [hindex] at htrivia hissues
    rw [hrest] at hdrop hhands
    have htail := congrArg List.tail hdrop
    rw [List.tail_drop] at htail
    rw [Lookahead.advance_of_cons hrest]
    exact ⟨rfl, hpending, htrivia, hissues, htail, hhands⟩

end Buffers

/-! ## The queue and the place in the stream -/

/-- The queue and the place agree on what has been read, counted and seen; the next `n` lexemes wait
in the buffer. -/
structure Refines (q : TokenQueue) (p : Lookahead) (n : Nat) : Prop where
  buffers : Buffers q p n [] []
  last_eq : q.last = p.last
  consumed_eq : q.consumed = p.consumed
  errors_eq : q.consumedErrors = p.errors
  /-- Both have seen the same part of the stream. -/
  seen_eq : min p.seen p.stream.length = min (p.index + n) p.stream.length

/-- Filling the buffer reads nothing. -/
theorem read_fill (q : TokenQueue) (depth : Nat) :
    (q.fill depth).last = q.last ∧ (q.fill depth).consumed = q.consumed ∧
      (q.fill depth).consumedErrors = q.consumedErrors := by
  fun_induction fill q depth with
  | case1 q _ ih =>
    have hpull : q.pull.last = q.last ∧ q.pull.consumed = q.consumed ∧
        q.pull.consumedErrors = q.consumedErrors := by
      unfold pull
      dsimp only
      split <;> exact ⟨rfl, rfl, rfl⟩
    obtain ⟨hlast, hconsumed, herrors⟩ := hpull
    rwa [hlast, hconsumed, herrors] at ih
  | case2 => exact ⟨rfl, rfl, rfl⟩

/-- What can be asked of a queue, or be done with it. -/
def serve (q : TokenQueue) : Lookahead.Request → Lookahead.Answer × TokenQueue
  | .token depth => ((q.peekAt depth).map .token id)
  | .isNext k => (q.isNext k).map .truth id
  | .isAt k depth => (q.isAt k depth).map .truth id
  | .atEnd => q.atEnd.map .truth id
  | .read => q.next.map .kind id

/-- The queue behind requests. -/
def behind (q : TokenQueue) (requests : List Lookahead.Request) : TokenQueue :=
  requests.foldl (fun q r => (q.serve r).2) q

namespace Refines

theorem ofText (mode : ScanMode) (text : String) :
    Refines (.ofText mode text) (.ofText mode text) 0 where
  buffers := ⟨rfl, rfl, rfl, rfl, rfl, Scanner.handsOut_ofText mode text⟩
  last_eq := rfl
  consumed_eq := rfl
  errors_eq := rfl
  seen_eq := rfl

variable {q : TokenQueue} {p : Lookahead} {n : Nat} (h : Refines q p n)
include h

/-- Looking ahead is filling the buffer so far. -/
theorem fill (depth : Nat) :
    Refines (q.fill (max depth 1)) (p.inspect depth) (max n (max depth 1)) := by
  obtain ⟨hbuffer, hpending, htrivia, hissues, hrest, hhands⟩ :=
    h.buffers.fill (max depth 1) (.inr ⟨rfl, rfl⟩)
  obtain ⟨hlast, hconsumed, herrors⟩ := q.read_fill (max depth 1)
  have hseen := h.seen_eq
  refine ⟨⟨hbuffer, hpending, htrivia, hissues, hrest, hhands⟩, hlast.trans h.last_eq,
    hconsumed.trans h.consumed_eq, herrors.trans h.errors_eq, ?_⟩
  change min (max p.seen (p.index + max depth 1)) p.stream.length =
    min (p.index + max n (max depth 1)) p.stream.length
  omega

theorem peekAt (depth : Nat) :
    (q.peekAt depth).1 = p.tokenAt depth ∧
      Refines (q.peekAt depth).2 (p.inspect depth) (max n (max depth 1)) := by
  refine ⟨?_, h.fill depth⟩
  have hdepth : max depth 1 - 1 = depth - 1 := by omega
  have hget : (q.fill (max depth 1)).buffer[max depth 1 - 1]? =
      some (p.bufferedAhead (depth - 1)) := by
    rw [(h.fill depth).buffers.buffer_eq, List.getElem?_map, List.getElem?_range (by omega),
      hdepth]
    rfl
  rw [List.getElem?_eq_getElem (q.lt_length_fill depth)] at hget
  rw [p.tokenAt_eq]
  exact congrArg Buffered.token (Option.some.inj hget)

/-- Reading a token is going one lexeme further. -/
theorem next : q.next.1 = p.advance.last.kind ∧ Refines q.next.2 p.advance (max n 1 - 1) := by
  obtain ⟨m, hm⟩ : ∃ m, max n 1 = m + 1 := Nat.exists_eq_succ_of_ne_zero (by omega)
  have hbuffers : Buffers (q.fill 1) p (m + 1) [] [] :=
    hm ▸ h.buffers.fill 1 (.inr ⟨rfl, rfl⟩)
  obtain ⟨hlast, hconsumed, herrors⟩ := q.read_fill 1
  obtain ⟨hlast', hconsumed', herrors'⟩ := p.read_advance
  have hpop : (q.fill 1).pop = { q.fill 1 with
      buffer := (List.range m).map fun d => p.bufferedAhead (d + 1)
      consumed := p.advance.consumed
      consumedErrors := p.advance.errors
      last := p.advance.last } := by
    have hbuffer : (q.fill 1).buffer =
        p.bufferedAhead 0 :: (List.range m).map fun d => p.bufferedAhead (d + 1) := by
      rw [hbuffers.buffer_eq, List.range_succ_eq_map, List.map_cons, List.map_map]
      rfl
    rw [pop, hbuffer, hconsumed, herrors, h.consumed_eq, h.errors_eq, hlast', hconsumed', herrors']
    rfl
  have hlast : (q.fill 1).pop.last = p.advance.last := by rw [hpop]
  refine ⟨congrArg Token.kind hlast, ?_⟩
  rw [hm, Nat.add_sub_cancel]
  refine ⟨hbuffers.pop, hlast, ?_, ?_, ?_⟩
  · exact congrArg TokenQueue.consumed hpop
  · exact congrArg TokenQueue.consumedErrors hpop
  · have hseen := h.seen_eq
    cases hrest : p.rest with
    | nil =>
      have hle := List.drop_eq_nil_iff.mp (h.buffers.rest_eq.symm.trans hrest)
      rw [Lookahead.advance_of_nil hrest]
      dsimp only
      omega
    | cons =>
      rw [Lookahead.advance_of_cons hrest]
      dsimp only
      omega

/-- One request is answered alike and leads to alike states. -/
theorem serve (r : Lookahead.Request) :
    (q.serve r).1 = (p.serve r).1 ∧ ∃ m, Refines (q.serve r).2 (p.serve r).2 m := by
  cases r with
  | token depth =>
    obtain ⟨htoken, hnext⟩ := h.peekAt depth
    exact ⟨congrArg Lookahead.Answer.token htoken, _, hnext⟩
  | isNext k =>
    obtain ⟨htoken, hnext⟩ := h.peekAt 1
    exact ⟨congrArg (fun t : Token => Lookahead.Answer.truth (t.kind == k)) htoken, _, hnext⟩
  | isAt k depth =>
    obtain ⟨htoken, hnext⟩ := h.peekAt depth
    exact ⟨congrArg (fun t : Token => Lookahead.Answer.truth (t.kind == k)) htoken, _, hnext⟩
  | atEnd =>
    obtain ⟨htoken, hnext⟩ := h.peekAt 1
    exact ⟨congrArg (fun t : Token => Lookahead.Answer.truth (t.kind == .endOfFile)) htoken, _,
      hnext⟩
  | read =>
    obtain ⟨hkind, hnext⟩ := h.next
    exact ⟨congrArg Lookahead.Answer.kind hkind, _, hnext⟩

/-- So do any requests. -/
theorem behind (requests : List Lookahead.Request) :
    ∃ m, Refines (q.behind requests) (p.behind requests) m := by
  induction requests generalizing q p n with
  | nil => exact ⟨n, h⟩
  | cons r rs ih =>
    obtain ⟨-, m, hserve⟩ := h.serve r
    exact ih hserve

/-- What has been put aside is what belongs to the part of the stream that has been seen. -/
theorem putAside : q.trivia = p.trivia ∧ q.session.issues = p.issues := by
  have htake : p.stream.take (p.index + n) = p.seenLexemes := by
    rw [Lookahead.seenLexemes, List.take_eq_take_iff]
    exact h.seen_eq.symm
  rw [h.buffers.trivia_eq, h.buffers.issues_eq, htake, List.append_nil, List.append_nil]
  exact ⟨rfl, rfl⟩

end Refines

/-- Whatever is asked, the queue stays in step with the place in the stream, and what it has put
aside is the trivia and the issues of the part of the text seen there. -/
theorem refines_behind (mode : ScanMode) (text : String) (requests : List Lookahead.Request) :
    let q := (ofText mode text).behind requests
    let p := (Lookahead.ofText mode text).behind requests
    (∃ n, Refines q p n) ∧ q.trivia = p.trivia ∧ q.session.issues = p.issues := by
  obtain ⟨n, h⟩ := (Refines.ofText mode text).behind requests
  exact ⟨⟨n, h⟩, h.putAside⟩

/-- A request that reads nothing leaves what has been read as it was. -/
theorem read_serve (q : TokenQueue) {r : Lookahead.Request} (hr : r.reads = false) :
    (q.serve r).2.last = q.last ∧ (q.serve r).2.consumed = q.consumed ∧
      (q.serve r).2.consumedErrors = q.consumedErrors := by
  cases r with
  | read => cases hr
  | token depth | isAt _ depth => exact q.read_fill (max depth 1)
  | isNext | atEnd => exact q.read_fill (max 1 1)

/-- Behind any requests, a queue answers as the stream does behind the tokens read by them, and what
it has counted is what these tokens hold, however far it has scanned; a request that reads nothing
changes none of it. -/
theorem serve_eq_stream (mode : ScanMode) (text : String) (requests : List Lookahead.Request) :
    let q := (ofText mode text).behind requests
    let i := requests.countP (·.reads)
    (∀ r, (q.serve r).1 = Lookahead.streamAnswer mode text i r ∧
      (r.reads = false → (q.serve r).2.last = q.last ∧ (q.serve r).2.consumed = q.consumed ∧
        (q.serve r).2.consumedErrors = q.consumedErrors)) ∧
    q.last = (if i = 0 then .endOfFile 0 else streamToken mode text (i - 1)) ∧
    q.consumed = (List.range i).countP (fun j => (streamToken mode text j).kind ≠ .endOfFile) ∧
    q.consumedErrors = streamErrors mode text i := by
  intro q i
  obtain ⟨⟨n, hrefines⟩, -⟩ := refines_behind mode text requests
  have hstands : Lookahead.StandsAt mode text ((Lookahead.ofText mode text).behind requests) i := by
    simpa using (Lookahead.StandsAt.ofText mode text).behind requests
  refine ⟨fun r => ⟨?_, q.read_serve⟩, hrefines.last_eq.trans hstands.last_eq,
    hrefines.consumed_eq.trans hstands.consumed_eq, hrefines.errors_eq.trans hstands.errors_eq⟩
  exact (hrefines.serve r).1.trans (hstands.answer r)

end TokenQueue

end FourGL
