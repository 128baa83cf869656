import FourGL.Proofs.Grammar.Account
import FourGL.Proofs.Token.Modes

/-!
# Places in a text

The tokens of a text stand one behind the other. A state that is `At` a text has read some of them
and has the others before it; whatever a parser does keeps that, and never goes back.
-/

namespace FourGL

open FourGL.Parser FourGL.ParseState

/-! ## The tokens of a text -/

namespace Tiles

theorem bounds (h : Tiles pos cs ts) {t : Token} (ht : t ∈ ts) :
    pos ≤ t.start ∧ t.start ≤ t.stop ∧ t.stop ≤ pos + cs.length ∧
      (t.kind ≠ .endOfFile → t.start < t.stop) ∧
      (t.kind = .endOfFile → t.start = pos + cs.length) := by
  induction h with
  | endOfFile pos flags =>
    obtain rfl := List.mem_singleton.mp ht
    simp
  | @token pos ds ts u cs hkind hne hstart hstop _ _ ih =>
    have hpos := List.length_pos_of_ne_nil hne
    rw [List.length_append]
    obtain rfl | ht := List.mem_cons.mp ht
    · exact ⟨by omega, by omega, by omega, fun _ => by omega, fun h => absurd h hkind⟩
    · obtain ⟨h₁, h₂, h₃, h₄, h₅⟩ := ih ht
      exact ⟨by omega, h₂, by omega, h₄, fun h => by have := h₅ h; omega⟩

theorem text_ne_empty (h : Tiles pos cs ts) {t : Token} (ht : t ∈ ts)
    (hkind : t.kind ≠ .endOfFile) :
    t.text ≠ "" := by
  induction h with
  | endOfFile =>
    obtain rfl := List.mem_singleton.mp ht
    exact absurd rfl hkind
  | token _ hne _ _ htext _ ih =>
    obtain rfl | ht := List.mem_cons.mp ht
    · rw [htext]
      exact fun h => hne (by simpa using congrArg String.toList h)
    · exact ih ht

theorem pairwise (h : Tiles pos cs ts) : ts.Pairwise fun a b => a.stop ≤ b.start := by
  induction h with
  | endOfFile => exact List.pairwise_singleton _ _
  | token _ _ _ hstop _ htail ih =>
    exact .cons (fun t ht => by rw [hstop]; exact (htail.bounds ht).1) ih

end Tiles

theorem mem_tokens_verbatim {text : String} {t : Token} (ht : t ∈ tokens .default text) :
    t ∈ tokens .verbatim text := by
  rw [← Lexeme.map_token_ofText .verbatim, Lexeme.ofText, Lexeme.map_token_gather] at ht
  exact List.mem_of_mem_filter ht

/-- No two tokens of a text overlap. -/
theorem pairwise_tokens (text : String) :
    (tokens .default text).Pairwise fun a b => a.stop ≤ b.start := by
  rw [← Lexeme.map_token_ofText .verbatim, Lexeme.ofText, Lexeme.map_token_gather]
  exact (tiles_tokens_verbatim text).pairwise.filter _

/-- A token lies inside the text, and only the end of file is empty. -/
theorem bounds_of_mem_tokens {text : String} {t : Token} (ht : t ∈ tokens .default text) :
    t.start ≤ t.stop ∧ t.stop ≤ text.length ∧
    (t.kind ≠ .endOfFile → t.start < t.stop) ∧
      (t.kind = .endOfFile → t.start = text.length) := by
  have h := (tiles_tokens_verbatim text).bounds (mem_tokens_verbatim ht)
  rw [String.length_toList, Nat.zero_add] at h
  exact h.2

theorem text_ne_empty_of_mem_tokens {text : String} {t : Token} (ht : t ∈ tokens .default text)
    (hkind : t.kind ≠ .endOfFile) : t.text ≠ "" :=
  (tiles_tokens_verbatim text).text_ne_empty (mem_tokens_verbatim ht) hkind

/-- The end of file comes last among the tokens and only there. -/
theorem tokens_eq_append (text : String) :
    ∃ ts e, tokens .default text = ts ++ [e] ∧ e.kind = .endOfFile ∧
      ∀ t ∈ ts, t.kind ≠ .endOfFile := by
  have h := tiles_tokens_verbatim text
  obtain ⟨e, hlast, hkind, -⟩ := h.coversText.last
  have hsplit := List.dropLast_append_getLast? _ hlast
  refine ⟨(tokens .verbatim text).dropLast.filter fun t => !t.kind.isTrivia, e, ?_, hkind, ?_⟩
  · rw [← Lexeme.map_token_ofText .verbatim, Lexeme.ofText, Lexeme.map_token_gather]
    change (tokens .verbatim text).filter _ = _
    conv_lhs => rw [← hsplit]
    rw [List.filter_append, List.filter_singleton, hkind]
    rfl
  · intro t ht
    exact (h.of_mem_dropLast (List.mem_of_mem_filter ht)).2

/-! ## States -/

namespace ParseState

/-- Where the token read last ends. -/
def place (s : ParseState) : Nat := s.input.last.stop

/-- The state has read a part of a text, up to its place, and the rest is before it. -/
structure At (text : String) (s : ParseState) : Prop where
  stream_eq : ∃ mode, s.input.stream = Lexeme.ofText mode text
  length_eq : s.input.length = text.length
  place_le : s.place ≤ text.length
  split : ∃ done, tokens .default text = done ++ s.input.rest.map (·.token) ∧
    ∀ t ∈ done, t.stop ≤ s.place
  le_start : ∀ l ∈ s.input.rest, s.place ≤ l.token.start

/-- The state is at the text, and not before another. -/
def Onward (text : String) (s t : ParseState) : Prop := At text t ∧ s.place ≤ t.place

theorem Onward.trans (h₁ : Onward text s t) (h₂ : Onward text t u) : Onward text s u :=
  ⟨h₂.1, Nat.le_trans h₁.2 h₂.2⟩

theorem at_ofText (mode : ScanMode) (text : String) : At text (.ofText mode text) where
  stream_eq := ⟨mode, rfl⟩
  length_eq := rfl
  place_le := Nat.zero_le _
  split := ⟨[], (Lexeme.map_token_ofText mode text).symm, by simp⟩
  le_start _ _ := Nat.zero_le _

theorem Looks.place (h : Looks s t) : t.place = s.place := congrArg Token.stop h.last

namespace At

/-- What a state holds beside its input does not matter to its place. -/
theorem of_input (h : At text s) (hinput : t.input = s.input) : At text t := by
  have hplace : t.place = s.place := congrArg (·.last.stop) hinput
  constructor
  case stream_eq => exact hinput ▸ h.stream_eq
  case length_eq => exact hinput ▸ h.length_eq
  case place_le => exact hplace ▸ h.place_le
  case split => rw [hinput, hplace]; exact h.split
  case le_start => rw [hinput, hplace]; exact h.le_start

theorem looks (h : At text s) (hlook : Looks s t) : Onward text s t := by
  obtain ⟨seen, -, rfl⟩ := hlook
  exact ⟨⟨h.stream_eq, h.length_eq, h.place_le, h.split, h.le_start⟩, Nat.le_refl _⟩

theorem mem_tokens (h : At text s) {l : Lexeme} (hl : l ∈ s.input.rest) :
    l.token ∈ tokens .default text := by
  obtain ⟨done, hsplit, -⟩ := h.split
  rw [hsplit]
  exact List.mem_append_right _ (List.mem_map_of_mem hl)

/-- Reading goes on in the text. -/
theorem read (h : At text s) : Onward text s s.read := by
  unfold Onward ParseState.read place Lookahead.advance
  obtain ⟨done, hsplit, hdone⟩ := h.split
  split
  next hrest =>
    -- Where nothing is left, the end of file is read again.
    refine ⟨⟨h.stream_eq, h.length_eq, Nat.le_of_eq h.length_eq,
      ⟨done, ?_, fun t ht => ?_⟩, ?_⟩, ?_⟩
    · rw [hsplit]
    · exact Nat.le_trans (hdone t ht) (h.length_eq.symm ▸ h.place_le)
    · simp [hrest]
    · exact h.length_eq.symm ▸ h.place_le
  next l ls hrest =>
    have hl : l ∈ s.input.rest := by simp [hrest]
    obtain ⟨hle, hstop, -⟩ := bounds_of_mem_tokens (h.mem_tokens hl)
    have hstart := h.le_start l hl
    have hpairwise := pairwise_tokens text
    rw [hsplit, hrest, List.pairwise_append] at hpairwise
    obtain ⟨-, hpairwise, -⟩ := hpairwise
    rw [List.map_cons, List.pairwise_cons] at hpairwise
    refine ⟨⟨h.stream_eq, h.length_eq, hstop, ⟨done ++ [l.token], ?_, ?_⟩, ?_⟩,
      Nat.le_trans hstart hle⟩
    · rw [hsplit, hrest]
      simp
    · intro t ht
      obtain ht | ht := List.mem_append.mp ht
      · exact Nat.le_trans (hdone t ht) (Nat.le_trans hstart hle)
      · rw [List.mem_singleton.mp ht]
        exact Nat.le_refl _
    · exact fun m hm => hpairwise.1 _ (List.mem_map_of_mem hm)

theorem step (h : At text s) (hstep : Step M s t) : Onward text s t := by
  cases hstep with
  | look depth => exact h.looks (looks_inspect s depth)
  | read => exact h.read
  | report | limit | rename | nest => exact ⟨h.of_input rfl, Nat.le_refl _⟩

theorem steps (h : At text s) (hsteps : Steps M s t) : Onward text s t := by
  induction hsteps with
  | refl => exact ⟨h, Nat.le_refl _⟩
  | tail _ hstep ih => exact ih.trans (ih.1.step hstep)

theorem run (h : At text s) {p : Parser α} (hp : p.ReportsOnly M) (hrun : p.run s = (a, t)) :
    Onward text s t := by
  have hsteps := hp s
  rw [hrun] at hsteps
  exact h.steps hsteps

/-- A token that is no end of file moves the place. -/
theorem read_token (h : At text s) (hkind : s.kindAt 1 ≠ .endOfFile) :
    s.place ≤ s.read.input.last.start ∧ s.read.input.last.start < s.read.place := by
  obtain ⟨l, ls, hrest⟩ := List.exists_cons_of_ne_nil (rest_ne_nil hkind)
  have hl : l ∈ s.input.rest := by simp [hrest]
  have htoken : s.input.tokenAt 1 = l.token := by simp [Lookahead.tokenAt, hrest]
  have hlast : s.read.input.last = l.token := (last_read s).trans htoken
  rw [kindAt, htoken] at hkind
  rw [show s.read.place = s.read.input.last.stop from rfl, hlast]
  exact ⟨h.le_start l hl, (bounds_of_mem_tokens (h.mem_tokens hl)).2.2.1 hkind⟩

/-- As long as tokens are left to read, the ones before start before the place. -/
theorem split_lt (h : At text s) (hrest : s.input.rest ≠ []) :
    ∃ done, tokens .default text = done ++ s.input.rest.map (·.token) ∧
      ∀ t ∈ done, t.start < s.place := by
  obtain ⟨done, hsplit, hdone⟩ := h.split
  obtain ⟨init, e, heq, -, hkind⟩ := tokens_eq_append text
  have hinit : init = done ++ (s.input.rest.map (·.token)).dropLast := by
    have := congrArg List.dropLast (heq.symm.trans hsplit)
    rwa [List.dropLast_concat, List.dropLast_append_of_ne_nil (by simpa using hrest)] at this
  refine ⟨done, hsplit, fun t ht => ?_⟩
  have hmem : t ∈ tokens .default text := hsplit ▸ List.mem_append_left _ ht
  have hne := hkind t (hinit ▸ List.mem_append_left _ ht)
  exact Nat.lt_of_lt_of_le ((bounds_of_mem_tokens hmem).2.2.1 hne) (hdone t ht)

/-- The next token of the state is the first one of the text at or behind its place, and behind it
comes the second. -/
theorem dropWhile_tokens (h : At text s) :
    ∃ t ts, (tokens .default text).dropWhile (fun t => t.start < s.place) = t :: ts ∧
      t.kind = s.kindAt 1 ∧
      (s.kindAt 1 ≠ .endOfFile → ∃ u us, ts = u :: us ∧ u.kind = s.kindAt 2) := by
  obtain ⟨init, e, heq, hend, hkind⟩ := tokens_eq_append text
  cases hrest : s.input.rest with
  | nil =>
    -- Everything is read, but the end of file does not stand before the place.
    obtain ⟨done, hsplit, hdone⟩ := h.split
    have hmem : ∀ t ∈ init ++ [e], t ∈ done := by simp [← heq, hsplit, hrest]
    have he := bounds_of_mem_tokens (heq ▸ List.mem_append_right init (List.mem_singleton_self e))
    have hinit : ∀ t ∈ init, decide (t.start < s.place) = true := by
      intro t ht
      have hle := hdone t (hmem t (List.mem_append_left _ ht))
      have hlt := (bounds_of_mem_tokens (heq ▸ List.mem_append_left [e] ht)).2.2.1 (hkind t ht)
      exact decide_eq_true (Nat.lt_of_lt_of_le hlt hle)
    have hkindAt : s.kindAt 1 = .endOfFile := by
      simp [kindAt, Lookahead.tokenAt, hrest, Token.endOfFile]
    refine ⟨e, [], ?_, hend.trans hkindAt.symm, fun hne => absurd hkindAt hne⟩
    rw [heq, List.dropWhile_append_of_pos hinit, List.dropWhile_cons_of_neg]
    simpa [he.2.2.2 hend] using h.place_le
  | cons l ls =>
    obtain ⟨done, hsplit, hlt⟩ := h.split_lt (by simp [hrest])
    have hl := h.le_start l (by simp [hrest])
    have hkindAt : l.token.kind = s.kindAt 1 := by simp [kindAt, Lookahead.tokenAt, hrest]
    refine ⟨l.token, ls.map (·.token), ?_, hkindAt, fun hne => ?_⟩
    · rw [hsplit, List.dropWhile_append_of_pos fun t ht => decide_eq_true (hlt t ht), hrest,
        List.map_cons, List.dropWhile_cons_of_neg]
      simpa using hl
    · cases ls with
      | nil =>
        have hlast := congrArg List.getLast? (heq.symm.trans hsplit)
        rw [List.getLast?_concat, hrest, List.map_cons, List.map_nil, List.getLast?_concat] at hlast
        rw [← hkindAt, ← Option.some.inj hlast] at hne
        exact absurd hend hne
      | cons m ms =>
        exact ⟨m.token, ms.map (·.token), rfl, by simp [kindAt, Lookahead.tokenAt, hrest]⟩

/-- Where END and a keyword come next, both are read one behind the other. -/
theorem read_terminator (h : At text s) (hend : s.kindAt 1 = .keyword .END)
    (hword : s.kindAt 2 = .keyword k) :
    ∃ before e w after, tokens .default text = before ++ e :: w :: after ∧
      e.kind = .keyword .END ∧ w.kind = .keyword k ∧ s.place ≤ e.start ∧
      w.stop = s.read.read.place := by
  obtain ⟨done, hsplit, -⟩ := h.split
  have hne : s.kindAt 1 ≠ .endOfFile := by rw [hend]; exact Kind.noConfusion
  obtain ⟨l, ls, hrest⟩ := List.exists_cons_of_ne_nil (rest_ne_nil hne)
  cases ls with
  | nil => simp [kindAt, Lookahead.tokenAt, hrest, Token.endOfFile] at hword
  | cons m ms =>
    refine ⟨done, l.token, m.token, ms.map (·.token), by
      rw [hsplit, hrest]; rfl, ?_, ?_, ?_, ?_⟩
    · simpa [kindAt, Lookahead.tokenAt, hrest] using hend
    · simpa [kindAt, Lookahead.tokenAt, hrest] using hword
    · exact h.le_start l (by simp [hrest])
    · simp [ParseState.read, place, Lookahead.advance, hrest]

end At

/-- The token that the opening names has just been read, and it is not empty. -/
structure Opens (o : Opening) (s : ParseState) : Prop where
  last_eq : s.input.last = o.token
  start_lt : o.token.start < s.place

/-- Reading a token that is no end of file opens a node behind the place. -/
theorem At.opens (h : At text s) (hkind : s.kindAt 1 ≠ .endOfFile) (hlook : Looks s t)
    (errors : Nat) :
    Onward text s t.read ∧ Opens ⟨t.read.input.last, errors⟩ t.read ∧
      s.place ≤ t.read.input.last.start := by
  have hon := h.looks hlook
  obtain ⟨hle, hlt⟩ := hon.1.read_token (hlook.kindAt 1 ▸ hkind)
  exact ⟨hon.trans hon.1.read, ⟨rfl, hlt⟩, hlook.place ▸ hle⟩

theorem Stays.place (h : Stays s t) : t.place = s.place := by
  unfold ParseState.place
  rw [h.2]

theorem Opens.header_eq (h : Opens o s) (hat : At text s) (hheader : Header o s t header) :
    header = t.place := by
  have hle := (hat.steps hheader.steps).2
  have hlt := h.start_lt
  rw [hheader.stop_eq]
  exact Nat.max_eq_left (by unfold ParseState.place at *; omega)

end ParseState

/-! ## Closing nodes -/

namespace Parser

/-- The node is what a run has closed behind a header, at the place of the state `s`. -/
structure Closed (o : Opening) (header : Nat) (kind : NodeKind) (nodes : List Node) (s : ParseState)
    (n : Node) : Prop where
  start_eq : n.start = o.token.start
  headerStop_eq : n.extent.headerStop = header
  stop_eq : n.stop = s.place
  kind_eq : n.kind = kind
  children_eq : n.children = nodes

theorem closed_closeNode (hle : header ≤ s.place)
    (h : (closeNode o header kind nodes).run s = (n, t)) :
    t = s ∧ Closed o header kind nodes s n := by
  obtain ⟨rfl, rfl⟩ := Prod.mk.inj h
  exact ⟨rfl, rfl, rfl, Nat.max_eq_left hle, rfl, rfl⟩

theorem closed_closeStatement (hle : o.token.start ≤ s.place)
    (h : (closeStatement o kind).run s = (n, t)) : t = s ∧ Closed o s.place kind [] s n := by
  obtain ⟨rfl, rfl⟩ := Prod.mk.inj h
  exact ⟨rfl, rfl, Nat.max_eq_left hle, Nat.max_eq_left hle, rfl, rfl⟩

end Parser

/-! ## What bodies say -/

namespace Parser

/-- An END that begins a line is not skipped behind another. -/
theorem careful_skipUnexpected (unexpected : Message) (isFirst : Bool) :
    (skipUnexpected unexpected isFirst).Careful {unexpected, .unexpectedEnd} := by
  have halone (t : Token) : Careful {unexpected, .unexpectedEnd}
      (if isFirst then report unexpected [t.text] t.span else pure ()) :=
    .ite (careful_report (by simp) _ _) (.pure _)
  unfold skipUnexpected
  refine .bind careful_last fun t => .ite ?_ (halone t)
  refine fun s => .bind (careful_peek s) fun word u hpeek => ?_
  refine .ite (fun hword => ?_) fun _ => halone t u
  have hread : u ∈ careful := by
    intro hat
    obtain ⟨-, hline⟩ := Bool.and_eq_true_iff.mp hword
    rw [← tokenAt_of_peekAt hpeek, hat.beginsLine] at hline
    cases hline
  exact .bind (.next hread) fun _ v _ => .bind (careful_lastStop v) fun _ x _ =>
    careful_report (by simp) _ _ x

theorem reportsOnly_skipUnexpected (unexpected : Message) (isFirst : Bool) :
    (skipUnexpected unexpected isFirst).ReportsOnly {unexpected, .unexpectedEnd} :=
  fun s => Moves.steps (careful_skipUnexpected unexpected isFirst s)

theorem careful_checkJump (ctx : Context) (n : Node) :
    (checkJump ctx n).Careful {.noEnclosingBlock} := by
  unfold checkJump
  split
  · exact .pure _
  · exact .ite (.pure _) (careful_report (by simp) _ _)

theorem reportsOnly_checkJump (ctx : Context) (n : Node) :
    (checkJump ctx n).ReportsOnly {.noEnclosingBlock} :=
  fun s => Moves.steps (careful_checkJump ctx n s)

/-- Checking a jump reads nothing. -/
theorem input_checkJump (h : (checkJump ctx n).run s = ((), t)) : t.input = s.input := by
  unfold checkJump at h
  split at h
  · cases h
    rfl
  · split at h <;>
    · cases h
      rfl

theorem runs_closeBlock (o : Opening) (header : Nat) (k : Keyword) (stop : Stop) (s : ParseState) :
    (closeBlock o header k stop).Runs .univ {.unterminatedBlock} s :=
  .ite (fun _ => .bind (.next trivial) fun _ _ _ => .bind (.next trivial) fun _ _ _ => .pure _ _)
    fun _ => (careful_report (by simp) _ _ s).free

theorem reportsOnly_closeBlock (o : Opening) (header : Nat) (k : Keyword) (stop : Stop) :
    (closeBlock o header k stop).ReportsOnly {.unterminatedBlock} :=
  fun s => Moves.steps (runs_closeBlock o header k stop s)

/-- A round that adds no node goes on in the text. -/
theorem Skip.onward {atLimit : Bool} {ctx : Context} {region : Region}
    {a b : Progress × ParseState}
    (h : Skip atLimit ctx region a b) (hat : At text a.2) : Onward text a.2 b.2 := by
  cases h with
  | unavailable hchoice hreport =>
    have hlook := hat.looks hchoice.looks
    have hread := hlook.1.read
    exact hlook.trans (hread.trans (hread.1.run (reportsOnly_report (Set.mem_univ _) _ _) hreport))
  | tooDeep hchoice hlimit =>
    have hlook := hat.looks hchoice.looks
    have hreport := hlook.1.run (reportsOnly_reportLimit .rfl) hlimit
    exact hlook.trans (hreport.trans hreport.1.read)
  | unexpected hchoice hskip =>
    have hlook := hat.looks hchoice.looks
    have hread := hlook.1.read
    exact hlook.trans (hread.trans (hread.1.run (reportsOnly_skipUnexpected _ _) hskip))

theorem Skip.nodes_eq {atLimit : Bool} {ctx : Context} {region : Region}
    {a b : Progress × ParseState} (h : Skip atLimit ctx region a b) : b.1.nodes = a.1.nodes := by
  cases h <;> rfl

end Parser

end FourGL
