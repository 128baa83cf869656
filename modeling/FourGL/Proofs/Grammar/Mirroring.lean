import FourGL.Proofs.Grammar.Clean
import FourGL.Proofs.Tree.Shift

/-!
# Parsers side by side in a larger text

A text is read by itself and as the body of a function in a larger text, which goes on behind it
with END FUNCTION on a line of its own. As long as the text by itself is read without an error, and
the limit of nesting is not reached in the larger one, what is read in the larger text is the same
further to the right. Parsers `Mirrors` each other if this is so for them. Both texts come to an end
in different ways, but neither the end of file nor END starts or continues anything, so the parsers
decide alike there.
-/

namespace FourGL

open FourGL.Parser FourGL.ParseState

/-! ## Tokens of the larger text -/

/-- The same token further to the right; whether it begins a line may differ. -/
structure Token.Moved (k : Nat) (t u : Token) : Prop where
  kind_eq : u.kind = t.kind
  start_eq : u.start = t.start + k
  stop_eq : u.stop = t.stop + k
  text_eq : u.text = t.text
  unterminated_eq : u.flags.unterminated = t.flags.unterminated

namespace Token.Moved

theorem span_eq (h : Token.Moved k t u) : u.span = t.span.shift k := by
  rw [Token.span, Token.span, h.start_eq, h.stop_eq, Span.between_add]

theorem value_eq (h : Token.Moved k t u) : u.value = t.value := by
  simp only [Token.value, h.kind_eq, h.text_eq, h.unterminated_eq]

end Token.Moved

/-- The lexemes of a text and those of a larger text that are left where the same is left of both:
behind the text by itself is the end of file, in the larger text END FUNCTION comes first. Before
anything has been read it may be only in the larger text that the next token begins a line. -/
inductive Enclosed (k : Nat) : (begun : Bool) → List Lexeme → List Lexeme → Prop where
  | close {l e w f : Lexeme} (hl : l.token.kind = .endOfFile) (he : e.token.kind = .keyword .END)
      (hline : e.token.lineBreakBefore = true) (hw : w.token.kind = .keyword .FUNCTION)
      (hf : f.token.kind = .endOfFile)
        (hissues : ∀ m ∈ [e, w, f], Diagnostic.errorCount m.issues = 0) :
      Enclosed k begun [l] [e, w, f]
  | cons {l m : Lexeme} (hl : l.token.kind ≠ .endOfFile) (hmoved : l.token.Moved k m.token)
      (hline : begun = true → m.token.lineBreakBefore = l.token.lineBreakBefore)
      (hissues : Diagnostic.errorCount m.issues = 0) (htail : Enclosed k true ls ms) :
      Enclosed k begun (l :: ls) (m :: ms)

theorem ParseState.left_read (s : ParseState) : s.read.left = s.left - 1 := by
  unfold left
  rw [rest_read_eq, List.length_tail]

theorem ParseState.errorCount_read {s : ParseState} (hrest : s.input.rest = l :: ls) :
    s.read.errorCount = s.errorCount + Diagnostic.errorCount l.issues := by
  simp only [ParseState.errorCount, ParseState.read, Lookahead.advance, hrest]
  omega

namespace Enclosed

theorem head_cases (h : Enclosed k b ls ms) :
    (∃ l m ls' ms', ls = l :: ls' ∧ ms = m :: ms' ∧ l.token.kind ≠ .endOfFile ∧
      l.token.Moved k m.token ∧
      (b = true → m.token.lineBreakBefore = l.token.lineBreakBefore) ∧
      Diagnostic.errorCount m.issues = 0 ∧ Enclosed k true ls' ms') ∨
    (∃ l e w f, ls = [l] ∧ ms = [e, w, f] ∧ l.token.kind = .endOfFile ∧
      e.token.kind = .keyword .END ∧ e.token.lineBreakBefore = true ∧
      w.token.kind = .keyword .FUNCTION) := by
  cases h with
  | close hl he hline hw _ _ => exact .inr ⟨_, _, _, _, rfl, rfl, hl, he, hline, hw⟩
  | cons hl hmoved hline hissues htail =>
    exact .inl ⟨_, _, _, _, rfl, rfl, hl, hmoved, hline, hissues, htail⟩

theorem length_pos (h : Enclosed k b ls ms) : 0 < ls.length := by
  obtain ⟨_, _, _, _, rfl, -⟩ | ⟨_, _, _, _, rfl, -⟩ := h.head_cases <;> simp

theorem length_le (h : Enclosed k b ls ms) : ls.length ≤ ms.length := by
  induction h with
  | close => simp
  | cons _ _ _ _ _ ih => simpa using ih

theorem weaken (h : Enclosed k true ls ms) : Enclosed k b ls ms := by
  cases h with
  | close hl he hline hw hf hissues => exact .close hl he hline hw hf hissues
  | cons hl hmoved hline hissues htail =>
    exact .cons hl hmoved (fun _ => hline rfl) hissues htail

end Enclosed

/-- The names that a text declares for itself are declared for the block in the larger text. -/
structure Names.Moved (k : Nat) (n m : Names) : Prop where
  block_eq : m.block = n.snippet.shift k
  loops_eq : m.loops = n.loops.map (·.shift k)

/-- States that have come equally far in a text and in a larger text, both without an error. -/
structure Mirrored (k : Nat) (begun : Bool) (s u : ParseState) : Prop where
  rest : Enclosed k begun s.input.rest u.input.rest
  last : begun = true → s.input.last.Moved k u.input.last
  errors_eq : s.errorCount = 0
  errors_eq' : u.errorCount = 0
  limit_eq : s.limitReported = false
  limit_eq' : u.limitReported = false
  names : s.names.Moved k u.names

namespace Mirrored

variable {k : Nat} {b : Bool}

theorem left_pos (h : Mirrored k b s u) : 0 < s.left := h.rest.length_pos

theorem looks (h : Mirrored k b s u) (hs : Looks s t) (hu : Looks u v) : Mirrored k b t v := by
  obtain ⟨_, -, rfl⟩ := hs
  obtain ⟨_, -, rfl⟩ := hu
  exact { h with }

theorem weaken (h : Mirrored k true s u) : Mirrored k b s u :=
  { h with rest := h.rest.weaken, last := fun _ => h.last rfl }

/-- The next tokens correspond, or the text by itself is at its end. -/
theorem next_token (h : Mirrored k b s u) :
    (1 < s.left ∧ s.kindAt 1 ≠ .endOfFile ∧
      (s.input.tokenAt 1).Moved k (u.input.tokenAt 1) ∧
      (b = true → (u.input.tokenAt 1).lineBreakBefore = (s.input.tokenAt 1).lineBreakBefore)) ∨
    (s.left = 1 ∧ s.kindAt 1 = .endOfFile ∧ u.kindAt 1 = .keyword .END ∧
      (u.input.tokenAt 1).lineBreakBefore = true) := by
  obtain ⟨l, m, ls, ms, hs, hu, hl, hmoved, hline, -, htail⟩ |
      ⟨l, e, w, f, hs, hu, hl, he, hline, -⟩ :=
    h.rest.head_cases
  · left
    have hpos := htail.length_pos
    simp only [ParseState.left, kindAt, Lookahead.tokenAt, hs, hu, List.length_cons]
    exact ⟨by omega, hl, hmoved, hline⟩
  · right
    simp only [ParseState.left, kindAt, Lookahead.tokenAt, hs, hu]
    exact ⟨rfl, hl, he, hline⟩

/-- So do the tokens behind the next ones, which stand on the same lines. -/
theorem second_token (h : Mirrored k b s u) (hleft : 1 < s.left) :
    (2 < s.left ∧ s.kindAt 2 ≠ .endOfFile ∧
      (s.input.tokenAt 2).Moved k (u.input.tokenAt 2) ∧
      (u.input.tokenAt 2).lineBreakBefore = (s.input.tokenAt 2).lineBreakBefore) ∨
    (s.left = 2 ∧ s.kindAt 2 = .endOfFile ∧ u.kindAt 2 = .keyword .END ∧
      (u.input.tokenAt 2).lineBreakBefore = true) := by
  obtain ⟨l, m, ls, ms, hs, hu, -, -, -, -, htail⟩ | ⟨l, e, w, f, hs, -⟩ :=
    h.rest.head_cases
  · simp only [ParseState.left, kindAt, Lookahead.tokenAt, hs, hu, List.length_cons]
    obtain ⟨l, m, ls, ms, rfl, rfl, hl, hmoved, hline, -, htail⟩ |
      ⟨l, e, w, f, rfl, rfl, hl, he, hline, -⟩ := htail.head_cases
    · have hpos := htail.length_pos
      exact .inl ⟨by simp only [List.length_cons]; omega, hl, hmoved, hline rfl⟩
    · exact .inr ⟨rfl, hl, he, hline⟩
  · simp [ParseState.left, hs] at hleft

theorem second_kind_of_end (h : Mirrored k b s u) (hleft : s.left = 1) :
    s.kindAt 2 = .endOfFile ∧ u.kindAt 2 = .keyword .FUNCTION := by
  obtain ⟨l, m, ls, ms, hs, -, -, -, -, -, htail⟩ | ⟨l, e, w, f, hs, hu, -, -, -, hw⟩ :=
    h.rest.head_cases
  · have hpos := htail.length_pos
    simp only [ParseState.left, hs, List.length_cons] at hleft
    omega
  · simp only [kindAt, Lookahead.tokenAt, hs, hu]
    exact ⟨rfl, hw⟩

theorem lt_left (h : Mirrored k b s u) (hkind : s.kindAt 1 ≠ .endOfFile) : 1 < s.left :=
  (h.next_token.resolve_right fun hend => hkind hend.2.1).1

theorem lt_left_of_second (h : Mirrored k b s u) (hkind : s.kindAt 2 ≠ .endOfFile) :
    2 < s.left := by
  have hpos := h.left_pos
  by_cases hleft : s.left = 1
  · exact absurd (h.second_kind_of_end hleft).1 hkind
  · exact ((h.second_token (by omega)).resolve_right fun hend => hkind hend.2.1).1

/-- The larger text is not at its end. -/
theorem kind_ne_endOfFile (h : Mirrored k b s u) : u.kindAt 1 ≠ .endOfFile := by
  obtain ⟨-, hkind, hmoved, -⟩ | ⟨-, -, hkind, -⟩ := h.next_token
  · exact fun hend => hkind (hmoved.kind_eq.symm.trans hend)
  · rw [hkind]
    exact Kind.noConfusion

/-- Where the text by itself is at its end, END FUNCTION is left of the larger text. -/
theorem rest_of_end (h : Mirrored k b s u) (hend : s.kindAt 1 = .endOfFile) :
    ∃ e w f : Lexeme, u.input.rest = [e, w, f] ∧ f.token.kind = .endOfFile ∧
      ∀ m ∈ [e, w, f], Diagnostic.errorCount m.issues = 0 := by
  generalize hls : s.input.rest = ls, hms : u.input.rest = ms, h.rest = hrest
  cases hrest with
  | close _ _ _ _ hf hissues => exact ⟨_, _, _, rfl, hf, hissues⟩
  | cons hl => simp [kindAt, Lookahead.tokenAt, hls, hl] at hend

/-- Both read the next token, where the text by itself has one without an error. -/
theorem read (h : Mirrored k b s u) (hleft : 1 < s.left)
    (herrors : s.read.errorCount = s.errorCount) :
    Mirrored k true s.read u.read := by
  obtain ⟨l, m, ls, ms, hs, hu, hl, hmoved, hline, hissues, htail⟩ | ⟨l, e, w, f, hs, -⟩ :=
    h.rest.head_cases
  · refine { h with rest := ?_, last := fun _ => ?_, errors_eq := herrors.trans h.errors_eq,
                    errors_eq' := ?_ }
    · rwa [rest_read_eq, rest_read_eq, hs, hu]
    · rw [last_read, last_read]
      simpa [Lookahead.tokenAt, hs, hu] using hmoved
    · rw [errorCount_read hu, hissues, h.errors_eq']
  · simp [ParseState.left, hs] at hleft

end Mirrored

namespace Parser

/-- Wherever the parser of the text by itself runs without an error from mirrored states with more
than `n` lexemes left, the parser of the larger text runs to a mirrored state, with the result that
`σ` gives, unless the limit of nesting is reached. -/
def Mirrors (k : Nat) (b : Bool) (n : Nat) (σ : α → β) (p : Parser α) (q : Parser β) :
    Prop :=
  ∀ ⦃s u a t⦄, Mirrored k b s u → n < s.left → p.Clean s a t →
    (q.run u).2.limitReported = false → (q.run u).1 = σ a ∧ Mirrored k b t (q.run u).2

/-- Reaching the limit of nesting is never taken back. -/
theorem limitReported_before (hlater : Later s t) (h : t.limitReported = false) :
    s.limitReported = false := by
  cases hlimit : s.limitReported with
  | false => rfl
  | true => rw [hlater.limitReported hlimit] at h; cases h

namespace Mirrors

variable {k : Nat} {b : Bool} {p : Parser α} {q : Parser β} {f : α → Parser γ}
    {g : β → Parser δ}

theorem mono (h : Mirrors k b m σ p q) (hle : m ≤ n) : Mirrors k b n σ p q :=
  fun _ _ _ _ hmirrored hleft => h hmirrored (Nat.lt_of_le_of_lt hle hleft)

theorem of_not_clean (h : ∀ s a t, ¬ p.Clean s a t) : Mirrors k b n σ p q :=
  fun _ _ _ _ _ _ hclean => absurd hclean (h _ _ _)

theorem pure {σ : α → β} (h : σ x = y) : Mirrors k b n σ (pure x) (pure y) := by
  intro s u a t hmirrored _ hclean _
  obtain ⟨rfl, rfl⟩ := hclean.of_pure
  exact ⟨h.symm, hmirrored⟩

theorem option {p : Parser (Option α)} (h : Mirrors k b n id p p) :
    Mirrors k b n (Option.map id) p p := by rwa [Option.map_id]

/-- What is known of the result of the first parser, and of how much is left behind it, may be used
in the second. -/
theorem bindKnown {P : α → Prop} [p.Flows] (m : α → Nat) (hp : Mirrors k b n σ p q)
    (hm : ∀ {s a t u}, n < s.left → Mirrored k b t u → p.Clean s a t → P a ∧ m a < t.left)
    (hf : ∀ a, P a → Mirrors k b (m a) τ (f a) (g (σ a)))
    [F : ∀ a, (f a).Flows] [G : ∀ c, (g c).Flows] :
    Mirrors k b n τ (p >>= f) (q >>= g) := by
  intro s u c t hmirrored hleft hclean hlimit
  obtain ⟨a, s', hfirst, hrest⟩ := hclean.bind
  obtain ⟨heq, hmirrored'⟩ := hp hmirrored hleft hfirst
    (limitReported_before (Flows.flows inferInstance _).later hlimit)
  obtain ⟨ha, hleft'⟩ := hm hleft hmirrored' hfirst
  rw [run_bind, heq] at hlimit ⊢
  exact hf a ha hmirrored' hleft' hrest hlimit

/-- What is known of how much is left behind the first parser may be used in the second. -/
theorem bindAhead [p.Flows] (m : α → Nat) (hp : Mirrors k b n σ p q)
    (hm : ∀ {s a t u}, n < s.left → Mirrored k b t u → p.run s = (a, t) → m a < t.left)
    (hf : ∀ a, Mirrors k b (m a) τ (f a) (g (σ a)))
    [F : ∀ a, (f a).Flows] [G : ∀ c, (g c).Flows] :
    Mirrors k b n τ (p >>= f) (q >>= g) :=
  hp.bindKnown m (P := fun _ => True)
    (fun hleft hmirrored hclean => ⟨trivial, hm hleft hmirrored hclean.run_eq⟩) fun a _ => hf a

theorem bind [p.Flows] (hp : Mirrors k b n σ p q) (hf : ∀ a, Mirrors k b 0 τ (f a) (g (σ a)))
    [F : ∀ a, (f a).Flows] [G : ∀ c, (g c).Flows] :
    Mirrors k b n τ (p >>= f) (q >>= g) :=
  hp.bindAhead (fun _ => 0) (fun _ h _ => h.left_pos) hf

/-- What reads nothing leaves as much as there was. -/
theorem still [p.Flows] (hp : Mirrors k b n σ p q) (hleft : ∀ s, (p.run s).2.left = s.left)
    (hf : ∀ a, Mirrors k b n τ (f a) (g (σ a)))
    [F : ∀ a, (f a).Flows] [G : ∀ c, (g c).Flows] :
    Mirrors k b n τ (p >>= f) (q >>= g) := by
  refine hp.bindAhead (fun _ => n) (fun {s a t u} hlt _ hrun => ?_) hf
  rwa [← show (p.run s).2 = t from congrArg Prod.snd hrun, hleft]

/-- Behind what both read alike. -/
theorem past {p : Parser α} {q : Parser α} {f : α → Parser γ} {g : α → Parser δ} [p.Flows]
    (hp : Mirrors k b n id p q) (hf : ∀ a, Mirrors k b 0 τ (f a) (g a))
    [F : ∀ a, (f a).Flows] [G : ∀ c, (g c).Flows] :
    Mirrors k b n τ (p >>= f) (q >>= g) := bind hp hf

/-- Only the results that a clean run can have matter. -/
theorem bindOf {P : α → Prop} [p.Flows] (hP : ∀ {s a t}, p.Clean s a t → P a)
    (hp : Mirrors k b n σ p q) (hf : ∀ a, P a → Mirrors k b 0 τ (f a) (g (σ a)))
    [F : ∀ a, (f a).Flows] [G : ∀ c, (g c).Flows] :
    Mirrors k b n τ (p >>= f) (q >>= g) :=
  hp.bindKnown (fun _ => 0) (fun _ hmirrored hclean => ⟨hP hclean, hmirrored.left_pos⟩) hf

section

variable {p : Parser (Option α)} {q : Parser (Option β)} {f : Option α → Parser γ}
  {g : Option β → Parser δ} {σ : α → β} [p.Flows] [∀ a, (f (some a)).Flows]
    [(f none).Flows]
  [∀ c, (g (some c)).Flows] [(g none).Flows]

/-- Behind what may have been found. -/
theorem foundAhead (m : α → Nat) (hp : Mirrors k b n (Option.map σ) p q)
    (hm : ∀ {s a t u}, n < s.left → Mirrored k b t u → p.run s = (some a, t) → m a < t.left)
    (hsome : ∀ a, Mirrors k b (m a) τ (f (some a)) (g (some (σ a))))
    (hnone : Mirrors k b 0 τ (f none) (g none)) : Mirrors k b n τ (p >>= f) (q >>= g) := by
  have : ∀ a, (f a).Flows := fun | none | some _ => inferInstance
  have : ∀ c, (g c).Flows := fun | none | some _ => inferInstance
  refine hp.bindAhead (·.elim 0 m) (fun {s a t u} hleft hmirrored hrun => ?_) fun
    | none => hnone
    | some a => hsome a
  cases a with
  | none => exact hmirrored.left_pos
  | some a => exact hm hleft hmirrored hrun

theorem found (hp : Mirrors k b n (Option.map σ) p q)
    (hsome : ∀ a, Mirrors k b 0 τ (f (some a)) (g (some (σ a))))
    (hnone : Mirrors k b 0 τ (f none) (g none)) : Mirrors k b n τ (p >>= f) (q >>= g) :=
  hp.foundAhead (fun _ => 0) (fun _ h _ => h.left_pos) hsome hnone

end

/-- Behind an error that is reported nothing has to be shown. -/
theorem reportNext {m : Message} {f : Unit → Parser α} {q : Parser β} (hm : m.severity = .error)
    [F : ∀ a, (f a).Flows] :
    Mirrors k b n σ (reportNext m args >>= f) q := by
  refine of_not_clean fun s a t h => ?_
  obtain ⟨_, _, hreport, -⟩ := h.bind
  exact Clean.not_reportNext hm hreport

theorem ite {c : Prop} [Decidable c] {p' : Parser α} {q' : Parser β} (hp : Mirrors k b n σ p q)
    (hp' : Mirrors k b n σ p' q') :
    Mirrors k b n σ (if c then p else p') (if c then q else q') := by
  split
  · exact hp
  · exact hp'

theorem map {σ : α → β} {h : α → γ} {h' : β → δ} {τ : γ → δ} [p.Flows]
    (hp : Mirrors k b n σ p q)
    (heq : ∀ a, h' (σ a) = τ (h a)) : Mirrors k b n τ (h <$> p) (h' <$> q) := by
  change Mirrors k b n τ (p >>= fun a => Pure.pure (h a)) (q >>= fun c => Pure.pure (h' c))
  exact bind hp fun a => .pure (heq a).symm

theorem mapSome [p.Flows] (hp : Mirrors k b n σ p q) :
    Mirrors k b n (Option.map σ) (some <$> p) (some <$> q) := hp.map fun _ => rfl

theorem nested [p.Flows] [q.Flows] (hp : Mirrors k b n σ p q) :
    Mirrors k b n σ (nested p) (nested q) := by
  intro s u a t hmirrored hleft hclean hlimit
  obtain ⟨s', t', hs, hclean, ht⟩ := hclean.of_nested
  have hmirrored' := hmirrored.looks hs (looks_nesting u u.nesting.enter)
  obtain ⟨heq, hmirrored''⟩ :=
    hp hmirrored' (by unfold left; rw [hs.rest]; exact hleft) hclean hlimit
  exact ⟨heq, hmirrored''.looks ht (looks_nesting _ _)⟩

/-! ## Reading -/

theorem ahead {depth : Nat} {f : Token → Parser γ} {g : Token → Parser δ}
    (hf : ∀ {s u c t}, Mirrored k b s u → n < s.left →
      (f (s.input.tokenAt depth)).Clean s c t →
      ((g (u.input.tokenAt depth)).run u).2.limitReported = false →
      ((g (u.input.tokenAt depth)).run u).1 = τ c ∧
        Mirrored k b t ((g (u.input.tokenAt depth)).run u).2) :
    Mirrors k b n τ (peekAt depth >>= f) (peekAt depth >>= g) := by
  intro s u c t hmirrored hleft hclean hlimit
  obtain ⟨a, s', hpeek, hlook, hclean⟩ := hclean.behind_look (peeks_peekAt depth)
  obtain rfl : s'.input.tokenAt depth = a := tokenAt_of_peekAt hpeek
  exact hf (hmirrored.looks hlook (looks_inspect u depth))
    (by unfold left; rw [hlook.rest]; exact hleft)
    hclean hlimit

/-- A token is read, and there is one. -/
theorem next {f : Token → Parser γ} {g : Token → Parser δ}
    (hf : ∀ t u, t.Moved k u → Mirrors k true n τ (f t) (g u))
    [F : ∀ a, (f a).Flows] :
    Mirrors k true (n + 1) τ (next >>= f) (next >>= g) := by
  intro s u c t hmirrored hleft hclean hlimit
  obtain ⟨a, s', hnext, hclean⟩ := hclean.bind
  obtain ⟨rfl, rfl⟩ := Prod.mk.inj hnext.run_eq
  have hread := hmirrored.read (by omega) hnext.errors_eq
  refine hf _ _ (hread.last rfl) hread ?_ hclean hlimit
  rw [left_read]
  omega

theorem last {f : Token → Parser γ} {g : Token → Parser δ}
    (hf : ∀ t u, t.Moved k u → Mirrors k true n τ (f t) (g u)) :
    Mirrors k true n τ (last >>= f) (last >>= g) := by
  intro s u c t hmirrored hleft hclean hlimit
  exact hf _ _ (hmirrored.last rfl) hmirrored hleft ⟨hclean.run_eq, hclean.errors_eq⟩ hlimit

/-! ## Looking ahead -/

/-- What is seen ahead may also tell how much is left. -/
theorem looking {f : α → Parser γ} {g : β → Parser δ} {σ : α → β}
    (m : α → Nat) (hp : p.Peeks)
    (hq : q.Peeks) (h : ∀ {s u}, Mirrored k b s u → n < s.left →
      (q.run u).1 = σ (p.run s).1 ∧ m (p.run s).1 < s.left)
    (hf : ∀ a, Mirrors k b (m a) τ (f a) (g (σ a))) : Mirrors k b n τ (p >>= f) (q >>= g) := by
  intro s u c t hmirrored hleft hclean hlimit
  obtain ⟨heq, hm⟩ := h hmirrored hleft
  obtain ⟨a, s', hrun, hlook, hclean⟩ := hclean.behind_look hp
  rw [hrun] at heq hm
  rw [run_bind, heq] at hlimit ⊢
  refine hf a (hmirrored.looks hlook (hq u)) ?_ hclean hlimit
  rwa [left, hlook.rest]

theorem peek {f : Token → Parser γ} {g : Token → Parser δ}
    (hf : ∀ t u, t.Moved k u → (b = true → u.lineBreakBefore = t.lineBreakBefore) →
      t.kind ≠ .endOfFile → Mirrors k b 1 τ (f t) (g u))
    (hend : ∀ t u, t.kind = .endOfFile → u.kind = .keyword .END → u.lineBreakBefore = true →
      Mirrors k b 0 τ (f t) (g u)) : Mirrors k b 0 τ (peek >>= f) (peek >>= g) := by
  refine ahead fun {s u} _ _ hmirrored hleft hclean hlimit => ?_
  obtain ⟨hlt, hkind, hmoved, hline⟩ | ⟨-, hkind, hkind', hline⟩ := hmirrored.next_token
  · exact hf _ _ hmoved hline hkind hmirrored hlt hclean hlimit
  · exact hend _ _ hkind hkind' hline hmirrored hleft hclean hlimit

theorem peekKind {f : Kind → Parser γ} {g : Kind → Parser δ}
    (hf : ∀ c, c ≠ .endOfFile → Mirrors k b 1 τ (f c) (g c))
    (hend : Mirrors k b 0 τ (f .endOfFile) (g (.keyword .END))) :
    Mirrors k b 0 τ (peekKind >>= f) (peekKind >>= g) := by
  refine peek (f := fun t => f t.kind) (g := fun t => g t.kind) (fun t u hmoved _ hkind => ?_)
    fun t u hkind hkind' _ => ?_
  · rw [hmoved.kind_eq]
    exact hf _ hkind
  · rw [hkind, hkind']
    exact hend

/-- The next token, where there is one. -/
theorem peekNext {f : Token → Parser γ} {g : Token → Parser δ}
    (hf : ∀ t u, t.Moved k u → (b = true → u.lineBreakBefore = t.lineBreakBefore) →
      t.kind ≠ .endOfFile → Mirrors k b 1 τ (f t) (g u)) :
    Mirrors k b 1 τ (Parser.peek >>= f) (Parser.peek >>= g) := by
  refine ahead fun {s u} _ _ hmirrored hleft hclean hlimit => ?_
  obtain ⟨hlt, hkind, hmoved, hline⟩ | ⟨hend, -⟩ := hmirrored.next_token
  · exact hf _ _ hmoved hline hkind hmirrored hlt hclean hlimit
  · exact absurd hend (Nat.ne_of_gt hleft)

/-- The token behind the next one, where there is a next one. -/
theorem second {f : Token → Parser γ} {g : Token → Parser δ}
    (hf : ∀ t u, t.Moved k u → u.lineBreakBefore = t.lineBreakBefore →
      t.kind ≠ .endOfFile → Mirrors k b 2 τ (f t) (g u))
    (hend : ∀ t u, t.kind = .endOfFile → u.kind = .keyword .END → u.lineBreakBefore = true →
      Mirrors k b 1 τ (f t) (g u)) : Mirrors k b 1 τ (peekAt 2 >>= f) (peekAt 2 >>= g) := by
  refine ahead fun {s u} _ _ hmirrored hleft hclean hlimit => ?_
  obtain ⟨hlt, hkind, hmoved, hline⟩ | ⟨-, hkind, hkind', hline⟩ :=
    hmirrored.second_token hleft
  · exact hf _ _ hmoved hline hkind hmirrored hlt hclean hlimit
  · exact hend _ _ hkind hkind' hline hmirrored hleft hclean hlimit

end Mirrors

/-! ## Loops -/

section

variable {k : Nat} {b : Bool} {guard : σ → Parser (β ⊕ γ)}
    {guard' : σ' → Parser (β' ⊕ γ')}
  {body : σ → γ → Parser σ} {body' : σ' → γ' → Parser σ'} {atEnd : β} {atEnd' : β'}

theorem later_loop (hguard : ∀ a s, Later s ((guard a).run s).2)
    [hbody : ∀ a g, (body a g).Flows] (a : σ) (s : ParseState) :
    Later ((guard a).run s).2 ((loop atEnd guard body a).run s).2 := by
  induction a, s using loopFrom.induct guard body with
  | case1 a s stop t h =>
    rw [run_loop_stop h, h]
    exact .refl t
  | case2 a s g t h hrest =>
    rw [run_loop_cut h hrest, h]
    exact .refl t
  | case3 a s g t h l ls hrest r ih =>
    rw [run_loop_round h (by simp [hrest]), h]
    exact (Later.read t).trans (((hbody a g).flows _).later.trans ((hguard _ _).trans ih))

/-- Loops that end with a value as `P` says lead to mirrored states, if their guards stop them
alike, and otherwise a round that adds no error has a counterpart. In all such rounds `I` holds of
the value. -/
theorem mirrored_loop (hlater : ∀ a s, Later s ((guard a).run s).2)
    (hlater' : ∀ a s, Later s ((guard' a).run s).2)
    [∀ a g, (body a g).Flows] [∀ a g, (body' a g).Flows] {I : σ → Prop}
    {P : σ × β → Prop}
    {φ : σ → σ'} {ψ : β → β'}
    (huncut : ∀ {a s g t}, (guard a).run s = (.inr g, t) → t.input.rest ≠ [])
    (hstop : ∀ {a s u stop t}, I a → P (a, stop) → Mirrored k b s u →
      (guard a).Clean s (.inl stop) t → ((guard' (φ a)).run u).2.limitReported = false →
      ((guard' (φ a)).run u).1 = .inl (ψ stop) ∧ Mirrored k b t ((guard' (φ a)).run u).2)
    (hround : ∀ {a s u g t c v}, I a → Mirrored k b s u → (guard a).Clean s (.inr g) t →
      t.read.errorCount = t.errorCount → (body a g).Clean t.read c v →
      ((guard' (φ a)).run u).2.limitReported = false → I c ∧
      ∃ g' u', (guard' (φ a)).run u = (.inr g', u') ∧ u'.input.rest ≠ [] ∧
        (((body' (φ a) g').run u'.read).2.limitReported = false →
          ((body' (φ a) g').run u'.read).1 = φ c ∧
            Mirrored k true v ((body' (φ a) g').run u'.read).2))
    {a : σ} (ha : I a) (hmirrored : Mirrored k b s u)
    (hclean : (loop atEnd guard body a).Clean s r t)
    (hP : P r) (hlimit : ((loop atEnd' guard' body' (φ a)).run u).2.limitReported = false) :
    ((loop atEnd' guard' body' (φ a)).run u).1 = Prod.map φ ψ r ∧
      Mirrored k b t ((loop atEnd' guard' body' (φ a)).run u).2 := by
  have hrun : loopFrom atEnd guard body a s = (r, t) := hclean.run_eq
  have herrors := hclean.errors_eq
  clear hclean
  induction a, s using loopFrom.induct guard body generalizing u with
  | case1 a s stop t' hguard =>
    have hloop : (loop atEnd guard body a).run s = _ := run_loop_stop hguard
    obtain ⟨rfl, rfl⟩ := Prod.mk.inj (hloop.symm.trans hrun)
    obtain ⟨heq, hmirrored'⟩ := hstop ha hP hmirrored ⟨hguard, herrors⟩
      (limitReported_before (later_loop hlater' (φ a) u) hlimit)
    rw [run_loop_stop (Prod.ext heq rfl)]
    exact ⟨rfl, hmirrored'⟩
  | case2 a s g t' hguard hnil => exact absurd hnil (huncut hguard)
  | case3 a s g t' hguard l ls hrest c =>
    rename_i ih
    have hloop : (loop atEnd guard body c.1).run c.2 = (r, t) :=
      (run_loop_round hguard (by simp [hrest])).symm.trans hrun
    -- All parts of the round are clean, because errors only grow.
    have hle : s.errorCount ≤ t'.errorCount := by
      have h := (hlater a s).errorCount_le
      rwa [hguard] at h
    have hle₁ := (Later.read t').errorCount_le
    have hle₂ : t'.read.errorCount ≤ c.2.errorCount :=
      (Flows.flows (p := body a g) inferInstance _).later.errorCount_le
    have hloopLater : Later c.2 ((loop atEnd guard body c.1).run c.2).2 :=
      (hlater _ _).trans (later_loop hlater _ _)
    rw [hloop] at hloopLater
    have hle₃ : c.2.errorCount ≤ t.errorCount := hloopLater.errorCount_le
    obtain ⟨hc, g', u', hguard', hrest', hmirror⟩ := hround (c := c.1) (v := c.2) ha hmirrored
      ⟨hguard, by omega⟩ (by omega) ⟨rfl, by omega⟩
      (limitReported_before (later_loop hlater' (φ a) u) hlimit)
    rw [run_loop_round hguard' hrest'] at hlimit ⊢
    obtain ⟨heq, hmirrored'⟩ := hmirror (limitReported_before
      ((hlater' _ _).trans (later_loop hlater' _ _)) hlimit)
    rw [heq] at hlimit ⊢
    exact ih hc hmirrored'.weaken hlimit hloop (by omega)

/-- Loops mirror each other if their guards do and their rounds do, which may use that `m g + 1`
lexemes are left besides the end of file where the guard has found `g`. -/
theorem Mirrors.loop [∀ a, (guard a).Flows] [∀ a, (guard' a).Flows]
    [∀ a g, (body a g).Flows] [∀ a g, (body' a g).Flows] {φ : σ → σ'} {ψ : β → β'}
    {ω : γ → γ'}
    (m : γ → Nat) (hguard : ∀ a, Mirrors k b 0 (Sum.map ψ ω) (guard a) (guard' (φ a)))
    (hahead : ∀ {a s g t}, (guard a).run s = (.inr g, t) → t.kindAt 1 ≠ .endOfFile ∧
      ∀ {u}, Mirrored k b t u → m g + 1 < t.left)
    (hbody : ∀ a g, Mirrors k true (m g) φ (body a g) (body' (φ a) (ω g))) (a : σ) :
    Mirrors k b 0 (Prod.map φ ψ) (loop atEnd guard body a) (loop atEnd' guard' body' (φ a)) := by
  intro s u r t hmirrored _ hclean hlimit
  refine mirrored_loop (I := fun _ => True) (P := fun _ => True)
    (fun a s => (Flows.flows inferInstance s).later)
    (fun a s => (Flows.flows inferInstance s).later) (fun h => rest_ne_nil (hahead h).1)
    (fun _ _ hmirrored hclean hlimit => hguard _ hmirrored hmirrored.left_pos hclean hlimit)
    (fun {a s u g t c v} _ hmirrored hclean hread hbodyClean hlimit =>
      ⟨trivial, ω g, ((guard' (φ a)).run u).2, ?_⟩) trivial hmirrored hclean trivial hlimit
  obtain ⟨heq, hmirrored'⟩ := hguard _ hmirrored hmirrored.left_pos hclean hlimit
  have hleft := (hahead hclean.run_eq).2 hmirrored'
  refine ⟨Prod.ext heq rfl, ?_, fun hlimit' => ?_⟩
  · exact rest_ne_nil (hmirrored'.kind_ne_endOfFile)
  · refine hbody a g (hmirrored'.read (by omega) hread) ?_ hbodyClean hlimit'
    rw [ParseState.left_read]
    omega

/-- The same of loops that go on as long as they find something to do. -/
theorem mirrored_whileNext {guard : σ → Parser (Option γ)}
    {guard' : σ' → Parser (Option γ')} [∀ a, (guard a).Flows] [∀ a, (guard' a).Flows]
    [∀ a g, (body a g).Flows] [∀ a g, (body' a g).Flows] {P : σ → Prop} {φ : σ → σ'}
    {ω : γ → γ'}
    (huncut : ∀ {a s g t}, (guard a).run s = (some g, t) → t.kindAt 1 ≠ .endOfFile)
    (hguard : ∀ {a s u found t}, (found = none → P a) → Mirrored k b s u →
      (guard a).Clean s found t → ((guard' (φ a)).run u).2.limitReported = false →
      ((guard' (φ a)).run u).1 = found.map ω ∧ Mirrored k b t ((guard' (φ a)).run u).2)
    (hbody : ∀ a g, Mirrors k true 0 φ (body a g) (body' (φ a) (ω g)))
    (hmirrored : Mirrored k b s u) (hclean : (whileNext guard body a).Clean s c t) (hP : P c)
    (hlimit : ((whileNext guard' body' (φ a)).run u).2.limitReported = false) :
    ((whileNext guard' body' (φ a)).run u).1 = φ c ∧
      Mirrored k b t ((whileNext guard' body' (φ a)).run u).2 := by
  have hfound {a : σ} {s t : ParseState} {r : Unit ⊕ γ}
      (h : (do return (← guard a).elim (Sum.inl ()) Sum.inr : Parser (Unit ⊕ γ)).Clean s r t) :
      ∃ found, r = found.elim (.inl ()) .inr ∧ (guard a).Clean s found t := by
    obtain ⟨found, t', hguard, hresult⟩ := run_of_bind h.run_eq
    obtain ⟨rfl, rfl⟩ := Prod.mk.inj hresult
    exact ⟨found, rfl, hguard, h.errors_eq⟩
  obtain ⟨r, t', hloop, hclean⟩ := hclean.bind
  obtain ⟨rfl, rfl⟩ := hclean.of_pure
  have hloop' := mirrored_loop (I := fun _ => True) (P := fun r : σ × Unit => P r.1)
      (φ := φ) (ψ := id)
    (fun a s => (Flows.flows inferInstance s).later)
      (fun a s => (Flows.flows inferInstance s).later)
    (fun {a s g t} hrun => ?_) (fun {a s u stop t} _ hP hmirrored hclean hlimit => ?_)
    (fun {a s u g t c v} _ hmirrored hclean hread hbodyClean hlimit => ⟨trivial, ?_⟩)
      trivial hmirrored
    hloop hP hlimit
  · exact ⟨congrArg Prod.fst hloop'.1, hloop'.2⟩
  · obtain ⟨found, t', hg, hresult⟩ := run_of_bind hrun
    obtain ⟨hfound, rfl⟩ := Prod.mk.inj hresult
    cases found with
    | none => cases hfound
    | some _ => exact rest_ne_nil (huncut hg)
  · obtain ⟨found, hstop, hclean⟩ := hfound hclean
    cases found with
    | some _ => cases hstop
    | none =>
      obtain ⟨heq, hmirrored'⟩ := hguard (fun _ => hP) hmirrored hclean hlimit
      exact ⟨congrArg (·.elim (Sum.inl ()) Sum.inr) heq, hmirrored'⟩
  · obtain ⟨found, hgo, hclean⟩ := hfound hclean
    cases found with
    | none => cases hgo
    | some g' =>
      obtain rfl := Sum.inr.inj hgo
      have hne : some g = none → P a := nofun
      obtain ⟨heq, hmirrored'⟩ := hguard hne hmirrored hclean hlimit
      refine ⟨ω g, _, Prod.ext (congrArg (·.elim (Sum.inl ()) Sum.inr) heq) rfl,
        rest_ne_nil hmirrored'.kind_ne_endOfFile, fun hlimit' => ?_⟩
      have hread' := hmirrored'.read (hmirrored'.lt_left (huncut hclean.run_eq)) hread
      exact hbody a g hread' hread'.left_pos hbodyClean hlimit'

theorem Mirrors.whileNext {guard : σ → Parser (Option γ)} {guard' : σ' → Parser (Option γ')}
    [∀ a, (guard a).Flows] [∀ a, (guard' a).Flows]
    [∀ a g, (body a g).Flows] [∀ a g, (body' a g).Flows] {φ : σ → σ'} {ω : γ → γ'}
    (m : γ → Nat) (hguard : ∀ a, Mirrors k b 0 (Option.map ω) (guard a) (guard' (φ a)))
    (hahead : ∀ {a s g t}, (guard a).run s = (some g, t) → t.kindAt 1 ≠ .endOfFile ∧
      ∀ {u}, Mirrored k b t u → m g + 1 < t.left)
    (hbody : ∀ a g, Mirrors k true (m g) φ (body a g) (body' (φ a) (ω g))) (a : σ) :
    Mirrors k b 0 φ (whileNext guard body a) (whileNext guard' body' (φ a)) := by
  refine bind (loop (φ := φ) (ψ := id) (ω := ω) m (fun a => bind (hguard a) fun found => ?_)
    (fun h => ?_) hbody a) fun _ => .pure rfl
  · cases found <;> exact .pure rfl
  · obtain ⟨found, u, hrun, hresult⟩ := run_of_bind h
    obtain ⟨hfound, rfl⟩ := Prod.mk.inj hresult
    cases found with
    | none => cases hfound
    | some g' => exact Sum.inr.inj hfound ▸ hahead hrun

end

/-! ## Tokens that may or must follow -/

section

variable {k : Nat} {b : Bool}

/-- Whether a token of a kind follows; where it does, the text goes on. -/
theorem Mirrors.ifNext {f : Bool → Parser α} {g : Bool → Parser β}
    (hc : c ≠ .endOfFile ∧ c ≠ .keyword .END)
    (htrue : Mirrors k b 1 τ (f true) (g true)) (hfalse : Mirrors k b 0 τ (f false) (g false)) :
    Mirrors k b 0 τ (nextIs c >>= f) (nextIs c >>= g) := by
  refine peekKind (f := fun x => f (x == c)) (g := fun x => g (x == c)) (fun x _ => ?_) ?_
  · cases x == c with
    | true => exact htrue
    | false => exact hfalse.mono (Nat.zero_le 1)
  · rw [beq_false_of_ne hc.1.symm, beq_false_of_ne hc.2.symm]
    exact hfalse

/-- Whether a token of a kind comes behind the next one. -/
theorem Mirrors.ifSecond {f : Bool → Parser α} {g : Bool → Parser β}
    (hc : c ≠ .endOfFile ∧ c ≠ .keyword .END)
    (htrue : Mirrors k b 2 τ (f true) (g true)) (hfalse : Mirrors k b 1 τ (f false) (g false)) :
    Mirrors k b 1 τ (secondIs c >>= f) (secondIs c >>= g) := by
  refine second (f := fun t => f (t.kind == c)) (g := fun t => g (t.kind == c))
    (fun t u hmoved _ _ => ?_) fun t u hkind hkind' _ => ?_
  · rw [hmoved.kind_eq]
    cases t.kind == c with
    | true => exact htrue
    | false => exact hfalse.mono (Nat.le_succ 1)
  · rw [hkind, hkind', beq_false_of_ne hc.1.symm, beq_false_of_ne hc.2.symm]
    exact hfalse

/-- Whether tokens of two kinds follow; where they do, the text goes on behind both. -/
theorem Mirrors.ifNextAre {f : Bool → Parser α} {g : Bool → Parser β}
    (hc : c ≠ .endOfFile ∧ c ≠ .keyword .END) (hd : d ≠ .endOfFile ∧ d ≠ .keyword .END)
    (htrue : Mirrors k b 2 τ (f true) (g true)) (hfalse : Mirrors k b 0 τ (f false) (g false)) :
    Mirrors k b 0 τ (nextAre c d >>= f) (nextAre c d >>= g) :=
  ifNext (f := fun x => (if x then secondIs d else return false) >>= f)
    (g := fun x => (if x then secondIs d else return false) >>= g) hc
    (ifSecond hd htrue (hfalse.mono (Nat.zero_le 1))) hfalse

theorem peeks_nextAre (c d : Kind) : (nextAre c d).Peeks :=
  .bind (.bind peeks_peekKind fun _ => .pure _) fun _ => .ite (peeks_secondIs d) (.pure _)

theorem run_nextAre (c d : Kind) (s : ParseState) :
    ((nextAre c d).run s).1 = (s.kindAt 1 == c && s.kindAt 2 == d) := by
  obtain ⟨found, t, hfirst⟩ : ∃ found t, (nextIs c).run s = (found, t) := ⟨_, _, rfl⟩
  have hfound : found = (s.kindAt 1 == c) := (Prod.mk.inj hfirst).1.symm
  have hlook : Looks s t := Peeks.of_run (.bind peeks_peekKind fun _ => .pure _) hfirst
  rw [nextAre, both, run_bind, hfirst, ← hfound]
  cases found with
  | true => exact congrArg (· == d) (hlook.kindAt 2)
  | false => rfl

/-- Whether the text ends a block of its own with a word. END FUNCTION is behind the text. -/
theorem Mirrors.ifClosing {f : Bool → Parser α} {g : Bool → Parser β}
    (hc : c ≠ .endOfFile ∧ c ≠ .keyword .END ∧ c ≠ .keyword .FUNCTION)
    (htrue : Mirrors k b 2 τ (f true) (g true)) (hfalse : Mirrors k b 0 τ (f false) (g false)) :
    Mirrors k b 0 τ (nextAre (.keyword .END) c >>= f) (nextAre (.keyword .END) c >>= g) := by
  refine looking (σ := id) (fun found => if found then 2
    else 0) (peeks_nextAre _ c) (peeks_nextAre _ c)
    (fun {s u} hmirrored hleft => ?_) fun found => ?_
  · rw [run_nextAre, run_nextAre]
    obtain ⟨hlt, -, hmoved, -⟩ | ⟨hend, hkind, -⟩ := hmirrored.next_token
    · rw [show u.kindAt 1 = s.kindAt 1 from hmoved.kind_eq]
      obtain ⟨hlt', -, hmoved, -⟩ | ⟨-, hkind, hkind', -⟩ := hmirrored.second_token hlt
      · rw [show u.kindAt 2 = s.kindAt 2 from hmoved.kind_eq]
        refine ⟨rfl, ?_⟩
        split <;> omega
      · rw [hkind, hkind', beq_false_of_ne hc.1.symm, beq_false_of_ne hc.2.1.symm, Bool.and_false]
        exact ⟨rfl, hleft⟩
    · rw [(hmirrored.second_kind_of_end hend).2, hkind,
        beq_false_of_ne hc.2.2.symm, Bool.and_false]
      exact ⟨rfl, hleft⟩
  · cases found with
    | true => exact htrue
    | false => exact hfalse

theorem mirrors_nextIs (hc : c ≠ .endOfFile ∧ c ≠ .keyword .END) :
    Mirrors k b 0 id (nextIs c) (nextIs c) :=
  .ifNext (f := pure) (g := pure) hc (.pure rfl) (.pure rfl)

theorem mirrors_optional (hc : c ≠ .endOfFile ∧ c ≠ .keyword .END) :
    Mirrors k true 0 id (optional c) (optional c) :=
  .ifNext hc (.next fun _ _ _ => .pure rfl) (.pure rfl)

theorem mirrors_expect (hc : c ≠ .endOfFile ∧ c ≠ .keyword .END) :
    Mirrors k true 0 id (expect c) (expect c) := by
  refine .past (mirrors_optional hc) fun found => ?_
  cases found with
  | true => exact .pure rfl
  | false => exact .reportNext rfl

/-- Where a token has to follow it does. -/
theorem Mirrors.expect {f : Bool → Parser α} {g : Bool → Parser β}
    (hc : c ≠ .endOfFile ∧ c ≠ .keyword .END) (hf : Mirrors k true 0 τ (f true) (g true))
    [F : ∀ a, (f a).Flows] [G : ∀ c, (g c).Flows] :
    Mirrors k true 0 τ (expect c >>= f) (expect c >>= g) :=
  .bindOf (fun hclean => hclean.of_expect.1) (mirrors_expect hc) (fun _ h => h ▸ hf)

theorem mirrors_both {c : Kind} {p q : Parser Bool} [p.Flows] [q.Flows]
    (hc : c ≠ .endOfFile ∧ c ≠ .keyword .END) (hp : Mirrors k b 1 id p q) :
    Mirrors k b 0 id (both (nextIs c) p) (both (nextIs c) q) := .ifNext hc hp (.pure rfl)

theorem mirrors_when {p q : Parser Bool} [p.Flows] [q.Flows] (hp : Mirrors k b n id p q) :
    Mirrors k b n (Option.map id) (when p) (when q) := .bind hp fun _ =>
      .ite (.pure rfl) (.pure rfl)

/-- A keyword or a name is behind the next token. -/
theorem mirrors_nextBeforeName (hc : c ≠ .endOfFile ∧ c ≠ .keyword .END) :
    Mirrors k b 0 id (nextBeforeName c) (nextBeforeName c) := by
  refine mirrors_both hc (.second (fun t u hmoved _ _ => .pure ?_)
    fun t u hkind hkind' _ => .pure ?_)
  · rw [hmoved.kind_eq]
    rfl
  · rw [hkind, hkind']
    rfl

/-- A name and where it stands, in the larger text. -/
abbrev shiftNamed (k : Nat) : String × Span → String × Span := Prod.map id (·.shift k)

theorem mirrors_name? : Mirrors k true 0 (Option.map (shiftNamed k)) name? name? := by
  refine .peek (fun t u hmoved _ _ => ?_) fun t u hkind hkind' _ => ?_
  · rw [hmoved.kind_eq]
    refine .ite (.next fun _ _ _ => .pure ?_) (.pure rfl)
    rw [hmoved.text_eq, hmoved.span_eq]
    rfl
  · rw [hkind, hkind']
    exact .pure rfl

theorem mirrors_expectName : Mirrors k true 0 (Option.map (shiftNamed k)) expectName expectName :=
  .found mirrors_name? (fun _ => .pure rfl) (.reportNext rfl)

theorem mirrors_expectNameText : Mirrors k true 0 id expectNameText expectNameText :=
  .bind mirrors_expectName fun name => .pure (by cases name <;> rfl)

theorem mirrors_lastStop : Mirrors k true n (· + k) lastStop lastStop :=
  .last fun _ _ hmoved => .pure hmoved.stop_eq.symm

theorem mirrors_spanFrom (start : Nat) :
    Mirrors k true n (·.shift k) (spanFrom start) (spanFrom (start + k)) :=
  .bind mirrors_lastStop fun stop => .pure (by rw [Nat.add_max_add_right, Span.between_add])

end

/-! ## Lists -/

section

variable {k : Nat} {σ : α → α'} {item : Parser (Option α)}
    {item' : Parser (Option α')} [item.Flows]
  [item'.Flows]

theorem mirrors_commaTail (h : Mirrors k true 0 (Option.map σ) item item') (as : List α) :
    Mirrors k true 0 (List.map σ) (commaTail item as) (commaTail item' (as.map σ)) := by
  refine .bind (.whileNext (φ := Prod.map (List.map σ) id) (ω := id) (fun _ => 0) (fun a => ?_)
    (fun hfound => ?_) (fun a _ => ?_) (as, true)) fun _ => .pure rfl
  · obtain ⟨as, goesOn⟩ := a
    cases goesOn with
    | true => exact mirrors_when (mirrors_nextIs (by decide))
    | false => exact .pure rfl
  · have hkind : _ ≠ Kind.endOfFile :=
      ne_of_eq_of_ne (commaFollows_found hfound) Kind.noConfusion
    exact ⟨hkind, fun h => h.lt_left hkind⟩
  · exact .found h (fun _ => .pure (by simp)) (.pure rfl)

theorem mirrors_commaList (h : Mirrors k true 0 (Option.map σ) item item') :
    Mirrors k true 0 (List.map σ) (commaList item) (commaList item') :=
  .found h (fun a => mirrors_commaTail h [a]) (.pure rfl)

end

end Parser

end FourGL
