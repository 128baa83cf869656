import FourGL.Token.Scanner
import Mathlib.Data.List.Chain

/-!
# Tokens tile the text

A verbatim scanner hands out every character of the text in exactly one token. `Tiles pos cs ts`
says that the tokens `ts` cover the characters `cs`, the first of which stands at offset `pos`, from
left to right and end with the end of file; what is known about positions and texts of tokens is
read off such a tiling. The sorts of elements come first; their kinds tell trivia, other tokens and
the end of file apart.
-/

namespace FourGL

namespace Element

/-! ## Sorts of elements -/

/-- The pieces of trivia that a text can begin with. -/
inductive TriviaOf (c : Char) (cs : List Char) : Element → Prop where
  | lineBreak (hbreak : isLineBreak c = true) : TriviaOf c cs (lineBreak c cs)
  | blanks (hblank : isBlank c = true) : TriviaOf c cs (blanks cs)
  | blockComment (hbrace : c = '\x7b') : TriviaOf c cs (blockComment cs)
  | lineComment (hcomment : startsComment c cs = true) (hbrace : c ≠ '\x7b') :
      TriviaOf c cs (lineComment cs)

theorem triviaOf_of_trivia? {c : Char} {cs : List Char} {e : Element} (h : trivia? c cs = some e) :
    TriviaOf c cs e := by
  unfold trivia? at h
  split at h
  next hbreak => exact Option.some.inj h ▸ .lineBreak hbreak
  next =>
    split at h
    next hblank => exact Option.some.inj h ▸ .blanks hblank
    next =>
      split at h
      next hcomment =>
        obtain rfl := Option.some.inj h
        split
        next hbrace => exact .blockComment hbrace
        next hbrace => exact .lineComment hcomment hbrace
      next => cases h

theorem exists_numberOf {c : Char} {cs : List Char} {e : Element} (h : number? c cs = some e) :
    ∃ mantissa decimalPoint, e = numberOf mantissa decimalPoint cs := by
  unfold number? at h
  split at h
  · exact ⟨_, _, (Option.some.inj h).symm⟩
  · split at h
    · exact ⟨_, _, (Option.some.inj h).symm⟩
    · cases h

theorem exists_mark {c : Char} {cs : List Char} {e : Element} (h : mark? c cs = some e) :
    ∃ m more, e = { kind := .mark m, more } := by
  unfold mark? at h
  split at h
  · exact ⟨_, _, (Option.some.inj h).symm⟩
  · obtain ⟨m, -, rfl⟩ := Option.map_eq_some_iff.mp h
    exact ⟨m, 0, rfl⟩

/-- The element that a text without trivia begins with is of one of these sorts. -/
theorem significant_cases (c : Char) (cs : List Char) :
    (number? c cs = some (significant c cs)) ∨ (mark? c cs = some (significant c cs)) ∨
      ((c = '\'' ∨ c = '"') ∧ significant c cs = stringLiteral c cs) ∨
      (startsName c = true ∧ significant c cs = word c cs) ∨ significant c cs = unknown := by
  unfold significant
  split
  next hnumber => exact .inl hnumber
  next =>
    split
    next hmark => exact .inr (.inl hmark)
    next =>
      split
      next hquote => exact .inr (.inr (.inl ⟨hquote, rfl⟩))
      next =>
        split
        next hname => exact .inr (.inr (.inr (.inl ⟨hname, rfl⟩)))
        next => exact .inr (.inr (.inr (.inr rfl)))

/-- What holds of every sort of element holds of the one that a text without trivia begins with. -/
theorem significant_of_sorts {P : Element → Prop} {c : Char} {cs : List Char}
    (hnumber : ∀ mantissa decimalPoint, P (numberOf mantissa decimalPoint cs))
    (hmark : ∀ m more, P { kind := .mark m, more }) (hstring : P (stringLiteral c cs))
    (hword : P (word c cs)) (hunknown : P unknown) : P (significant c cs) := by
  obtain h | h | ⟨-, h⟩ | ⟨-, h⟩ | h := significant_cases c cs
  · obtain ⟨mantissa, decimalPoint, h⟩ := exists_numberOf h
    exact h ▸ hnumber mantissa decimalPoint
  · obtain ⟨m, more, h⟩ := exists_mark h
    exact h ▸ hmark m more
  · exact h ▸ hstring
  · exact h ▸ hword
  · exact h ▸ hunknown

/-! ## Lengths

No element reaches beyond the end of the text, so that `taken` and `behind` cut the text where the
element ends and nowhere else. -/

theorem digits_le (cs : List Char) : digits cs ≤ cs.length := (List.takeWhile_prefix _).length_le

theorem fraction_le (cs : List Char) : fraction cs ≤ cs.length := by
  unfold fraction
  split
  next cs =>
    split
    · exact Nat.zero_le _
    · exact Nat.succ_le_succ (digits_le cs)
  next => exact Nat.zero_le _

theorem exponent?_le {cs : List Char} (h : exponent? cs = some (length, n)) :
    length ≤ cs.length := by
  cases cs with
  | nil => cases h
  | cons c cs =>
    rw [exponent?] at h
    split at h
    next =>
      obtain ⟨rfl, -⟩ := Prod.mk.inj (Option.some.inj h)
      cases cs with
      | nil => exact Nat.le_refl 1
      | cons d cs =>
        -- A sign is taken from the text in front of the digits.
        split
        next =>
          have := digits_le cs
          rw [List.drop_succ_cons, List.drop_zero, List.length_cons, List.length_cons]
          omega
        next =>
          have := digits_le (d :: cs)
          rw [List.drop_zero, List.length_cons]
          omega
    next => cases h

theorem more_numberOf_le {mantissa : Nat} {cs : List Char} (h : mantissa ≤ cs.length)
    (decimalPoint : Bool) : (numberOf mantissa decimalPoint cs).more ≤ cs.length := by
  unfold numberOf
  split
  next => exact h
  next hexponent =>
    have hle := exponent?_le hexponent
    rw [List.length_drop] at hle
    dsimp only
    omega

theorem more_le_of_number? {c : Char} {cs : List Char} {e : Element} (h : number? c cs = some e) :
    e.more ≤ cs.length := by
  have hfraction := fraction_le (cs.drop (digits cs))
  have hdigits := digits_le cs
  rw [List.length_drop] at hfraction
  unfold number? at h
  split at h
  next => exact Option.some.inj h ▸ more_numberOf_le (by omega) _
  next =>
    split at h
    next => exact Option.some.inj h ▸ more_numberOf_le hdigits _
    next => cases h

theorem more_le_of_mark? {c : Char} {cs : List Char} {e : Element} (h : mark? c cs = some e) :
    e.more ≤ cs.length := by
  cases cs with
  | nil =>
    obtain ⟨m, -, rfl⟩ := Option.map_eq_some_iff.mp h
    exact Nat.le_refl 0
  | cons d cs =>
    unfold mark? at h
    split at h
    · obtain rfl := Option.some.inj h
      simp
    · obtain ⟨m, -, rfl⟩ := Option.map_eq_some_iff.mp h
      exact Nat.zero_le _

theorem stringTail_le (quote : Char) (cs : List Char) : (stringTail quote cs).1 ≤ cs.length := by
  fun_induction stringTail quote cs <;> simp_all

theorem more_le_significant (c : Char) (cs : List Char) :
    (significant c cs).more ≤ cs.length := by
  obtain h | h | ⟨-, h⟩ | ⟨-, h⟩ | h := significant_cases c cs
  · exact more_le_of_number? h
  · exact more_le_of_mark? h
  · exact h ▸ stringTail_le c cs
  · exact h ▸ (List.takeWhile_prefix _).length_le
  · exact h ▸ Nat.zero_le _

theorem more_le_of_trivia? {c : Char} {cs : List Char} {e : Element} (h : trivia? c cs = some e) :
    e.more ≤ cs.length := by
  have htake (p : Char → Bool) : (cs.takeWhile p).length ≤ cs.length :=
    (List.takeWhile_prefix p).length_le
  cases triviaOf_of_trivia? h with
  | lineBreak =>
    cases cs with
    | nil => simp [lineBreak]
    | cons d cs =>
      unfold lineBreak
      split <;> simp
  | blanks | lineComment => exact htake _
  | blockComment =>
    unfold blockComment
    dsimp only
    split
    next hclosed => exact hclosed
    next => exact htake _

/-! ## Kinds of elements -/

theorem kind_blockComment (cs : List Char) : (blockComment cs).kind = .comment := by
  unfold blockComment
  dsimp only
  split <;> rfl

theorem isTrivia_of_trivia? {c : Char} {cs : List Char} {e : Element}
    (h : trivia? c cs = some e) : e.kind.isTrivia = true := by
  cases triviaOf_of_trivia? h with
  | lineBreak | blanks | lineComment => rfl
  | blockComment => rw [kind_blockComment]; rfl

/-- The kind is neither that of trivia nor the end of file. -/
def IsSignificant (e : Element) : Prop := e.kind.isTrivia = false ∧ e.kind ≠ .endOfFile

theorem numberOf_kind (mantissa : Nat) (decimalPoint : Bool) (cs : List Char) :
    (numberOf mantissa decimalPoint cs).kind = .number := by
  unfold numberOf
  split <;> rfl

theorem isSignificant_word (c : Char) (cs : List Char) : (word c cs).IsSignificant := by
  unfold word IsSignificant
  dsimp only
  split <;> simp [Kind.isTrivia]

theorem isSignificant_significant (c : Char) (cs : List Char) :
    (significant c cs).IsSignificant := by
  refine significant_of_sorts (fun mantissa decimalPoint => ?_) (fun m more => ?_) ?_
    (isSignificant_word c cs) ?_
  · simp [IsSignificant, numberOf_kind, Kind.isTrivia]
  · exact ⟨rfl, Kind.noConfusion⟩
  · exact ⟨rfl, Kind.noConfusion⟩
  · exact ⟨rfl, Kind.noConfusion⟩

theorem ne_endOfFile_of_trivia? {c : Char} {cs : List Char} {e : Element}
    (h : trivia? c cs = some e) : e.kind ≠ .endOfFile := by
  intro hk
  have := isTrivia_of_trivia? h
  simp [hk, Kind.isTrivia] at this

end Element

/-! ## Scanning step by step -/

namespace Scanner

theorem all_eq (s : Scanner) :
    s.all = if s.next.1.token.kind = .endOfFile then [s.next.1] else s.next.1 :: s.next.2.all := by
  rw [all]

/-- What a verbatim scanner reads at the beginning of a text that is not empty. -/
def verbatimElement (c : Char) (cs : List Char) : Element :=
  (Element.trivia? c cs).getD (Element.significant c cs)

theorem verbatimElement_ne_endOfFile (c : Char) (cs : List Char) :
    (verbatimElement c cs).kind ≠ .endOfFile := by
  unfold verbatimElement
  cases h : Element.trivia? c cs with
  | some e => exact Element.ne_endOfFile_of_trivia? h
  | none => exact (Element.isSignificant_significant c cs).2

/-- One step of a verbatim scanner before the end of the text. -/
theorem next_verbatim_cons (pos : Nat) (c : Char) (cs : List Char) (pending : Bool) :
    ∃ flag pending',
      next ⟨.verbatim, pos, c :: cs, pending⟩ =
        (⟨(verbatimElement c cs).token flag pos c cs, (verbatimElement c cs).issues pos c cs⟩,
          ⟨.verbatim, pos + ((verbatimElement c cs).taken c cs).length,
            (verbatimElement c cs).behind cs, pending'⟩) := by
  unfold verbatimElement next
  cases h : Element.trivia? c cs with
  | some e => exact ⟨false, pending || e.hasLineBreak c cs, by simp [h]⟩
  | none => exact ⟨pending, false, by simp [h]⟩

theorem all_verbatim_nil (pos : Nat) (pending : Bool) :
    all ⟨.verbatim, pos, [], pending⟩ = [finish pos pending []] := by
  rw [all_eq]; rfl

end Scanner

/-! ## Tilings -/

/-- The tokens cover the characters from `pos` on without gap or overlap, each with its own text,
and the end of file comes last. -/
inductive Tiles : Nat → List Char → List Token → Prop where
  | endOfFile (pos : Nat) (flags : Flags) : Tiles pos [] [⟨.endOfFile, pos, pos, "", flags⟩]
  | token {t : Token} {cs : List Char} : t.kind ≠ .endOfFile → cs ≠ [] → t.start = pos →
      t.stop = pos + cs.length → t.text = String.ofList cs → Tiles (pos + cs.length) ds ts →
      Tiles pos (cs ++ ds) (t :: ts)

theorem Scanner.tiles_all (cs : List Char) (pos : Nat) (pending : Bool) :
    Tiles pos cs ((Scanner.all ⟨.verbatim, pos, cs, pending⟩).map (·.token)) := by
  match cs with
  | [] =>
    rw [all_verbatim_nil]
    exact .endOfFile ..
  | c :: cs =>
    obtain ⟨flag, pending', hnext⟩ := next_verbatim_cons pos c cs pending
    have hkind := verbatimElement_ne_endOfFile c cs
    rw [all_eq, hnext]
    dsimp only
    rw [if_neg (by exact hkind), List.map_cons, ← (verbatimElement c cs).taken_append_behind c cs]
    refine .token hkind (List.cons_ne_nil _ _) rfl rfl rfl ?_
    exact tiles_all ((verbatimElement c cs).behind cs) ..
termination_by cs.length
decreasing_by exact Nat.lt_succ_of_le (Element.length_behind_le _ cs)

theorem tiles_tokens_verbatim (text : String) : Tiles 0 text.toList (tokens .verbatim text) :=
  Scanner.tiles_all text.toList 0 false

namespace Tiles

theorem head?_start (h : Tiles pos cs ts) : ts.head?.map (·.start) = some pos := by
  cases h with
  | endOfFile => rfl
  | token _ _ hstart => simp [hstart]

theorem ne_nil (h : Tiles pos cs ts) : ts ≠ [] := by
  cases h <;> exact List.cons_ne_nil _ _

theorem isChain (h : Tiles pos cs ts) : ts.IsChain fun a b => b.start = a.stop := by
  induction h with
  | endOfFile => exact .singleton _
  | token _ _ _ hstop _ htail ih =>
    have hhead := htail.head?_start
    cases htail with
    | endOfFile => exact .cons_cons hstop.symm ih
    | token => exact .cons_cons (by simpa [hstop] using hhead) ih

theorem of_mem_dropLast (h : Tiles pos cs ts) {t : Token} (ht : t ∈ ts.dropLast) :
    t.start < t.stop ∧ t.kind ≠ .endOfFile := by
  induction h with
  | endOfFile => simp at ht
  | token hkind hne hstart hstop _ htail ih =>
    rw [List.dropLast_cons_of_ne_nil htail.ne_nil, List.mem_cons] at ht
    obtain rfl | ht := ht
    · have := List.length_pos_of_ne_nil hne
      exact ⟨by omega, hkind⟩
    · exact ih ht

theorem getLast? (h : Tiles pos cs ts) :
    ∃ flags, ts.getLast? = some ⟨.endOfFile, pos + cs.length, pos + cs.length,
      "", flags⟩ := by
  induction h with
  | endOfFile _ flags => exact ⟨flags, rfl⟩
  | token _ _ _ _ _ _ ih =>
    obtain ⟨flags, ih⟩ := ih
    exact ⟨flags, by simp [List.getLast?_cons, ih, Nat.add_assoc]⟩

/-- Each token holds what the text has between its start and its stop. -/
theorem text_of_mem (h : Tiles pos cs ts) {t : Token} (ht : t ∈ ts) :
    pos ≤ t.start ∧
      t.text.toList = (cs.drop (t.start - pos)).take (t.stop - t.start) := by
  induction h with
  | endOfFile =>
    obtain rfl := List.mem_singleton.mp ht
    simp
  | @token pos ds ts u cs _ _ hstart hstop htext _ ih =>
    obtain rfl | ht := List.mem_cons.mp ht
    · simp [hstart, hstop, htext]
    · obtain ⟨hle, ih⟩ := ih ht
      refine ⟨by omega, ?_⟩
      have hskip : cs.drop (t.start - pos) = [] := List.drop_eq_nil_of_le (by omega)
      rw [ih, List.drop_append, hskip, List.nil_append, Nat.sub_sub]

theorem flatMap_text (h : Tiles pos cs ts) : ts.flatMap (·.text.toList) = cs := by
  induction h with
  | endOfFile => rfl
  | token _ _ _ _ htext _ ih => simp [htext, ih]

end Tiles

/-- What it means that tokens hold a text completely: they stand one behind the other from its
beginning to its end, only the last is the end of file, and each has the text it covers. -/
structure CoversText (text : String) (ts : List Token) : Prop where
  first : ts.head?.map (·.start) = some 0
  adjacent : ts.IsChain fun a b => b.start = a.stop
  nonempty : ∀ t ∈ ts.dropLast, t.start < t.stop ∧ t.kind ≠ .endOfFile
  last : ∃ e, ts.getLast? = some e ∧ e.kind = .endOfFile ∧ e.start = text.length ∧
    e.stop = text.length
  text_eq : ∀ t ∈ ts, t.text.toList = (text.toList.drop t.start).take (t.stop - t.start)

theorem Tiles.coversText {text : String} (h : Tiles 0 text.toList ts) : CoversText text ts where
  first := h.head?_start
  adjacent := h.isChain
  nonempty _ ht := h.of_mem_dropLast ht
  last := by
    obtain ⟨flags, hlast⟩ := h.getLast?
    have hlength : 0 + text.toList.length = text.length := by
      rw [Nat.zero_add, String.length_toList]
    exact ⟨_, hlast, rfl, hlength, hlength⟩
  text_eq t ht := by simpa using (h.text_of_mem ht).2

/-- Scanning a text verbatim covers it completely, so the texts of the tokens together are the
text. -/
theorem tokens_verbatim_cover (text : String) :
    CoversText text (tokens .verbatim text) ∧
      String.join ((tokens .verbatim text).map (·.text)) = text := by
  have h := tiles_tokens_verbatim text
  refine ⟨h.coversText, String.toList_inj.mp ?_⟩
  rw [String.toList_join, List.flatMap_map]
  exact h.flatMap_text

end FourGL
