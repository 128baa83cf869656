import FourGL.Completion.InsertionPoint
import FourGL.Proofs.Token.Spelling

/-!
# Texts that are cut

A scanner looks at most two characters beyond the end of a token: an element of a text is found
again in every text that shares with it the characters which the element takes and two more
(`verbatimElement_of_samePrefix`). So where a text is cut, the tokens that end at least two
characters before the cut stay what they are (`tokens_take`), and what stands before an insertion
point is what parsing sees there (`InsertionPoint.tokens_before_cursor`).
-/

namespace FourGL

/-- The two texts begin with the same `n` characters, or are the same if they are shorter. -/
def SamePrefix (n : Nat) (cs ds : List Char) : Prop := ds.take n = cs.take n

namespace SamePrefix

theorem mono (h : SamePrefix n cs ds) (hle : m ≤ n) : SamePrefix m cs ds := by
  have htake := congrArg (List.take m) h
  rwa [List.take_take, List.take_take, Nat.min_eq_left hle] at htake

theorem drop (h : SamePrefix n cs ds) (m : Nat) : SamePrefix (n - m) (cs.drop m) (ds.drop m) := by
  have hdrop := congrArg (List.drop m) h
  rwa [List.drop_take, List.drop_take] at hdrop

theorem of_nil (h : SamePrefix (n + 1) [] ds) : ds = [] := by
  cases ds with
  | nil => rfl
  | cons d ds => cases h

theorem of_cons (h : SamePrefix (n + 1) (c :: cs) ds) :
    ∃ ds', ds = c :: ds' ∧ SamePrefix n cs ds' := by
  cases ds with
  | nil => cases h
  | cons d ds =>
    obtain ⟨rfl, htail⟩ := List.cons.inj h
    exact ⟨ds, rfl, htail⟩

theorem head?_eq (h : SamePrefix (n + 1) cs ds) : ds.head? = cs.head? := by
  cases cs with
  | nil => rw [h.of_nil]
  | cons c cs =>
    obtain ⟨ds', rfl, -⟩ := h.of_cons
    rfl

theorem takeWhile_eq {p : Char → Bool} (h : SamePrefix ((cs.takeWhile p).length + 1) cs ds) :
    ds.takeWhile p = cs.takeWhile p := by
  induction cs generalizing ds with
  | nil => rw [h.of_nil]
  | cons c cs ih =>
    obtain ⟨ds, rfl, htail⟩ := h.of_cons
    rw [List.takeWhile_cons] at htail
    rw [List.takeWhile_cons, List.takeWhile_cons]
    split
    next hc =>
      rw [if_pos hc] at htail
      rw [ih htail]
    next => rfl

end SamePrefix

namespace Element

/-! ## Trivia -/

theorem blockComment_of_samePrefix (h : SamePrefix ((blockComment cs).more + 1) cs ds) :
    blockComment ds = blockComment cs := by
  -- Where no brace closes the comment it takes all of the text, so that the other text is the same.
  by_cases hclosed : (cs.takeWhile (· != '\x7d')).length < cs.length
  · have hmore : (blockComment cs).more = (cs.takeWhile (· != '\x7d')).length + 1 := by
      rw [blockComment, if_pos hclosed]
    have htake := (h.mono (by omega)).takeWhile_eq (p := (· != '\x7d'))
    have hlength := congrArg List.length
        (h.mono (m := (cs.takeWhile (· != '\x7d')).length + 1) (by omega))
    rw [List.length_take, List.length_take] at hlength
    rw [blockComment, blockComment, htake, if_pos hclosed, if_pos (by omega)]
  · have hmore : (blockComment cs).more = (cs.takeWhile (· != '\x7d')).length := by
      rw [blockComment, if_neg hclosed]
    have hlength := (List.takeWhile_prefix (· != '\x7d') (l := cs)).length_le
    have hds : ds = cs := by
      have htake : ds.take (cs.length + 1) = cs.take (cs.length + 1) := h.mono (by omega)
      rw [List.take_of_length_le (Nat.le_succ _)] at htake
      have := congrArg List.length htake
      rw [List.length_take] at this
      rwa [List.take_of_length_le (by omega)] at htake
    rw [hds]

theorem trivia?_of_samePrefix (htrivia : trivia? c cs = some e)
    (h : SamePrefix (e.more + 1) cs ds) :
    trivia? c ds = some e := by
  have hhead := h.head?_eq
  unfold trivia? at htrivia ⊢
  split at htrivia
  next hbreak =>
    obtain rfl := Option.some.inj htrivia
    rw [if_pos hbreak, lineBreak, lineBreak, hhead]
  next hbreak =>
    rw [if_neg hbreak]
    split at htrivia
    next hblank =>
      obtain rfl := Option.some.inj htrivia
      rw [if_pos hblank, blanks, blanks, h.takeWhile_eq]
    next hblank =>
      rw [if_neg hblank]
      split at htrivia
      next hcomment =>
        have hcomment' : startsComment c ds = true := by
          rwa [startsComment, hhead, ← startsComment]
        obtain rfl := Option.some.inj htrivia
        rw [if_pos hcomment']
        split
        next hbrace =>
          rw [if_pos hbrace] at h
          rw [blockComment_of_samePrefix h]
        next hbrace =>
          rw [if_neg hbrace] at h
          rw [lineComment, lineComment, h.takeWhile_eq]
      next => cases htrivia

theorem trivia?_none_of_samePrefix (htrivia : trivia? c cs = none) (h : SamePrefix 1 cs ds) :
    trivia? c ds = none := by
  have hcomment : startsComment c ds = startsComment c cs := by
    rw [startsComment, startsComment, h.head?_eq]
  rw [trivia?_eq_none_iff] at htrivia ⊢
  rwa [hcomment]

/-! ## Numbers -/

theorem digits_of_samePrefix (h : SamePrefix (digits cs + 1) cs ds) : digits ds = digits cs :=
  congrArg List.length h.takeWhile_eq

/-- The character behind a decimal point tells whether it is one. -/
theorem fraction_of_samePrefix (h : SamePrefix (fraction cs + 2) cs ds) :
    fraction ds = fraction cs := by
  cases cs with
  | nil => rw [h.of_nil]
  | cons c cs =>
    obtain ⟨ds, rfl, htail⟩ := h.of_cons
    by_cases hdot : c = '.'
    · subst hdot
      rw [fraction] at htail
      rw [fraction, fraction, htail.head?_eq]
      split
      · rfl
      next hmember =>
        rw [if_neg hmember] at htail
        rw [digits_of_samePrefix (htail.mono (by omega))]
    · have hnone (cs : List Char) : fraction (c :: cs) = 0 :=
        fraction_eq_zero (.cons (by simpa using hdot) cs)
      rw [hnone, hnone]

theorem exponent?_of_samePrefix (h : SamePrefix (exponentLength cs + 1) cs ds) :
    exponent? ds = exponent? cs := by
  cases cs with
  | nil => rw [h.of_nil]
  | cons c cs =>
    obtain ⟨ds, rfl, htail⟩ := h.of_cons
    rw [exponentLength, exponent?_cons] at htail
    rw [exponent?_cons, exponent?_cons]
    split
    next hletter =>
      rw [if_pos hletter, Option.map_some, Option.getD_some] at htail
      have hsign : signLength ds = signLength cs := by
        rw [signLength, signLength, (htail.mono (m := 1) (by omega)).head?_eq]
      have hdigits := digits_of_samePrefix ((htail.drop (signLength cs)).mono (by omega))
      rw [hsign, hdigits]
    next => rfl

theorem numberOf_of_samePrefix (h : SamePrefix ((numberOf mantissa point cs).more + 1) cs ds) :
    numberOf mantissa point ds = numberOf mantissa point cs := by
  rw [numberOf_more] at h
  rw [numberOf, numberOf, exponent?_of_samePrefix ((h.drop mantissa).mono (by omega))]

theorem number?_of_samePrefix (hnumber : number? c cs = some e)
    (h : SamePrefix (e.more + 2) cs ds) :
    number? c ds = some e := by
  unfold number? at hnumber ⊢
  split at hnumber
  next hdigit =>
    obtain rfl := Option.some.inj hnumber
    have hmore := numberOf_more (digits cs + fraction (cs.drop (digits cs)))
      (0 < fraction (cs.drop (digits cs))) cs
    have hdigits := digits_of_samePrefix (h.mono (by omega))
    have hfraction := fraction_of_samePrefix ((h.drop (digits cs)).mono (by omega))
    rw [if_pos hdigit, hdigits]
    dsimp only
    rw [hfraction, numberOf_of_samePrefix (h.mono (by omega))]
  next hdigit =>
    rw [if_neg hdigit]
    split at hnumber
    next hpoint =>
      obtain rfl := Option.some.inj hnumber
      have hmore := numberOf_more (digits cs) true cs
      have hdigits := digits_of_samePrefix (h.mono (by omega))
      rw [hdigits, if_pos hpoint, numberOf_of_samePrefix (h.mono (by omega))]
    next => cases hnumber

theorem number?_none_of_samePrefix (hnumber : number? c cs = none) (h : SamePrefix 1 cs ds) :
    number? c ds = none := by
  unfold number? at hnumber ⊢
  split at hnumber
  next => cases hnumber
  next hdigit =>
    rw [if_neg hdigit]
    split at hnumber
    next => cases hnumber
    next hpoint =>
      refine if_neg fun hpoint' => hpoint ⟨hpoint'.1, Nat.pos_of_ne_zero fun hzero => ?_⟩
      have hdigits := digits_of_samePrefix (h.mono (by omega))
      exact absurd hpoint'.2 (by omega)

/-! ## Other tokens -/

theorem mark?_of_samePrefix (h : SamePrefix 1 cs ds) : mark? c ds = mark? c cs := by
  rw [mark?, mark?, h.head?_eq]

theorem stringTail_of_samePrefix (hquote : quote ≠ '\\')
    (h : SamePrefix ((stringTail quote cs).1 + 1) cs ds) :
    stringTail quote ds = stringTail quote cs := by
  fun_induction stringTail quote cs generalizing ds with
  | case1 =>
    rw [h.of_nil]
    rfl
  | case2 c cs hbreak =>
    obtain ⟨ds, rfl, htail⟩ := h.of_cons
    obtain ⟨ds, rfl, -⟩ := htail.of_cons
    rw [stringTail, if_pos hbreak]
  | case3 c cs hbreak n closed heq ih =>
    obtain ⟨ds, rfl, htail⟩ := h.of_cons
    obtain ⟨ds, rfl, hrest⟩ := htail.of_cons
    rw [heq] at ih
    rw [stringTail, if_neg hbreak, ih hrest]
  | case4 cs =>
    obtain ⟨ds, rfl, -⟩ := h.of_cons
    rw [stringTail_cons hquote, if_pos rfl]
  | case5 c cs hpattern hc hbreak =>
    obtain ⟨ds, rfl, -⟩ := h.of_cons
    have hne : c ≠ '\\' := by
      rintro rfl
      exact absurd hbreak (by decide)
    rw [stringTail_cons hne, if_neg hc, if_pos hbreak]
  | case6 c cs hpattern hc hbreak n closed heq ih =>
    obtain ⟨ds, rfl, htail⟩ := h.of_cons
    rw [heq] at ih
    have hlast : c = '\\' → ds = [] := by
      intro hslash
      cases cs with
      | nil => exact htail.of_nil
      | cons d cs => exact (hpattern d cs hslash rfl).elim
    rw [stringTail, if_neg hc, if_neg hbreak, ih htail]
    intro d ds' hslash hds
    cases (hlast hslash).symm.trans hds

theorem stringLiteral_of_samePrefix (hquote : quote ≠ '\\')
    (h : SamePrefix ((stringLiteral quote cs).more + 1) cs ds) :
    stringLiteral quote ds = stringLiteral quote cs := by
  rw [stringLiteral, stringLiteral, stringTail_of_samePrefix hquote h]

theorem word_of_samePrefix (h : SamePrefix ((word c cs).more + 1) cs ds) :
    word c ds = word c cs := by
  rw [word_eq] at h
  rw [word_eq, word_eq, h.takeWhile_eq]

theorem significant_of_samePrefix (h : SamePrefix ((significant c cs).more + 2) cs ds) :
    significant c ds = significant c cs := by
  have hone : SamePrefix 1 cs ds := h.mono (by omega)
  unfold significant at h ⊢
  cases hnumber : number? c cs with
  | some e =>
    rw [hnumber] at h
    rw [number?_of_samePrefix hnumber h]
  | none =>
    rw [hnumber] at h
    rw [number?_none_of_samePrefix hnumber hone, mark?_of_samePrefix hone]
    cases hmark : mark? c cs with
    | some e => rfl
    | none =>
      rw [hmark] at h
      dsimp only at h ⊢
      split
      next hquote =>
        rw [if_pos hquote] at h
        refine stringLiteral_of_samePrefix ?_ (h.mono (Nat.le_succ _))
        rintro rfl
        exact absurd hquote (by decide)
      next hquote =>
        rw [if_neg hquote] at h
        split
        next hname =>
          rw [if_pos hname] at h
          exact word_of_samePrefix (h.mono (Nat.le_succ _))
        next => rfl

end Element

namespace Scanner

/-- A verbatim scanner finds an element again where the text goes on with the same characters up to
two behind the element. -/
theorem verbatimElement_of_samePrefix (h : SamePrefix ((verbatimElement c cs).more + 2) cs ds) :
    Element.trivia? c ds = Element.trivia? c cs ∧
    verbatimElement c ds = verbatimElement c cs := by
  unfold verbatimElement at h ⊢
  cases htrivia : Element.trivia? c cs with
  | some e =>
    rw [htrivia] at h
    rw [Element.trivia?_of_samePrefix htrivia (h.mono (Nat.le_succ _))]
    exact ⟨rfl, rfl⟩
  | none =>
    rw [htrivia] at h
    rw [Element.trivia?_none_of_samePrefix htrivia (h.mono (by omega))]
    exact ⟨rfl, Element.significant_of_samePrefix h⟩

end Scanner

/-! ## Scanning up to a cut -/

/-- The tokens that end at least two characters before the offset `n`, the end of file left out. -/
def endedBefore (n : Nat) (ts : List Token) : List Token :=
  ts.filter fun t => t.kind ≠ .endOfFile ∧ t.stop + 2 ≤ n

theorem endedBefore_cons_congr (t : Token) (h : endedBefore n ts = endedBefore n us) :
    endedBefore n (t :: ts) = endedBefore n (t :: us) := by
  unfold endedBefore at h ⊢
  rw [List.filter_cons, List.filter_cons, h]

theorem endedBefore_cons_of_lt {t : Token} (h : n < t.stop + 2) (ts : List Token) :
    endedBefore n (t :: ts) = endedBefore n ts :=
  List.filter_cons_of_neg (by simp; omega)

/-- The tokens of a text that starts too far behind end too far behind. -/
theorem Tiles.endedBefore_eq_nil (h : Tiles pos cs ts) (hpos : n < pos + 2) :
    endedBefore n ts = [] := by
  induction h with
  | endOfFile => exact List.filter_cons_of_neg (by simp)
  | token _ _ _ hstop _ _ ih => rw [endedBefore_cons_of_lt (by omega), ih (by omega)]

namespace Scanner

theorem endedBefore_all_of_lt (s : Scanner) (hmode : s.mode = .verbatim) (h : n < s.pos + 2) :
    endedBefore n (s.all.map (·.token)) = [] := by
  obtain ⟨mode, pos, cs, pending⟩ := s
  obtain rfl := hmode
  exact (tiles_all cs pos pending).endedBefore_eq_nil h

section

variable (pos : Nat) (c : Char) (cs : List Char) (pending : Bool)

/-- A verbatim scanner behind the element with which the text begins. -/
def behindFirst : Scanner where
  mode := .verbatim
  pos := pos + ((verbatimElement c cs).taken c cs).length
  rest := (verbatimElement c cs).behind cs
  breakPending :=
    (Element.trivia? c cs).isSome && (pending || (verbatimElement c cs).hasLineBreak c cs)

theorem all_verbatim_cons : (all ⟨.verbatim, pos, c :: cs, pending⟩).map (·.token) =
    (verbatimElement c cs).token ((Element.trivia? c cs).isNone && pending) pos c cs ::
      (behindFirst pos c cs pending).all.map (·.token) := by
  unfold behindFirst verbatimElement
  cases h : Element.trivia? c cs with
  | some e =>
    rw [all_verbatim_trivia h]
    rfl
  | none =>
    rw [all_verbatim_significant h]
    rfl

/-- Where an element reaches up to the last character of a text, no token ends before that. -/
theorem endedBefore_all_of_reaches (hlength : k ≤ cs.length)
    (h : k ≤ (verbatimElement c cs).more + 1) :
    endedBefore (pos + (k + 1)) ((all ⟨.verbatim, pos, c :: cs, pending⟩).map (·.token)) =
    [] := by
  have htaken : k ≤ ((verbatimElement c cs).taken c cs).length := by
    simp only [Element.taken, List.length_cons, List.length_take]
    omega
  rw [all_verbatim_cons, endedBefore_cons_of_lt (by simp only [Element.token]; omega)]
  exact endedBefore_all_of_lt _ rfl (by simp only [behindFirst]; omega)

/-- An element that ends before the cut, and the scanner behind it, are the same in the text that is
cut. -/
theorem first_take (h : (verbatimElement c cs).more + 2 ≤ k) :
    Element.trivia? c (cs.take k) = Element.trivia? c cs ∧
      (∀ flag, (verbatimElement c (cs.take k)).token flag pos c (cs.take k) =
        (verbatimElement c cs).token flag pos c cs) ∧
      behindFirst pos c (cs.take k) pending = { behindFirst pos c cs pending with
        rest := (behindFirst pos c cs pending).rest.take (k - (verbatimElement c cs).more) } := by
  have hcut : SamePrefix k cs (cs.take k) := List.take_take.trans (by rw [Nat.min_self])
  obtain ⟨htrivia, helement⟩ := verbatimElement_of_samePrefix (hcut.mono h)
  have htaken : (verbatimElement c cs).taken c (cs.take k) = (verbatimElement c cs).taken c cs := by
    rw [Element.taken, List.take_take, Nat.min_eq_left (by omega), ← Element.taken]
  refine ⟨htrivia, fun flag => ?_, ?_⟩
  · rw [helement, Element.token, htaken, ← Element.token]
  · simp only [behindFirst, helement, htrivia, htaken, Element.hasLineBreak, Element.behind,
      List.drop_take]

end

/-- Cutting a text changes no token that ends at least two characters before the cut. -/
theorem endedBefore_all_take (k pos : Nat) (cs : List Char) (pending : Bool) :
    endedBefore (pos + k) ((all ⟨.verbatim, pos, cs.take k, pending⟩).map (·.token)) =
      endedBefore (pos + k) ((all ⟨.verbatim, pos, cs, pending⟩).map (·.token)) := by
  match k, cs with
  | k, [] => rw [List.take_nil]
  | 0, c :: cs => rw [endedBefore_all_of_lt _ rfl (by simp), endedBefore_all_of_lt _ rfl (by simp)]
  | k + 1, c :: cs =>
    rw [List.take_succ_cons]
    by_cases hlength : cs.length < k
    · rw [List.take_of_length_le (Nat.le_of_lt hlength)]
    by_cases hfull : (verbatimElement c cs).more + 2 ≤ k
    · obtain ⟨htrivia, htoken, hbehind⟩ := first_take pos c cs pending hfull
      rw [all_verbatim_cons, all_verbatim_cons, htrivia, htoken, hbehind]
      refine endedBefore_cons_congr _ ?_
      have hrest := endedBefore_all_take (k - (verbatimElement c cs).more)
        (behindFirst pos c cs pending).pos ((verbatimElement c cs).behind cs)
        (behindFirst pos c cs pending).breakPending
      have hcut : (behindFirst pos c cs pending).pos + (k - (verbatimElement c cs).more) =
          pos + (k + 1) := by
        simp only [behindFirst, Element.taken, List.length_cons, List.length_take]
        omega
      rwa [hcut] at hrest
    · -- Then the element reaches up to the cut in the text that is cut as well.
      have hlast : k ≤ (verbatimElement c (cs.take k)).more + 1 := by
        by_contra hlast
        have hcut : SamePrefix k (cs.take k) cs :=
          (List.take_take.trans (by rw [Nat.min_self])).symm
        have helement := (verbatimElement_of_samePrefix (c := c) (hcut.mono (by omega))).2
        rw [← helement] at hlast
        omega
      rw [endedBefore_all_of_reaches pos c cs pending (by omega) (by omega),
        endedBefore_all_of_reaches pos c (cs.take k) pending
          (by rw [List.length_take]; omega) hlast]
termination_by cs.length
decreasing_by exact Nat.lt_succ_of_le (Element.length_behind_le _ _)

end Scanner

/-- The tokens of a text that is cut behind `n` characters, up to two characters before the cut, are
those of the whole text. -/
theorem tokens_take (text : String) (n : Nat) :
    endedBefore n (tokens .default (String.ofList (text.toList.take n))) =
      endedBefore n (tokens .default text) := by
  have hverbatim (text : String) : endedBefore n (tokens .default text) =
      (endedBefore n (tokens .verbatim text)).filter fun t => !t.kind.isTrivia := by
    rw [← Lexeme.map_token_ofText .verbatim, Lexeme.ofText, Lexeme.map_token_gather, endedBefore,
      endedBefore, List.filter_filter, List.filter_filter]
    simp only [Bool.and_comm, tokens]
  have htake := Scanner.endedBefore_all_take n 0 text.toList false
  rw [Nat.zero_add] at htake
  have htokens : endedBefore n (tokens .verbatim (String.ofList (text.toList.take n))) =
      endedBefore n (tokens .verbatim text) := by
    refine Eq.trans ?_ htake
    rw [tokens, scan, Scanner.ofText, String.toList_ofList]
  rw [hverbatim, hverbatim, htokens]

/-- The tokens before an insertion point that end at least two characters before the cursor are,
from the nearest to the farthest, the tokens of the whole text that end there. The cursor is the
offset, or the end of the text if that comes first. -/
theorem InsertionPoint.tokens_before_cursor (text : String) (offset : Nat) :
    (ofText text offset).cursor = min offset text.length ∧
      (ofText text offset).tokens.filter (fun t => t.stop + 2 ≤ (ofText text offset).cursor) =
        ((FourGL.tokens .default text).filter fun t =>
          t.kind ≠ .endOfFile ∧ t.stop + 2 ≤ (ofText text offset).cursor).reverse := by
  have hcursor : (ofText text offset).cursor = min offset text.length := by
    rw [← String.length_toList]
    exact List.length_take
  have hcut : text.toList.take offset = text.toList.take (ofText text offset).cursor := by
    rw [hcursor, ← String.length_toList]
    exact List.take_eq_take_min
  have htake := tokens_take text (ofText text offset).cursor
  rw [← hcut] at htake
  refine ⟨hcursor, Eq.trans ?_ (congrArg List.reverse htake)⟩
  generalize (ofText text offset).cursor = n
  change (List.filter _ _).reverse.filter _ = _
  rw [List.filter_reverse, List.filter_filter]
  refine congrArg List.reverse (List.filter_congr fun t _ => ?_)
  rw [Bool.eq_iff_iff]
  simp [and_comm]

end FourGL
