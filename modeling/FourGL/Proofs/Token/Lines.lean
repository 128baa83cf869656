import FourGL.Proofs.Token.Spelling

/-!
# Texts with lines behind them

No element goes on over a line break that comes behind a text, unless it lacks its end: an element
of the text is found in the longer one as well (`significant_line`, `trivia?_line`). So a scanner
passes over the same trivia in both (`skipTrivia_line`); where the text by itself comes to its end,
the next line begins in the longer one.
-/

namespace FourGL

namespace Element

variable {r : List Char}

theorem digits_line (cs : List Char) : digits (cs ++ '\n' :: r) = digits cs :=
  digits_append cs (.cons (by decide) r)

theorem drop_line {n : Nat} {cs : List Char} (h : n ≤ cs.length) :
    (cs ++ '\n' :: r).drop n = cs.drop n ++ '\n' :: r := by
  rw [List.drop_append_of_le_length h]

theorem signLength_line (cs : List Char) : signLength (cs ++ '\n' :: r) = signLength cs := by
  cases cs <;> rfl

theorem signLength_le (cs : List Char) : signLength cs ≤ cs.length := by
  cases cs with
  | nil => exact Nat.le_refl 0
  | cons c cs =>
    unfold signLength
    split <;> simp

theorem exponent?_line (cs : List Char) : exponent? (cs ++ '\n' :: r) = exponent? cs := by
  cases cs with
  | nil => rfl
  | cons c cs =>
    rw [List.cons_append, exponent?_cons, exponent?_cons, signLength_line,
      drop_line (signLength_le cs), digits_line]

theorem fraction_line (cs : List Char) : fraction (cs ++ '\n' :: r) = fraction cs := by
  cases cs with
  | nil => rfl
  | cons c cs =>
    by_cases hdot : c = '.'
    · subst hdot
      rw [List.cons_append, fraction, fraction, digits_line]
      cases cs <;> rfl
    · have hnone (cs : List Char) : fraction (c :: cs) = 0 :=
        fraction_eq_zero (.cons (by simpa using hdot) cs)
      rw [List.cons_append, hnone, hnone]

theorem numberOf_line {mantissa : Nat} {cs : List Char} (point : Bool)
    (h : mantissa ≤ cs.length) :
    numberOf mantissa point (cs ++ '\n' :: r) = numberOf mantissa point cs := by
  rw [numberOf, numberOf, drop_line h, exponent?_line]

theorem number?_line (c : Char) (cs : List Char) : number? c (cs ++ '\n' :: r) = number? c cs := by
  have hdigits := digits_le cs
  have hfraction := fraction_le (cs.drop (digits cs))
  rw [List.length_drop] at hfraction
  unfold number?
  rw [digits_line]
  dsimp only
  rw [drop_line hdigits, fraction_line, numberOf_line _ (by omega), numberOf_line _ hdigits]

theorem mark?_line (c : Char) (cs : List Char) : mark? c (cs ++ '\n' :: r) = mark? c cs := by
  cases cs with
  | nil =>
    have hpair : pairMark? c '\n' = none := by
      unfold pairMark?
      split <;> first | rfl | simp_all
    unfold mark?
    rw [List.nil_append, List.head?_cons, Option.bind_some, hpair]
    rfl
  | cons d cs => rfl

theorem stringTail_line (hquote : quote = '\'' ∨ quote = '"') (cs : List Char) :
    stringTail quote (cs ++ '\n' :: r) = stringTail quote cs := by
  have hslash : quote ≠ '\\' := by
    rintro rfl
    exact absurd hquote (by decide)
  have hbreak : '\n' ≠ quote := by
    rintro rfl
    exact absurd hquote (by decide)
  fun_induction stringTail quote cs with
  | case1 =>
    rw [List.nil_append, stringTail_cons (by decide), if_neg hbreak, if_pos (by decide)]
  | case2 c cs hc => rw [List.cons_append, List.cons_append, stringTail, if_pos hc]
  | case3 c cs hc n closed heq ih =>
    rw [List.cons_append, List.cons_append, stringTail, if_neg hc, ih, heq]
  | case4 cs => rw [List.cons_append, stringTail_cons hslash, if_pos rfl]
  | case5 c cs hpattern hc hline =>
    have hne : c ≠ '\\' := by
      rintro rfl
      exact absurd hline (by decide)
    rw [List.cons_append, stringTail_cons hne, if_neg hc, if_pos hline]
  | case6 c cs hpattern hc hline n closed heq ih =>
    by_cases hne : c = '\\'
    · -- A backslash at the end of the text does not escape the line break.
      subst hne
      cases cs with
      | nil =>
        obtain ⟨rfl, rfl⟩ := Prod.mk.inj heq
        rfl
      | cons d cs => exact (hpattern d cs rfl rfl).elim
    · rw [List.cons_append, stringTail_cons hne, if_neg hc, if_neg hline, ih, heq]

theorem word_line (c : Char) (cs : List Char) : word c (cs ++ '\n' :: r) = word c cs := by
  rw [word_eq, word_eq, takeWhile_append cs (.cons (by decide) r)]

theorem significant_line (c : Char) (cs : List Char) :
    significant c (cs ++ '\n' :: r) = significant c cs := by
  unfold significant
  rw [number?_line, mark?_line, word_line]
  split
  · rfl
  split
  · rfl
  split
  next hquote => rw [stringLiteral, stringLiteral, stringTail_line hquote]
  next => rfl

/-! ## Trivia -/

theorem blockComment_line {cs : List Char} (h : (blockComment cs).fault = none) :
    blockComment (cs ++ '\n' :: r) = blockComment cs := by
  by_cases hclosed : (cs.takeWhile (· != '\x7d')).length < cs.length
  · have htake : (cs ++ '\n' :: r).takeWhile (· != '\x7d') = cs.takeWhile (· != '\x7d') := by
      rw [List.takeWhile_append, if_neg (Nat.ne_of_lt hclosed)]
    have hclosed' : (cs.takeWhile (· != '\x7d')).length < (cs ++ '\n' :: r).length := by
      rw [List.length_append]
      omega
    rw [blockComment, blockComment, htake, if_pos hclosed, if_pos hclosed']
  · rw [blockComment, if_neg hclosed] at h
    cases h

theorem startsComment_line (c : Char) (cs : List Char) :
    startsComment c (cs ++ '\n' :: r) = startsComment c cs := by
  cases cs <;> simp [startsComment]

/-- A piece of trivia is found in the longer text, but for a carriage return at the end, which makes
one line break together with the line feed behind it. -/
theorem trivia?_line {c : Char} {cs : List Char} {e : Element} (h : trivia? c cs = some e)
    (hfault : e.fault = none) (hreturn : ¬ (c = '\r' ∧ cs = [])) :
    trivia? c (cs ++ '\n' :: r) = some e := by
  unfold trivia? at h ⊢
  rw [startsComment_line]
  split at h
  next hbreak =>
    obtain rfl := Option.some.inj h
    rw [if_pos hbreak]
    cases cs with
    | nil =>
      have hc : c ≠ '\r' := fun hc => hreturn ⟨hc, rfl⟩
      simp [lineBreak, hc]
    | cons d cs => rfl
  next hbreak =>
    rw [if_neg hbreak]
    split at h
    next hblank =>
      obtain rfl := Option.some.inj h
      rw [if_pos hblank, blanks, blanks, takeWhile_append cs (.cons (by decide) r)]
    next hblank =>
      rw [if_neg hblank]
      split at h
      next hcomment =>
        obtain rfl := Option.some.inj h
        rw [if_pos hcomment]
        split
        next hbrace =>
          rw [if_pos hbrace] at hfault
          rw [blockComment_line hfault]
        next => rw [lineComment, lineComment, takeWhile_append cs (.cons (by decide) r)]
      next => cases h

theorem trivia?_none_line {c : Char} {cs : List Char} (h : trivia? c cs = none) :
    trivia? c (cs ++ '\n' :: r) = none := by
  rw [trivia?_eq_none_iff] at h ⊢
  rwa [startsComment_line]

/-! ## What an element takes -/

theorem taken_line {e : Element} {cs : List Char} (h : e.more ≤ cs.length) (c : Char) :
    e.taken c (cs ++ '\n' :: r) = e.taken c cs := by
  rw [taken, List.take_append_of_le_length h, taken]

theorem behind_line {e : Element} {cs : List Char} (h : e.more ≤ cs.length) :
    e.behind (cs ++ '\n' :: r) = e.behind cs ++ '\n' :: r := drop_line h

theorem issues_eq_nil {e : Element} (h : e.fault = none) (pos : Nat) (c : Char) (cs : List Char) :
    e.issues pos c cs = [] := by
  rw [issues, h]

theorem fault_eq_none_of_trivia? {c : Char} {cs : List Char} {e : Element} {pos : Nat}
    (h : trivia? c cs = some e) (herrors : Diagnostic.errorCount (e.issues pos c cs) = 0) :
    e.fault = none := by
  cases hfault : e.fault with
  | none => rfl
  | some m =>
    rw [issues, hfault] at herrors
    obtain rfl | rfl | rfl | rfl := fault_of_trivia? h hfault <;> cases herrors

end Element

namespace Scanner

open Diagnostic (errorCount)

theorem issues_skipTrivia_prefix (pos : Nat) (cs : List Char) (sawBreak : Bool)
    (issues : List Diagnostic) : issues <+: (skipTrivia pos cs sawBreak issues).issues := by
  fun_induction skipTrivia pos cs sawBreak issues with
  | case1 | case2 => exact List.prefix_refl _
  | case3 _ _ _ _ _ _ _ ih => exact (List.prefix_append _ _).trans ih

theorem skipTrivia_lineFeed (pos : Nat) (cs : List Char) (sawBreak : Bool)
    (issues : List Diagnostic) :
    skipTrivia pos ('\n' :: cs) sawBreak issues = skipTrivia (pos + 1) cs true issues := by
  rw [skipTrivia, show Element.trivia? '\n' cs = some (Element.lineBreak '\n' cs) from rfl]
  dsimp only
  rw [show (Element.lineBreak '\n' cs).issues pos '\n' cs = [] from rfl, List.append_nil,
    show (Element.lineBreak '\n' cs).hasLineBreak '\n' cs = true from rfl, Bool.or_true]
  rfl

theorem skipTrivia_return (pos : Nat) (cs : List Char) (sawBreak : Bool)
    (issues : List Diagnostic) :
    skipTrivia pos ('\r' :: '\n' :: cs) sawBreak issues = skipTrivia (pos + 2) cs true issues := by
  have htrivia : Element.trivia? '\r' ('\n' :: cs) = some { kind := .newLine, more := 1 } := rfl
  rw [skipTrivia, htrivia]
  dsimp only
  rw [show Element.issues { kind := .newLine, more := 1 } pos '\r' ('\n' :: cs) = [] from rfl,
    List.append_nil,
    show Element.hasLineBreak { kind := .newLine, more := 1 } '\r' ('\n' :: cs) = true from rfl,
    Bool.or_true]
  rfl

/-- Where two scanners have passed over trivia, one in a text and one in a longer text in which `r`
comes on the next line: at the same token, or the one at the end of the text and the other at that
line. -/
inductive SkippedAlike (k : Nat) (r : List Char) (same : Prop) (t u : Skipped) : Prop where
  | token {c : Char} {cs : List Char} (hrest : t.rest = c :: cs)
      (hrest' : u.rest = c :: (cs ++ '\n' :: r))
      (hpos : u.pos = t.pos + k) (hbreak : same → u.sawBreak = t.sawBreak)
      (hissues : errorCount u.issues = 0)
  | endOfText (hrest : t.rest = []) (hrest' : u.rest = r) (hbreak : u.sawBreak = true)
      (hissues : errorCount u.issues = 0)

/-- Both scanners pass over the same trivia, if there is nothing wrong with it. -/
theorem skipTrivia_line {d : Char} {r : List Char} (hd : Element.trivia? d r = none) {same : Prop}
    {pos : Nat} {cs : List Char} {sawBreak sawBreak' : Bool} {issues issues' : List Diagnostic}
    (hsame : same → sawBreak' = sawBreak)
    (hclean : errorCount (skipTrivia pos cs sawBreak issues).issues = 0)
    (hclean' : errorCount issues' = 0) :
    SkippedAlike k (d :: r) same (skipTrivia pos cs sawBreak issues)
      (skipTrivia (pos + k) (cs ++ '\n' :: d :: r) sawBreak' issues') := by
  have hstop (pos : Nat) (sawBreak : Bool) (issues : List Diagnostic) :
      skipTrivia pos (d :: r) sawBreak issues = ⟨pos, d :: r, sawBreak, issues⟩ := by
    rw [skipTrivia, hd]
  fun_induction skipTrivia pos cs sawBreak issues generalizing sawBreak' issues' with
  | case1 pos sawBreak issues =>
    rw [List.nil_append, skipTrivia_lineFeed, hstop]
    exact .endOfText rfl rfl rfl hclean'
  | case2 pos sawBreak issues c cs htrivia =>
    rw [List.cons_append, skipTrivia, Element.trivia?_none_line htrivia]
    exact .token rfl rfl rfl hsame hclean'
  | case3 pos sawBreak issues c cs e htrivia ih =>
    have hissues : errorCount (e.issues pos c cs) = 0 := by
      obtain ⟨more, hmore⟩ :=
        issues_skipTrivia_prefix (pos + (e.taken c cs).length) (e.behind cs)
        (sawBreak || e.hasLineBreak c cs) (issues ++ e.issues pos c cs)
      rw [← hmore, errorCount, List.countP_append, List.countP_append] at hclean
      rw [errorCount]
      omega
    by_cases hreturn : c = '\r' ∧ cs = []
    · obtain ⟨rfl, rfl⟩ := hreturn
      rw [List.cons_append, List.nil_append, skipTrivia_return, hstop]
      refine .endOfText ?_ rfl rfl hclean'
      rw [show e.behind [] = [] from List.drop_nil, skipTrivia]
    · have hmore := Element.more_le_of_trivia? htrivia
      have hfault := Element.fault_eq_none_of_trivia? htrivia hissues
      rw [List.cons_append, skipTrivia, Element.trivia?_line htrivia hfault hreturn]
      dsimp only
      rw [Element.taken_line hmore, Element.behind_line hmore, Nat.add_right_comm]
      refine ih (fun h => ?_) hclean ?_
      · rw [hsame h, Element.hasLineBreak, Element.taken_line hmore, ← Element.hasLineBreak]
      · rwa [Element.issues_eq_nil hfault, List.append_nil]

end Scanner

end FourGL
