import FourGL.Proofs.Token.Spelling

/-!
# Letter case

No class of characters that the scanner asks for tells a letter from the same letter in the other
case. So what a text begins with is, but for the letters of its text, what the text begins with in
lowercase (`Element.significant_toLower`, `Element.trivia?_toLower`), and a scanner of the text in
lowercase takes the same steps (`Scanner.all_toLower`).
-/

namespace FourGL

/-! ## Characters -/

/-- In lowercase the capital letters, and no others, move by 32. -/
theorem toNat_toLower (c : Char) :
    c.toLower.toNat = if 65 ≤ c.toNat ∧ c.toNat ≤ 90 then c.toNat + 32 else c.toNat := by
  unfold Char.toLower
  split
  next h =>
    have h : 65 ≤ c.toNat ∧ c.toNat ≤ 90 := by simpa [UInt32.le_iff_toNat_le] using h
    have hsum : (c.val + 32).toNat = (c.toNat + 32) % 4294967296 := UInt32.toNat_add ..
    rw [if_pos h]
    exact hsum.trans (Nat.mod_eq_of_lt (by omega))
  next h =>
    have h : ¬ (65 ≤ c.toNat ∧ c.toNat ≤ 90) := by simpa [UInt32.le_iff_toNat_le] using h
    rw [if_neg h]

theorem toLower_toLower (c : Char) : c.toLower.toLower = c.toLower := by
  have h := toNat_toLower c
  rw [← Char.toNat_inj, toNat_toLower, if_neg]
  split at h <;> omega

theorem isAlpha_iff (c : Char) :
    c.isAlpha = true ↔ (65 ≤ c.toNat ∧ c.toNat ≤ 90) ∨
    (97 ≤ c.toNat ∧ c.toNat ≤ 122) := by
  change (decide (65 ≤ c.toNat ∧ c.toNat ≤ 90) ||
    decide (97 ≤ c.toNat) && decide (c.toNat ≤ 122)) = true ↔ _
  simp

/-- Only a letter is another character in lowercase, and then that is a letter too. -/
theorem toLower_eq_self_or (c : Char) :
    c.toLower = c ∨ (c.isAlpha = true ∧ c.toLower.isAlpha = true) := by
  rw [← Char.toNat_inj, isAlpha_iff, isAlpha_iff, toNat_toLower]
  split <;> omega

/-- What is the same of all letters does not depend on the case of a letter. -/
theorem apply_toLower {α : Type} {p : Char → α} {a : α}
    (h : ∀ c, c.isAlpha = true → p c = a) (c : Char) : p c.toLower = p c := by
  obtain hsame | ⟨hc, hlower⟩ := toLower_eq_self_or c
  · rw [hsame]
  · rw [h _ hc, h _ hlower]

theorem ne_of_isAlpha {c x : Char} (hx : x.isAlpha = false) (hc : c.isAlpha = true) : c ≠ x := by
  rintro rfl
  exact Bool.false_ne_true (hx.symm.trans hc)

theorem toLower_eq_iff {x : Char} (hx : x.isAlpha = false) (c : Char) : c.toLower = x ↔ c = x :=
  iff_of_eq (apply_toLower (p := fun c => c = x) (fun _ hc => eq_false (ne_of_isAlpha hx hc)) c)

theorem isLineBreak_toLower (c : Char) : isLineBreak c.toLower = isLineBreak c := by
  refine apply_toLower (a := false) (fun c hc => ?_) c
  have hrange := (isAlpha_iff c).mp hc
  simp only [isLineBreak, Bool.or_eq_false_iff, beq_eq_false_iff_ne]
  exact ⟨⟨⟨ne_of_isAlpha rfl hc, ne_of_isAlpha rfl hc⟩, by omega⟩, by omega⟩

theorem isBlank_toLower (c : Char) : isBlank c.toLower = isBlank c := by
  refine apply_toLower (a := false) (fun c hc => ?_) c
  have hrange := (isAlpha_iff c).mp hc
  have hascii : ¬ 0x80 ≤ c.toNat := by omega
  simp only [isBlank, Bool.or_eq_false_iff, beq_eq_false_iff_ne, decide_eq_false hascii,
    Bool.and_false, Bool.false_and, and_true]
  exact ⟨⟨⟨⟨ne_of_isAlpha rfl hc, ne_of_isAlpha rfl hc⟩, by omega⟩, by omega⟩,
    by omega⟩

theorem isDigit_toLower (c : Char) : c.toLower.isDigit = c.isDigit := by
  refine apply_toLower (p := Char.isDigit) (a := false) (fun c hc => ?_) c
  have hrange := (isAlpha_iff c).mp hc
  simp [Char.isDigit, UInt32.le_iff_toNat_le]
  omega

theorem startsName_toLower (c : Char) : startsName c.toLower = startsName c :=
  apply_toLower (a := true) (fun c hc => by simp [startsName, hc]) c

theorem continuesName_toLower (c : Char) : continuesName c.toLower = continuesName c :=
  apply_toLower (a := true) (fun c hc => by simp [continuesName, startsName, hc]) c

/-- The one letter that scanning asks for, it asks for in both cases. -/
theorem isExponentLetter_toLower (c : Char) :
    (c.toLower = 'e' ∨ c.toLower = 'E') ↔ c = 'e' ∨ c = 'E' := by
  have he : 'e'.toNat = 101 := rfl
  have hE : 'E'.toNat = 69 := rfl
  rw [← Char.toNat_inj, ← Char.toNat_inj, ← Char.toNat_inj, ← Char.toNat_inj,
    toNat_toLower, he, hE]
  split <;> omega

theorem toList_toLower (s : String) : s.toLower.toList = s.toList.map Char.toLower :=
  String.toList_map ..

theorem toLower_ofList (cs : List Char) :
    (String.ofList cs).toLower = String.ofList (cs.map Char.toLower) := by
  rw [← String.toList_inj, toList_toLower, String.toList_ofList, String.toList_ofList]

/-! ## Elements -/

theorem length_takeWhile_toLower {p : Char → Bool} (h : ∀ c, p c.toLower = p c)
    (cs : List Char) :
    ((cs.map Char.toLower).takeWhile p).length = (cs.takeWhile p).length := by
  rw [List.takeWhile_map, List.length_map, show p ∘ Char.toLower = p from funext h]

theorem head?_toLower_eq_iff {x : Char} (hx : x.isAlpha = false) (cs : List Char) :
    (cs.map Char.toLower).head? = some x ↔ cs.head? = some x := by
  rw [List.head?_map]
  cases cs.head? with
  | none => rfl
  | some c => simpa using toLower_eq_iff hx c

namespace Element

theorem blockComment_toLower (cs : List Char) :
    blockComment (cs.map Char.toLower) = blockComment cs := by
  have hinside := length_takeWhile_toLower (p := (· != '\x7d'))
    (fun c => Bool.eq_iff_iff.mpr (by simpa using (toLower_eq_iff rfl c).not)) cs
  unfold blockComment
  dsimp only
  rw [hinside, List.length_map]

theorem lineComment_toLower (cs : List Char) :
    lineComment (cs.map Char.toLower) = lineComment cs := by
  unfold lineComment
  rw [length_takeWhile_toLower fun c => by rw [isLineBreak_toLower]]

theorem startsComment_toLower (c : Char) (cs : List Char) :
    startsComment c.toLower (cs.map Char.toLower) = startsComment c cs := by
  unfold startsComment
  rw [Bool.eq_iff_iff]
  simp only [Bool.or_eq_true, Bool.and_eq_true, beq_iff_eq]
  rw [toLower_eq_iff rfl, toLower_eq_iff rfl, toLower_eq_iff rfl, head?_toLower_eq_iff rfl]

theorem trivia?_toLower (c : Char) (cs : List Char) :
    trivia? c.toLower (cs.map Char.toLower) = trivia? c cs := by
  unfold trivia?
  simp only [isLineBreak_toLower, isBlank_toLower, startsComment_toLower, blockComment_toLower,
    lineComment_toLower, toLower_eq_iff (x := '\x7b') rfl, lineBreak, blanks,
    length_takeWhile_toLower isBlank_toLower, toLower_eq_iff (x := '\r') rfl,
    head?_toLower_eq_iff (x := '\n') rfl]

theorem pairMark?_toLower (c d : Char) : pairMark? c.toLower d.toLower = pairMark? c d := by
  have hfirst : pairMark? c.toLower d.toLower = pairMark? c d.toLower :=
    apply_toLower (p := (pairMark? · d.toLower)) (a := none)
      (fun c hc => by unfold pairMark?; split <;> first | rfl | cases hc) c
  have hsecond : pairMark? c d.toLower = pairMark? c d :=
    apply_toLower (p := pairMark? c) (a := none)
      (fun d hd => by unfold pairMark?; split <;> first | rfl | cases hd) d
  exact hfirst.trans hsecond

theorem singleMark?_toLower (c : Char) : singleMark? c.toLower = singleMark? c :=
  apply_toLower (a := none) (fun c hc => by unfold singleMark?; split <;> first | rfl | cases hc) c

theorem mark?_toLower (c : Char) (cs : List Char) :
    mark? c.toLower (cs.map Char.toLower) = mark? c cs := by
  unfold mark?
  have hpair : (cs.map Char.toLower).head?.bind (pairMark? c.toLower) =
      cs.head?.bind (pairMark? c) := by
    rw [List.head?_map]
    cases cs.head? with
    | none => rfl
    | some d => exact pairMark?_toLower c d
  rw [hpair, singleMark?_toLower]

theorem plain_toLower (h : ∀ d ds, c = '\\' → cs = d :: ds → False) :
    c.toLower = '\\' → cs.map Char.toLower = [] := by
  intro hc
  cases cs with
  | nil => rfl
  | cons d ds => exact (h d ds ((toLower_eq_iff rfl c).mp hc) rfl).elim

theorem stringTail_toLower {quote : Char} (hquote : quote.isAlpha = false) (cs : List Char) :
    stringTail quote (cs.map Char.toLower) = stringTail quote cs := by
  fun_induction stringTail quote cs with
  | case1 => rfl
  | case2 c cs hbreak =>
    rw [List.map_cons, List.map_cons, (toLower_eq_iff rfl _).mpr rfl, stringTail, if_pos]
    rwa [isLineBreak_toLower]
  | case3 c cs hbreak n closed hrest ih =>
    rw [List.map_cons, List.map_cons, (toLower_eq_iff rfl _).mpr rfl, stringTail, if_neg, ih, hrest]
    rwa [isLineBreak_toLower]
  | case4 cs hplain =>
    rw [List.map_cons, stringTail_cons_of_plain (plain_toLower hplain), if_pos]
    exact (toLower_eq_iff hquote quote).mpr rfl
  | case5 c cs hplain hc hbreak =>
    rw [List.map_cons, stringTail_cons_of_plain (plain_toLower hplain), isLineBreak_toLower,
      if_neg ((toLower_eq_iff hquote c).not.mpr hc), if_pos hbreak]
  | case6 c cs hplain hc hbreak n closed hrest ih =>
    rw [List.map_cons, stringTail_cons_of_plain (plain_toLower hplain), isLineBreak_toLower,
      if_neg ((toLower_eq_iff hquote c).not.mpr hc), if_neg hbreak, ih, hrest]

theorem stringLiteral_toLower {quote : Char} (hquote : quote.isAlpha = false) (cs : List Char) :
    stringLiteral quote (cs.map Char.toLower) = stringLiteral quote cs := by
  rw [stringLiteral, stringLiteral, stringTail_toLower hquote]

theorem digits_toLower (cs : List Char) : digits (cs.map Char.toLower) = digits cs :=
  length_takeWhile_toLower isDigit_toLower cs

theorem fraction_cons (c : Char) (cs : List Char) :
    fraction (c :: cs) =
      if c = '.' ∧ cs.head?.any startsName = false then digits cs + 1 else 0 := by
  unfold fraction
  split
  next heq =>
    obtain ⟨rfl, rfl⟩ := List.cons.inj heq
    cases cs.head?.any startsName <;> simp
  next hpoint => rw [if_neg fun h => hpoint cs (by rw [h.1])]

theorem fraction_toLower (cs : List Char) : fraction (cs.map Char.toLower) = fraction cs := by
  cases cs with
  | nil => rfl
  | cons c cs =>
    have hnext : (cs.map Char.toLower).head?.any startsName = cs.head?.any startsName := by
      simp only [List.head?_map, Option.any_map, startsName_toLower]
    simp only [List.map_cons, fraction_cons, toLower_eq_iff (x := '.') rfl, hnext, digits_toLower]

theorem exponent?_toLower (cs : List Char) : exponent? (cs.map Char.toLower) = exponent? cs := by
  cases cs with
  | nil => rfl
  | cons c cs =>
    rw [List.map_cons, exponent?, exponent?]
    simp only [isExponentLetter_toLower, head?_toLower_eq_iff (x := '+') rfl,
      head?_toLower_eq_iff (x := '-') rfl, ← List.map_drop, digits_toLower]

theorem numberOf_toLower (mantissa : Nat) (decimalPoint : Bool) (cs : List Char) :
    numberOf mantissa decimalPoint (cs.map Char.toLower) = numberOf mantissa decimalPoint cs := by
  rw [numberOf, numberOf, ← List.map_drop, exponent?_toLower]

theorem number?_toLower (c : Char) (cs : List Char) :
    number? c.toLower (cs.map Char.toLower) = number? c cs := by
  simp only [number?, isDigit_toLower, digits_toLower, ← List.map_drop, fraction_toLower,
    numberOf_toLower, toLower_eq_iff (x := '.') rfl]

theorem word_toLower (c : Char) (cs : List Char) :
    word c.toLower (cs.map Char.toLower) = word c cs := by
  have htail : (cs.map Char.toLower).takeWhile continuesName =
      (cs.takeWhile continuesName).map Char.toLower := by
    rw [List.takeWhile_map, show continuesName ∘ Char.toLower = continuesName from
      funext continuesName_toLower]
  have hkeyword : wordKind (String.ofList ((c :: cs.takeWhile continuesName).map Char.toLower)) =
      wordKind (String.ofList (c :: cs.takeWhile continuesName)) := by
    rw [wordKind, wordKind, Keyword.ofText?, Keyword.ofText?, toLower_ofList, toLower_ofList,
      List.map_map, show Char.toLower ∘ Char.toLower = Char.toLower from
        funext toLower_toLower]
  rw [word_eq, word_eq, htail, ← List.map_cons, hkeyword, List.length_map]

theorem significant_toLower (c : Char) (cs : List Char) :
    significant c.toLower (cs.map Char.toLower) = significant c cs := by
  unfold significant
  rw [number?_toLower, mark?_toLower, startsName_toLower, word_toLower]
  have hisQuote : (c.toLower = '\'' ∨ c.toLower = '"') ↔ c = '\'' ∨ c = '"' :=
    or_congr (toLower_eq_iff rfl c) (toLower_eq_iff rfl c)
  have hquote : (if c.toLower = '\'' ∨ c.toLower = '"' then
        stringLiteral c.toLower (cs.map Char.toLower)
      else if startsName c then word c cs else unknown) =
      if c = '\'' ∨ c = '"' then stringLiteral c cs
      else if startsName c then word c cs else unknown := by
    refine ite_congr (propext hisQuote) (fun h => ?_) fun _ => rfl
    have hletter : c.isAlpha = false := by obtain rfl | rfl := h <;> rfl
    rw [(toLower_eq_iff hletter c).mpr rfl, stringLiteral_toLower hletter]
  rw [hquote]

theorem taken_toLower (e : Element) (c : Char) (cs : List Char) :
    e.taken c.toLower (cs.map Char.toLower) = (e.taken c cs).map Char.toLower := by
  rw [taken, taken, ← List.map_take, List.map_cons]

theorem behind_toLower (e : Element) (cs : List Char) :
    e.behind (cs.map Char.toLower) = (e.behind cs).map Char.toLower :=
  List.map_drop.symm

theorem length_taken_toLower (e : Element) (c : Char) (cs : List Char) :
    (e.taken c.toLower (cs.map Char.toLower)).length = (e.taken c cs).length := by
  rw [taken_toLower, List.length_map]

theorem hasLineBreak_toLower (e : Element) (c : Char) (cs : List Char) :
    e.hasLineBreak c.toLower (cs.map Char.toLower) = e.hasLineBreak c cs := by
  rw [hasLineBreak, hasLineBreak, taken_toLower, List.any_map]
  exact congrArg (e.taken c cs).any (funext isLineBreak_toLower)

end Element

/-! ## Tokens -/

/-- The token with its text in lowercase. -/
def Token.toLower (t : Token) : Token := { t with text := t.text.toLower }

/-- What a diagnostic is about and where, whatever its words. -/
def Diagnostic.topic (d : Diagnostic) : Nat × Option Span := (d.code, d.span)

/-- What was read is the same but for the case of letters. -/
structure Scanned.Lowers (low s : Scanned) : Prop where
  token_eq : low.token = s.token.toLower
  issues_eq : low.issues.map Diagnostic.topic = s.issues.map Diagnostic.topic

namespace Element

theorem token_toLower (e : Element) (lineBreakBefore : Bool) (pos : Nat) (c : Char)
    (cs : List Char) :
    e.token lineBreakBefore pos c.toLower (cs.map Char.toLower) =
      (e.token lineBreakBefore pos c cs).toLower := by
  unfold token Token.toLower
  rw [length_taken_toLower, toLower_ofList, taken_toLower]

theorem topics_toLower (e : Element) (pos : Nat) (c : Char) (cs : List Char) :
    (e.issues pos c.toLower (cs.map Char.toLower)).map Diagnostic.topic =
      (e.issues pos c cs).map Diagnostic.topic := by
  unfold issues
  cases e.fault with
  | none => rfl
  | some m =>
    rw [length_taken_toLower]
    rfl

end Element

/-! ## Scanners -/

namespace Scanner

/-- The scanner of the same text in lowercase. -/
def toLower (s : Scanner) : Scanner := { s with rest := s.rest.map Char.toLower }

/-- What was passed over is the same but for the case of letters. -/
structure Skipped.Lowers (low t : Skipped) : Prop where
  pos_eq : low.pos = t.pos
  rest_eq : low.rest = t.rest.map Char.toLower
  sawBreak_eq : low.sawBreak = t.sawBreak
  issues_eq : low.issues.map Diagnostic.topic = t.issues.map Diagnostic.topic

theorem skipTrivia_toLower {issues issues' : List Diagnostic}
    (h : issues'.map Diagnostic.topic = issues.map Diagnostic.topic) (pos : Nat) (cs : List Char)
    (sawBreak : Bool) :
    (skipTrivia pos (cs.map Char.toLower) sawBreak issues').Lowers
      (skipTrivia pos cs sawBreak issues) := by
  fun_induction skipTrivia pos cs sawBreak issues generalizing issues' with
  | case1 pos sawBreak issues =>
    rw [List.map_nil, skipTrivia]
    exact ⟨rfl, rfl, rfl, h⟩
  | case2 pos sawBreak issues c cs htrivia =>
    rw [List.map_cons, skipTrivia, Element.trivia?_toLower, htrivia]
    exact ⟨rfl, rfl, rfl, h⟩
  | case3 pos sawBreak issues c cs e htrivia ih =>
    rw [List.map_cons, skipTrivia, Element.trivia?_toLower, htrivia]
    dsimp only
    rw [e.length_taken_toLower, e.behind_toLower, e.hasLineBreak_toLower]
    refine ih ?_
    rw [List.map_append, List.map_append, h, e.topics_toLower]

theorem finish_toLower {issues issues' : List Diagnostic}
    (h : issues'.map Diagnostic.topic = issues.map Diagnostic.topic) (pos : Nat)
    (lineBreakBefore : Bool) :
    (finish pos lineBreakBefore issues').Lowers (finish pos lineBreakBefore issues) where
  token_eq := by
    have hempty : "".toLower = "" := toLower_ofList []
    simp only [finish, Token.endOfFile, Token.toLower, hempty]
  issues_eq := h

/-- Scanners of a text and of the same in lowercase go on side by side. -/
theorem next_toLower (s : Scanner) :
    s.toLower.next.1.Lowers s.next.1 ∧ s.toLower.next.2 = s.next.2.toLower := by
  obtain ⟨mode, pos, cs, pending⟩ := s
  cases mode with
  | default =>
    simp only [next, toLower]
    obtain ⟨hpos, hrest, hbreak, hissues⟩ :=
      skipTrivia_toLower (Eq.refl (([] : List Diagnostic).map Diagnostic.topic)) pos cs false
    rw [hpos, hrest, hbreak]
    generalize skipTrivia pos (cs.map Char.toLower) false [] = low at hissues
    generalize skipTrivia pos cs false [] = t at hissues
    obtain ⟨pos, rest, sawBreak, issues⟩ := t
    cases rest with
    | nil => exact ⟨finish_toLower hissues pos sawBreak, rfl⟩
    | cons c cs =>
      simp only [List.map_cons, Element.significant_toLower, Element.token_toLower,
        Element.length_taken_toLower, Element.behind_toLower, and_true]
      refine ⟨rfl, ?_⟩
      rw [List.map_append, List.map_append, hissues, Element.topics_toLower]
  | verbatim =>
    cases cs with
    | nil => exact ⟨finish_toLower rfl pos pending, rfl⟩
    | cons c cs =>
      simp only [next, toLower, List.map_cons, Element.trivia?_toLower]
      cases Element.trivia? c cs with
      | some e =>
        simp only [e.token_toLower, e.length_taken_toLower, e.behind_toLower,
          e.hasLineBreak_toLower, and_true]
        exact ⟨rfl, e.topics_toLower ..⟩
      | none =>
        simp only [Element.significant_toLower, Element.token_toLower,
          Element.length_taken_toLower, Element.behind_toLower, and_true]
        exact ⟨rfl, Element.topics_toLower ..⟩

theorem all_toLower (s : Scanner) : List.Forall₂ Scanned.Lowers s.toLower.all s.all := by
  fun_induction all s with
  | case1 s found behind hnext hkind =>
    obtain ⟨hfound, -⟩ := next_toLower s
    rw [hnext] at hfound
    rw [all_eq, if_pos]
    · exact .cons hfound .nil
    · rwa [hfound.token_eq]
  | case2 s found behind hnext hkind ih =>
    obtain ⟨hfound, hbehind⟩ := next_toLower s
    rw [hnext] at hfound hbehind
    rw [all_eq, if_neg, hbehind]
    · exact .cons hfound ih
    · rwa [hfound.token_eq]

end Scanner

/-- A text is scanned as the same text in lowercase is. -/
theorem scan_toLower (mode : ScanMode) (text : String) :
    List.Forall₂ Scanned.Lowers (scan mode text.toLower) (scan mode text) := by
  have hstart : Scanner.ofText mode text.toLower = (Scanner.ofText mode text).toLower := by
    rw [Scanner.ofText, toList_toLower]
    rfl
  rw [scan, hstart]
  exact Scanner.all_toLower _

theorem tokens_toLower (mode : ScanMode) (text : String) :
    tokens mode text.toLower = (tokens mode text).map Token.toLower := by
  rw [← List.forall₂_eq_eq_eq, tokens, tokens, List.map_map, List.forall₂_map_left_iff,
    List.forall₂_map_right_iff]
  exact (scan_toLower mode text).imp fun _ _ h => h.token_eq

theorem topics_scanIssues_toLower (mode : ScanMode) (text : String) :
    (scanIssues mode text.toLower).map Diagnostic.topic =
      (scanIssues mode text).map Diagnostic.topic := by
  rw [scanIssues, scanIssues, List.map_flatMap, List.map_flatMap, ← List.forall₂_eq_eq_eq]
  refine List.rel_flatMap (scan_toLower mode text) fun low s h => ?_
  rw [h.issues_eq, List.forall₂_eq_eq_eq]

/-! ## Texts that agree but for the case of letters -/

/-- The texts are of the same length and have the same letters at the same places, be it in another
case. -/
def SameLetters (a b : String) : Prop :=
  List.Forall₂ (fun c d : Char => c.toLower = d.toLower) a.toList b.toList

theorem sameLetters_iff (a b : String) : SameLetters a b ↔ a.toLower = b.toLower := by
  rw [← String.toList_inj, toList_toLower, toList_toLower, ← List.forall₂_eq_eq_eq,
    List.forall₂_map_left_iff, List.forall₂_map_right_iff]
  rfl

/-- The tokens are the same but for the case of the letters of their texts. -/
structure Token.SameButCase (t u : Token) : Prop where
  kind_eq : t.kind = u.kind
  start_eq : t.start = u.start
  stop_eq : t.stop = u.stop
  flags_eq : t.flags = u.flags
  text : SameLetters t.text u.text

theorem Token.sameButCase_iff (t u : Token) : t.SameButCase u ↔ t.toLower = u.toLower := by
  obtain ⟨kind, start, stop, text, flags⟩ := t
  obtain ⟨kind', start', stop', text', flags'⟩ := u
  constructor
  · rintro ⟨rfl, rfl, rfl, rfl, htext⟩
    exact congrArg (Token.mk kind start stop · flags) ((sameLetters_iff ..).mp htext)
  · intro h
    obtain ⟨rfl, rfl, rfl, htext, rfl⟩ := Token.mk.inj h
    exact ⟨rfl, rfl, rfl, rfl, (sameLetters_iff ..).mpr htext⟩

/-- Scanning does not tell the case of letters: texts that differ in nothing else have the same
tokens, but for the letters of their texts, and the same is wrong with them at the same places. -/
theorem scan_of_sameLetters (mode : ScanMode) {text text' : String} (h : SameLetters text text') :
    List.Forall₂ Token.SameButCase (tokens mode text) (tokens mode text') ∧
      List.Forall₂ (fun d e => d.code = e.code ∧ d.span = e.span)
        (scanIssues mode text) (scanIssues mode text') := by
  have hlower : text.toLower = text'.toLower := (sameLetters_iff ..).mp h
  constructor
  · have htokens : (tokens mode text).map Token.toLower =
        (tokens mode text').map Token.toLower := by
      rw [← tokens_toLower mode text, hlower, tokens_toLower]
    rw [← List.forall₂_eq_eq_eq, List.forall₂_map_left_iff,
      List.forall₂_map_right_iff] at htokens
    exact htokens.imp fun t u h => (t.sameButCase_iff u).mpr h
  · have htopics : (scanIssues mode text).map Diagnostic.topic =
        (scanIssues mode text').map Diagnostic.topic := by
      rw [← topics_scanIssues_toLower mode text, hlower, topics_scanIssues_toLower]
    rw [← List.forall₂_eq_eq_eq, List.forall₂_map_left_iff,
      List.forall₂_map_right_iff] at htopics
    exact htopics.imp fun _ _ h => Prod.mk.inj h

/-- A keyword, a name, an exponent without digits and an open string, each in another case. -/
theorem scan_of_sameLetters_let :
    SameLetters "LET x = 1E 'Ab" "let X = 1e 'aB" ∧
      List.Forall₂ Token.SameButCase (tokens .default "LET x = 1E 'Ab")
        (tokens .default "let X = 1e 'aB") ∧
      List.Forall₂ (fun d e => d.code = e.code ∧ d.span = e.span)
        (scanIssues .default "LET x = 1E 'Ab") (scanIssues .default "let X = 1e 'aB") :=
  have h : SameLetters "LET x = 1E 'Ab" "let X = 1e 'aB" := by unfold SameLetters; decide
  ⟨h, scan_of_sameLetters .default h⟩

end FourGL
