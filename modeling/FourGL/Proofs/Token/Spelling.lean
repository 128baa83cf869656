import FourGL.Proofs.Token.Modes
import FourGL.Proofs.Token.Issues
import Mathlib.Data.List.TakeWhile

/-!
# Spelling

How far a token reaches is decided by the characters in it and by the one behind it. A word, which
is the kind and the text of a token, is `Spelled` if scanning finds it before whatever can end it
(`Kind.endsBefore`). Every literal, name or keyword that is found without a fault is spelled
(`spelled_of_significant`), and so are all marks and keywords. A text of spelled words, with blanks
between them where one would go on with the other, is scanned into these words
(`Legible.scan_default`).
-/

namespace FourGL

/-- The text is empty, or its first character is as `p` says. -/
def AtHead (p : Char → Bool) (cs : List Char) : Prop := ∀ c ∈ cs.head?, p c = true

theorem AtHead.nil (p : Char → Bool) : AtHead p [] := nofun

theorem AtHead.cons {p : Char → Bool} (h : p c = true) (cs : List Char) : AtHead p (c :: cs) := by
  intro d hd
  obtain rfl := Option.some.inj hd
  exact h

theorem AtHead.mono {p q : Char → Bool} (h : AtHead p cs)
    (hpq : ∀ c, p c = true → q c = true) :
    AtHead q cs := fun c hc => hpq c (h c hc)

theorem AtHead.take_append {p : Char → Bool} (h : AtHead p cs) (hr : AtHead p r) (n : Nat) :
    AtHead p (cs.take n ++ r) := by
  cases cs with
  | nil => simpa using hr
  | cons c cs =>
    cases n with
    | zero => simpa using hr
    | succ n => exact .cons (h c rfl) _

theorem takeWhile_append {p : Char → Bool} (w : List Char) (h : AtHead (!p ·) r) :
    (w ++ r).takeWhile p = w.takeWhile p := by
  induction w with
  | nil =>
    cases r with
    | nil => rfl
    | cons c r => simp [show p c = false by simpa using h c rfl]
  | cons c w ih => simp [List.takeWhile_cons, ih]

theorem take_takeWhile (p : Char → Bool) (cs : List Char) :
    cs.take (cs.takeWhile p).length = cs.takeWhile p := by
  conv => lhs; arg 2; rw [← List.takeWhile_append_dropWhile (p := p) (l := cs)]
  exact List.take_left

theorem drop_takeWhile (p : Char → Bool) (cs : List Char) :
    cs.drop (cs.takeWhile p).length = cs.dropWhile p := by
  conv => lhs; arg 2; rw [← List.takeWhile_append_dropWhile (p := p) (l := cs)]
  exact List.drop_left

theorem atHead_dropWhile (p : Char → Bool) (cs : List Char) :
    AtHead (!p ·) (cs.dropWhile p) := by
  intro c hc
  have hhead := List.head?_dropWhile_not p cs
  rw [Option.mem_def.mp hc] at hhead
  simpa using hhead

/-! ## Words -/

/-- The kind and the text of a token. -/
structure Word where
  kind : Kind
  text : String

def Token.word (t : Token) : Word := ⟨t.kind, t.text⟩

/-- Whether a token of the kind ends before the character: with it, the token would be a longer one
or another one. -/
def Kind.endsBefore : Kind → Char → Bool
  | .identifier, c | .keyword _, c => !continuesName c
  | .number, c => !(c.isDigit || c == '.' || startsName c)
  | .mark .minus, c => c != '-'
  | .mark .dot, c => !c.isDigit
  | .mark .asterisk, c => c != '*'
  | .mark .less, c => c != '>' && c != '='
  | .mark .greater, c | .mark .equal, c => c != '='
  | _, _ => true

/-- The element is of the kind, takes so many characters after the first, and has no fault. -/
structure Element.Sound (e : Element) (kind : Kind) (more : Nat) : Prop where
  kind_eq : e.kind = kind
  more_eq : e.more = more
  fault_eq : e.fault = none

/-- The characters `c` and `cs` make up the word where `rest` comes behind them. -/
structure Word.Clear (w : Word) (c : Char) (cs rest : List Char) : Prop where
  text_eq : w.text.toList = c :: cs
  trivia_eq : Element.trivia? c (cs ++ rest) = none
  sound : (Element.significant c (cs ++ rest)).Sound w.kind cs.length

/-- The word is found before whatever can end it. -/
def Word.Spelled (w : Word) : Prop :=
  ∃ c cs, ∀ rest, AtHead w.kind.endsBefore rest → w.Clear c cs rest

namespace Element

/-! ## Numbers -/

theorem digits_append (w : List Char) (h : AtHead (!·.isDigit) r) : digits (w ++ r) = digits w :=
  congrArg List.length (takeWhile_append w h)

theorem take_digits (cs : List Char) : cs.take (digits cs) = cs.takeWhile Char.isDigit :=
  take_takeWhile _ cs

theorem drop_digits (cs : List Char) : cs.drop (digits cs) = cs.dropWhile Char.isDigit :=
  drop_takeWhile _ cs

theorem length_take_digits (cs : List Char) : (cs.take (digits cs)).length = digits cs := by
  rw [take_digits]
  rfl

/-- Digits are found where no digit comes behind them. -/
theorem digits_take_append (cs : List Char) (h : AtHead (!·.isDigit) r) :
    digits (cs.take (digits cs) ++ r) = digits cs := by
  rw [digits_append _ h, take_digits, digits, List.takeWhile_idem]
  rfl

/-- How many characters the sign of an exponent has. -/
def signLength (cs : List Char) : Nat :=
  if cs.head? = some '+' ∨ cs.head? = some '-' then 1 else 0

theorem exponent?_cons (c : Char) (cs : List Char) :
    exponent? (c :: cs) =
      if c = 'e' ∨ c = 'E' then
        some (1 + signLength cs + digits (cs.drop (signLength cs)),
          digits (cs.drop (signLength cs)))
      else none := rfl

/-- How many characters the exponent has. -/
def exponentLength (cs : List Char) : Nat := ((exponent? cs).map (·.1)).getD 0

/-- The exponent has a digit, if there is one. -/
def SoundExponent (cs : List Char) : Prop := ∀ x ∈ exponent? cs, x.2 ≠ 0

theorem numberOf_more (mantissa : Nat) (decimalPoint : Bool) (cs : List Char) :
    (numberOf mantissa decimalPoint cs).more = mantissa + exponentLength (cs.drop mantissa) := by
  unfold numberOf exponentLength
  split <;> simp_all

theorem numberOf_fault (mantissa : Nat) (decimalPoint : Bool) (cs : List Char) :
    (numberOf mantissa decimalPoint cs).fault = none ↔ SoundExponent (cs.drop mantissa) := by
  unfold numberOf SoundExponent
  split <;> simp_all

theorem endsBefore_number (h : Kind.number.endsBefore c = true) :
    c.isDigit = false ∧ c ≠ '.' ∧ startsName c = false := by
  simpa [Kind.endsBefore, and_assoc] using h

theorem exponent?_eq_none (h : AtHead Kind.number.endsBefore r) : exponent? r = none := by
  cases r with
  | nil => rfl
  | cons c r =>
    obtain ⟨-, -, hname⟩ := endsBefore_number (h c rfl)
    refine if_neg ?_
    rintro (rfl | rfl) <;> revert hname <;> decide

/-- An exponent is found where something comes behind it that can end a number. -/
theorem exponent?_take_append (h : SoundExponent cs) (hr : AtHead Kind.number.endsBefore r) :
    exponent? (cs.take (exponentLength cs) ++ r) = exponent? cs := by
  cases hexponent : exponent? cs with
  | none =>
    rw [exponentLength, hexponent]
    exact exponent?_eq_none hr
  | some x =>
    cases cs with
    | nil => cases hexponent
    | cons c cs =>
      rw [exponent?_cons] at hexponent
      split at hexponent
      next hletter =>
        -- The exponent has a digit, so its first character behind the letter is its own.
        obtain rfl := Option.some.inj hexponent
        have hlength : exponentLength (c :: cs) =
            (signLength cs + digits (cs.drop (signLength cs))) + 1 := by
          rw [exponentLength, exponent?_cons, if_pos hletter, Option.map_some, Option.getD_some]
          omega
        have hdigits : digits (cs.drop (signLength cs)) ≠ 0 := h _ (if_pos hletter)
        generalize hn : digits (cs.drop (signLength cs)) = n at hlength hdigits ⊢
        have hsign : signLength (cs.take (signLength cs + n) ++ r) = signLength cs := by
          cases cs with
          | nil => exact absurd hn (by simpa [digits] using hdigits.symm)
          | cons d cs =>
            obtain ⟨n, rfl⟩ := Nat.exists_eq_succ_of_ne_zero hdigits
            rfl
        have hrest : (cs.take (signLength cs + n) ++ r).drop (signLength cs) =
            (cs.drop (signLength cs)).take n ++ r := by
          rw [List.drop_append_of_le_length, List.drop_take, Nat.add_sub_cancel_left]
          have hle : n ≤ (cs.drop (signLength cs)).length :=
            hn ▸ (List.takeWhile_prefix _).length_le
          rw [List.length_take, List.length_drop] at *
          omega
        rw [hlength, List.take_succ_cons, List.cons_append, exponent?_cons,
          if_pos hletter, hsign, hrest,
          ← hn, digits_take_append _ (hr.mono fun c hc => by simp [(endsBefore_number hc).1])]
      next => cases hexponent

/-- What comes behind the digits of a number begins with no digit. -/
theorem atHead_exponent (hcs : AtHead (!·.isDigit) cs) (hr : AtHead Kind.number.endsBefore r) :
    AtHead (!·.isDigit) (cs.take (exponentLength cs) ++ r) :=
  hcs.take_append (hr.mono fun c hc => by simp [(endsBefore_number hc).1]) _

/-- How many characters a number has behind its first digits. -/
def tailLength (cs : List Char) : Nat := fraction cs + exponentLength (cs.drop (fraction cs))

theorem fraction_eq_zero (h : AtHead (· != '.') cs) : fraction cs = 0 := by
  cases cs with
  | nil => rfl
  | cons c cs =>
    unfold fraction
    split
    next heq =>
      obtain ⟨rfl, -⟩ := List.cons.inj heq
      exact absurd (h '.' rfl) (by decide)
    next => rfl

theorem fraction_point (h : AtHead (!startsName ·) cs) : fraction ('.' :: cs) = digits cs + 1 := by
  have hany : cs.head?.any startsName = false := by
    cases cs with
    | nil => rfl
    | cons c cs => simpa using h c rfl
  exact if_neg (by simp [hany])

/-- A point before a name selects a member. -/
theorem fraction_member (h : ¬ AtHead (!startsName ·) cs) : fraction ('.' :: cs) = 0 := by
  refine if_pos ?_
  cases cs with
  | nil => exact absurd (AtHead.nil _) h
  | cons c cs =>
    by_contra hname
    exact h (.cons (by simpa using hname) cs)

/-- A fraction and an exponent are found where something comes behind them that can end a number. -/
theorem fraction_take_append (h : SoundExponent (cs.drop (fraction cs)))
    (hr : AtHead Kind.number.endsBefore r) :
    fraction (cs.take (tailLength cs) ++ r) = fraction cs ∧
      exponent? ((cs.take (tailLength cs) ++ r).drop (fraction cs)) =
        exponent? (cs.drop (fraction cs)) := by
  by_cases hdot : AtHead (· != '.') cs
  · -- There is no fraction.
    rw [fraction_eq_zero hdot, List.drop_zero] at h
    rw [tailLength, fraction_eq_zero hdot, List.drop_zero, Nat.zero_add]
    refine ⟨fraction_eq_zero (hdot.take_append (hr.mono fun c hc => ?_) _),
      exponent?_take_append h hr⟩
    simp [(endsBefore_number hc).2.1]
  · cases cs with
    | nil => exact absurd (AtHead.nil _) hdot
    | cons c cs =>
      obtain rfl : c = '.' := by
        by_contra hne
        exact hdot (.cons (by simpa using hne) cs)
      by_cases hname : AtHead (!startsName ·) cs
      · rw [fraction_point hname, List.drop_succ_cons] at h
        rw [tailLength, fraction_point hname, List.drop_succ_cons]
        let behind := (cs.drop (digits cs)).take (exponentLength (cs.drop (digits cs))) ++ r
        have hbehind : AtHead (!·.isDigit) behind :=
          atHead_exponent (drop_digits cs ▸ atHead_dropWhile _ cs) hr
        have htake : cs.take (digits cs + exponentLength (cs.drop (digits cs))) ++ r =
            cs.take (digits cs) ++ behind := by
          rw [List.take_add, List.append_assoc]
        have hhead : AtHead (!startsName ·) (cs.take (digits cs) ++ behind) :=
          htake ▸ hname.take_append (hr.mono fun c hc => by simp [(endsBefore_number hc).2.2]) _
        rw [Nat.add_right_comm, List.take_succ_cons, List.cons_append, htake, fraction_point hhead,
          digits_take_append cs hbehind, List.drop_succ_cons,
            List.drop_left' (length_take_digits cs)]
        exact ⟨rfl, exponent?_take_append h hr⟩
      · -- The number ends before the point.
        have hzero : tailLength ('.' :: cs) = 0 := by
          rw [tailLength, fraction_member hname]
          rfl
        rw [hzero, fraction_member hname, List.take_zero, List.nil_append, List.drop_zero,
          exponent?_eq_none hr]
        exact ⟨fraction_eq_zero (hr.mono fun c hc => by simp [(endsBefore_number hc).2.1]), rfl⟩

/-- The mantissa and the exponent alone decide on how far a number reaches. -/
theorem numberOf_congr (h : exponent? (ds.drop mantissa) = exponent? (cs.drop mantissa))
    (decimalPoint : Bool) (hfault : (numberOf mantissa decimalPoint cs).fault = none) :
    (numberOf mantissa decimalPoint ds).Sound .number (numberOf mantissa decimalPoint cs).more := by
  refine ⟨numberOf_kind .., ?_, ?_⟩
  · rw [numberOf_more, numberOf_more, exponentLength, h]
    rfl
  · rw [numberOf_fault, SoundExponent, h]
    exact (numberOf_fault ..).mp hfault

/-- A number is found where something comes behind it that can end it. -/
theorem number?_take_append (h : number? c cs = some e) (hfault : e.fault = none)
    (hr : AtHead Kind.number.endsBefore r) :
    ∃ e', number? c (cs.take e.more ++ r) = some e' ∧ e'.Sound .number e.more := by
  have hrest : AtHead (!·.isDigit) (cs.drop (digits cs)) :=
    drop_digits cs ▸ atHead_dropWhile _ cs
  have htake (n : Nat) : cs.take (digits cs + n) ++ r =
      cs.take (digits cs) ++ ((cs.drop (digits cs)).take n ++ r) := by
    rw [List.take_add, List.append_assoc]
  have hdigits (n : Nat) : digits (cs.take (digits cs) ++ ((cs.drop (digits cs)).take n ++ r)) =
      digits cs :=
    digits_take_append cs
      (hrest.take_append (hr.mono fun c hc => by simp [(endsBefore_number hc).1]) n)
  have hdrop (behind : List Char) : (cs.take (digits cs) ++ behind).drop (digits cs) = behind :=
    List.drop_left' (length_take_digits cs)
  unfold number? at h
  split at h
  next hdigit =>
    obtain rfl := Option.some.inj h
    have hsound := (numberOf_fault ..).mp hfault
    rw [← List.drop_drop] at hsound
    obtain ⟨hfraction, hexponent⟩ := fraction_take_append hsound hr
    have hmore (decimalPoint : Bool) :
        (numberOf (digits cs + fraction (cs.drop (digits cs))) decimalPoint cs).more =
          digits cs + tailLength (cs.drop (digits cs)) := by
      rw [numberOf_more, ← List.drop_drop, Nat.add_assoc]
      rfl
    refine ⟨_, if_pos hdigit, ?_⟩
    rw [hmore, htake, hdigits, hdrop, hfraction, ← htake, ← hmore]
    refine numberOf_congr ?_ _ hfault
    rw [hmore, htake, ← List.drop_drop, hdrop, hexponent, List.drop_drop]
  next hdigit =>
    split at h
    next hpoint =>
      obtain rfl := Option.some.inj h
      have hexponent := exponent?_take_append ((numberOf_fault ..).mp hfault) hr
      have hmore := numberOf_more (digits cs) true cs
      refine ⟨_, (if_neg hdigit).trans (if_pos ?_), ?_⟩
      · rw [hmore, htake, hdigits]
        exact hpoint
      · rw [hmore, htake, hdigits, ← htake, ← hmore]
        refine numberOf_congr ?_ _ hfault
        rw [hmore, htake, hdrop, hexponent]
    next => cases h

/-! ## Strings and words -/

/-- A character of a string literal that no backslash keeps from closing it. -/
theorem stringTail_cons_of_plain (h : c = '\\' → cs = []) :
    stringTail quote (c :: cs) =
      if c = quote then (1, true)
      else if isLineBreak c then (0, false)
      else ((stringTail quote cs).1 + 1, (stringTail quote cs).2) := by
  rw [stringTail]
  rintro d ds hc rfl
  cases h hc

theorem stringTail_cons {c : Char} (hc : c ≠ '\\') (cs : List Char) :
    stringTail quote (c :: cs) =
      if c = quote then (1, true)
      else if isLineBreak c then (0, false)
      else ((stringTail quote cs).1 + 1, (stringTail quote cs).2) :=
  stringTail_cons_of_plain fun h => absurd h hc

/-- A string literal that is closed reaches up to its closing quote, whatever comes behind it. -/
theorem stringTail_take_append (hquote : quote ≠ '\\') (h : stringTail quote cs = (n, true))
    (r : List Char) : stringTail quote (cs.take n ++ r) = (n, true) := by
  fun_induction stringTail quote cs generalizing n with
  | case1 => cases h
  | case2 => cases h
  | case3 c cs hbreak m closed htail ih =>
    obtain ⟨rfl, rfl⟩ := Prod.mk.inj h
    rw [List.take_succ_cons, List.take_succ_cons, List.cons_append, List.cons_append, stringTail,
      if_neg hbreak, ih htail]
  | case4 cs =>
    obtain ⟨rfl, -⟩ := Prod.mk.inj h
    rw [List.take_succ_cons, List.cons_append, stringTail_cons hquote, if_pos rfl]
  | case5 => cases h
  | case6 c cs hpattern hc hbreak m closed htail ih =>
    obtain ⟨rfl, rfl⟩ := Prod.mk.inj h
    have hne : c ≠ '\\' := by
      rintro rfl
      cases cs with
      | nil => cases htail
      | cons d cs => exact hpattern d cs rfl rfl
    rw [List.take_succ_cons, List.cons_append, stringTail_cons hne, if_neg hc,
      if_neg hbreak, ih htail]

/-- The kind of a word of letters. -/
def wordKind (text : String) : Kind :=
  match Keyword.ofText? text with
  | some k => .keyword k
  | none => .identifier

theorem word_eq (c : Char) (cs : List Char) :
    word c cs =
      { kind := wordKind (String.ofList (c :: cs.takeWhile continuesName))
        more := (cs.takeWhile continuesName).length } := rfl

theorem endsBefore_wordKind (text : String) (c : Char) :
    (wordKind text).endsBefore c = !continuesName c := by
  unfold wordKind
  split <;> rfl

/-- A word is found where something comes behind it that does not go on with it. -/
theorem word_append (c : Char) {cs : List Char} (hcs : ∀ d ∈ cs, continuesName d = true)
    (hr : AtHead (!continuesName ·) r) :
    (word c (cs ++ r)).Sound (wordKind (String.ofList (c :: cs))) cs.length := by
  have htail : (cs ++ r).takeWhile continuesName = cs :=
    (takeWhile_append cs hr).trans (List.takeWhile_eq_self_iff.mpr hcs)
  rw [word_eq, htail]
  exact ⟨rfl, rfl, rfl⟩

/-! ## Literals, names and keywords -/

theorem isDigit_of_startsName {c : Char} (h : startsName c = true) : c.isDigit = false := by
  by_contra hdigit
  have hdigit : c.toNat ≤ 57 := by
    simp only [Char.isDigit, Bool.not_eq_false, Bool.and_eq_true, decide_eq_true_eq,
      UInt32.le_iff_toNat_le] at hdigit
    exact hdigit.2
  rw [startsName, Bool.or_eq_true, Bool.or_eq_true, Bool.and_eq_true] at h
  obtain (h | h) | ⟨h, -⟩ := h
  · obtain rfl := beq_iff_eq.mp h
    exact absurd hdigit (by decide)
  · obtain h | h := (Bool.or_eq_true _ _).mp h
    · have hle : 'A'.val ≤ c.val := (of_decide_eq_true h).1
      exact absurd (Nat.le_trans (UInt32.le_iff_toNat_le.mp hle) hdigit) (by decide)
    · have hle : 'a'.val ≤ c.val := of_decide_eq_true ((Bool.and_eq_true _ _).mp h).1
      exact absurd (Nat.le_trans (UInt32.le_iff_toNat_le.mp hle) hdigit) (by decide)
  · exact absurd (Nat.le_trans (of_decide_eq_true h) hdigit) (by decide)

/-- Where a name can start, a word starts. -/
theorem significant_of_startsName {c : Char} (h : startsName c = true) (cs : List Char) :
    significant c cs = word c cs := by
  have hne {d : Char} (hd : startsName d = false) : c ≠ d := by
    rintro rfl
    rw [h] at hd
    cases hd
  have hnumber : number? c cs = none := by
    rw [number?, if_neg (by simp [isDigit_of_startsName h]), if_neg fun hpoint => hne rfl hpoint.1]
  have hpair (d : Char) : pairMark? c d = none := by
    unfold pairMark?
    split <;> first | rfl | exact absurd rfl (hne rfl)
  have hmark : mark? c cs = none := by
    have hsingle : singleMark? c = none := by
      unfold singleMark?
      split <;> first | rfl | exact absurd rfl (hne rfl)
    unfold mark?
    rw [hsingle,
      show cs.head?.bind (pairMark? c) = none from
        Option.bind_eq_none_iff.mpr fun d _ => hpair d]
    rfl
  unfold significant
  rw [hnumber, hmark]
  exact (if_neg fun hquote => hquote.elim (hne rfl) (hne rfl)).trans (if_pos h)

theorem significant_quote (hc : c = '\'' ∨ c = '"') (cs : List Char) :
    significant c cs = stringLiteral c cs := by
  obtain rfl | rfl := hc <;> cases cs <;> rfl

theorem trivia?_eq_none_iff (c : Char) (cs : List Char) :
    trivia? c cs = none ↔ isLineBreak c = false ∧ isBlank c = false ∧
    startsComment c cs = false := by
  unfold trivia?
  cases isLineBreak c <;> cases isBlank c <;> cases startsComment c cs <;> simp

/-- What begins a text without trivia begins every text with the same first character, but for the
comments that two hyphens open. -/
theorem trivia?_congr (h : trivia? c cs = none) (hc : c ≠ '-') (ds : List Char) :
    trivia? c ds = none := by
  rw [trivia?_eq_none_iff] at h ⊢
  simpa [startsComment, hc] using h

theorem kind_of_number? (h : number? c cs = some e) : e.kind = .number := by
  obtain ⟨mantissa, decimalPoint, rfl⟩ := exists_numberOf h
  exact numberOf_kind ..

theorem isMark_of_mark? (h : mark? c cs = some e) : e.kind.isMark = true := by
  obtain ⟨m, more, rfl⟩ := exists_mark h
  rfl

/-- An element is spelled if it is found again before whatever can end it. -/
theorem spelled_of_found {e : Element} (htrivia : trivia? c cs = none) (hc : c ≠ '-')
    (hmore : e.more ≤ cs.length) (hfound : ∀ r, AtHead e.kind.endsBefore r →
      (significant c (cs.take e.more ++ r)).Sound e.kind e.more) :
    Word.Spelled ⟨e.kind, String.ofList (e.taken c cs)⟩ := by
  refine ⟨c, cs.take e.more, fun r hr =>
    ⟨String.toList_ofList, trivia?_congr htrivia hc _, ?_⟩⟩
  rw [List.length_take, Nat.min_eq_left hmore]
  exact hfound r hr

theorem spelled_word (htrivia : trivia? c cs = none) (hname : startsName c = true) :
    Word.Spelled ⟨(word c cs).kind, String.ofList ((word c cs).taken c cs)⟩ := by
  have hc : c ≠ '-' := by
    rintro rfl
    cases hname
  refine spelled_of_found htrivia hc (List.takeWhile_prefix _).length_le fun r hr => ?_
  have htake : cs.take (word c cs).more = cs.takeWhile continuesName := take_takeWhile _ cs
  rw [significant_of_startsName hname, htake]
  refine word_append c (fun d => List.mem_takeWhile_imp) (hr.mono fun d hd => ?_)
  rwa [word_eq, endsBefore_wordKind] at hd

theorem spelled_string (htrivia : trivia? c cs = none) (hquote : c = '\'' ∨ c = '"')
    (hfault : (stringLiteral c cs).fault = none) :
    Word.Spelled ⟨(stringLiteral c cs).kind,
      String.ofList ((stringLiteral c cs).taken c cs)⟩ := by
  have hclosed : (stringTail c cs).2 = true := by
    by_contra hopen
    cases (if_neg hopen).symm.trans hfault
  have hc : c ≠ '-' ∧ c ≠ '\\' := by
    obtain rfl | rfl := hquote <;> decide
  refine spelled_of_found htrivia hc.1 (stringTail_le c cs) fun r _ => ?_
  have htail : stringTail c (cs.take (stringLiteral c cs).more ++ r) =
      ((stringTail c cs).1, true) :=
    stringTail_take_append hc.2 (Prod.ext rfl hclosed) r
  rw [significant_quote hquote, stringLiteral, htail]
  exact ⟨rfl, rfl, rfl⟩

theorem spelled_number (htrivia : trivia? c cs = none) (hnumber : number? c cs = some e)
    (hfault : e.fault = none) : Word.Spelled ⟨e.kind, String.ofList (e.taken c cs)⟩ := by
  have hc : c ≠ '-' := by
    rintro rfl
    cases hnumber
  refine spelled_of_found htrivia hc (more_le_of_number? hnumber) fun r hr => ?_
  rw [kind_of_number? hnumber] at hr ⊢
  obtain ⟨e', he', hsound⟩ := number?_take_append hnumber hfault hr
  rw [significant, he']
  exact hsound

/-- A literal, name or keyword that is found without a fault is spelled. -/
theorem spelled_of_significant (htrivia : trivia? c cs = none)
    (hfault : (significant c cs).fault = none) (hmark : (significant c cs).kind.isMark = false) :
    Word.Spelled ⟨(significant c cs).kind, String.ofList ((significant c cs).taken c cs)⟩ := by
  obtain hnumber | hfound | ⟨hquote, heq⟩ | ⟨hname, heq⟩ | heq := significant_cases c cs
  · exact spelled_number htrivia hnumber hfault
  · rw [isMark_of_mark? hfound] at hmark
    cases hmark
  · rw [heq] at hfault ⊢
    exact spelled_string htrivia hquote hfault
  · rw [heq]
    exact spelled_word htrivia hname
  · rw [heq] at hfault
    cases hfault

/-! ## Marks and keywords -/

/-- A mark of one character is found where nothing makes another token of it. -/
theorem spelled_single {m : Mark} (c : Char) (htext : m.text.toList = [c])
    (hmark : singleMark? c = some m) (hfree : ∀ r, AtHead (Kind.mark m).endsBefore r →
      trivia? c r = none ∧ number? c r = none ∧ r.head?.bind (pairMark? c) = none) :
    Word.Spelled ⟨.mark m, m.text⟩ := by
  refine ⟨c, [], fun r hr => ?_⟩
  obtain ⟨htrivia, hnumber, hpair⟩ := hfree r hr
  refine ⟨htext, htrivia, ?_⟩
  rw [List.nil_append, significant, hnumber, mark?, hpair, hmark]
  exact ⟨rfl, rfl, rfl⟩

theorem spelled_pair {m : Mark} (c d : Char) (htext : m.text.toList = [c, d])
    (hmark : pairMark? c d = some m)
    (hfree : ∀ r, trivia? c (d :: r) = none ∧ number? c (d :: r) = none) :
    Word.Spelled ⟨.mark m, m.text⟩ := by
  refine ⟨c, [d], fun r _ => ?_⟩
  obtain ⟨htrivia, hnumber⟩ := hfree r
  refine ⟨htext, htrivia, ?_⟩
  rw [List.singleton_append, significant, hnumber, mark?, List.head?_cons, Option.bind_some, hmark]
  exact ⟨rfl, rfl, rfl⟩

theorem spelled_mark (m : Mark) : Word.Spelled ⟨.mark m, m.text⟩ := by
  have hpair {c : Char} {r : List Char} {p : Char → Bool} (hr : AtHead p r)
      (h : ∀ d, p d = true → pairMark? c d = none) : r.head?.bind (pairMark? c) = none :=
    Option.bind_eq_none_iff.mpr fun d hd => h d (hr d hd)
  cases m with
  | plus => exact spelled_single '+' (by decide) rfl fun r _ => ⟨rfl, rfl, by cases r <;> rfl⟩
  | slash => exact spelled_single '/' (by decide) rfl fun r _ => ⟨rfl, rfl, by cases r <;> rfl⟩
  | openParen =>
    exact spelled_single '(' (by decide) rfl fun r _ => ⟨rfl, rfl, by cases r <;> rfl⟩
  | closeParen =>
    exact spelled_single ')' (by decide) rfl fun r _ => ⟨rfl, rfl, by cases r <;> rfl⟩
  | openBracket =>
    exact spelled_single '[' (by decide) rfl fun r _ => ⟨rfl, rfl, by cases r <;> rfl⟩
  | closeBracket =>
    exact spelled_single ']' (by decide) rfl fun r _ => ⟨rfl, rfl, by cases r <;> rfl⟩
  | comma => exact spelled_single ',' (by decide) rfl fun r _ => ⟨rfl, rfl, by cases r <;> rfl⟩
  | colon => exact spelled_single ':' (by decide) rfl fun r _ => ⟨rfl, rfl, by cases r <;> rfl⟩
  | semicolon =>
    exact spelled_single ';' (by decide) rfl fun r _ => ⟨rfl, rfl, by cases r <;> rfl⟩
  | power => exact spelled_pair '*' '*' (by decide) rfl fun _ => ⟨rfl, rfl⟩
  | concat => exact spelled_pair '|' '|' (by decide) rfl fun _ => ⟨rfl, rfl⟩
  | doubleEqual => exact spelled_pair '=' '=' (by decide) rfl fun _ => ⟨rfl, rfl⟩
  | notEqual => exact spelled_pair '!' '=' (by decide) rfl fun _ => ⟨rfl, rfl⟩
  | lessGreater => exact spelled_pair '<' '>' (by decide) rfl fun _ => ⟨rfl, rfl⟩
  | lessEqual => exact spelled_pair '<' '=' (by decide) rfl fun _ => ⟨rfl, rfl⟩
  | greaterEqual => exact spelled_pair '>' '=' (by decide) rfl fun _ => ⟨rfl, rfl⟩
  | minus =>
    refine spelled_single '-' (by decide) rfl fun r hr => ⟨?_, rfl, by cases r <;> rfl⟩
    rw [trivia?_eq_none_iff]
    refine ⟨rfl, rfl, ?_⟩
    cases r with
    | nil => rfl
    | cons c r => simpa [startsComment, Kind.endsBefore] using hr c rfl
  | dot =>
    refine spelled_single '.' (by decide) rfl fun r hr => ⟨rfl, ?_, by cases r <;> rfl⟩
    have hdigits : digits r = 0 := digits_append [] hr
    rw [number?, if_neg (by decide), if_neg (by simp [hdigits])]
  | asterisk =>
    refine spelled_single '*' (by decide) rfl fun r hr => ⟨rfl, rfl, hpair hr fun d hd => ?_⟩
    unfold pairMark?
    split <;> first | rfl | contradiction
  | equal =>
    refine spelled_single '=' (by decide) rfl fun r hr => ⟨rfl, rfl, hpair hr fun d hd => ?_⟩
    unfold pairMark?
    split <;> first | rfl | contradiction
  | less =>
    refine spelled_single '<' (by decide) rfl fun r hr => ⟨rfl, rfl, hpair hr fun d hd => ?_⟩
    unfold pairMark?
    split <;> first | rfl | contradiction
  | greater =>
    refine spelled_single '>' (by decide) rfl fun r hr => ⟨rfl, rfl, hpair hr fun d hd => ?_⟩
    unfold pairMark?
    split <;> first | rfl | contradiction

/-- The keywords that stand between or behind operands. -/
def operatorWords : List Keyword :=
  [.NOT, .IS, .NULL, .CLIPPED, .OR, .AND, .LIKE, .MATCHES, .USING, .MOD]

theorem spelled_keyword {k : Keyword} (hk : k ∈ operatorWords) :
    Word.Spelled ⟨.keyword k, k.text⟩ := by
  have hletters : ∀ k ∈ operatorWords,
      (k.text.toList.head?.any fun c => startsName c && (trivia? c []).isNone) = true ∧
        k.text.toList.tail.all continuesName = true ∧ wordKind k.text = .keyword k := by
    decide +kernel
  obtain ⟨hfirst, hrest, hkind⟩ := hletters k hk
  obtain ⟨c, hc, hfirst⟩ : ∃ c, k.text.toList.head? = some c ∧
      (startsName c && (trivia? c []).isNone) = true := by
    cases hhead : k.text.toList.head? with
    | none => rw [hhead] at hfirst; cases hfirst
    | some c => exact ⟨c, rfl, by rwa [hhead] at hfirst⟩
  obtain ⟨hname, htrivia⟩ := Bool.and_eq_true_iff.mp hfirst
  have htext : k.text.toList = c :: k.text.toList.tail := (List.cons_head?_tail hc).symm
  refine ⟨c, k.text.toList.tail, fun r hr => ⟨htext, ?_, ?_⟩⟩
  · refine trivia?_congr (Option.isNone_iff_eq_none.mp htrivia) ?_ _
    rintro rfl
    cases hname
  · rw [significant_of_startsName hname, ← hkind]
    have hsound := word_append c (List.all_eq_true.mp hrest) hr
    rwa [← htext, String.ofList_toList] at hsound

end Element

namespace Word.Spelled

variable {w : Word} (h : w.Spelled)
include h

/-- A name or keyword has the kind that its text says. -/
theorem kind_eq (hw : (w.kind.canBeName || w.kind.isKeyword) = true) :
    w.kind = Element.wordKind w.text := by
  obtain ⟨c, cs, hclear⟩ := h
  obtain ⟨htext, -, hsound⟩ := hclear [] (.nil _)
  rw [List.append_nil] at hsound
  rw [← hsound.kind_eq] at hw ⊢
  obtain hnumber | hmark | ⟨-, heq⟩ | ⟨-, heq⟩ | heq := Element.significant_cases c cs
  · rw [Element.kind_of_number? hnumber] at hw
    cases hw
  · have hmark := Element.isMark_of_mark? hmark
    revert hw hmark
    cases (Element.significant c cs).kind <;> simp [Kind.canBeName, Kind.isKeyword, Kind.isMark]
  · rw [heq] at hw
    cases hw
  · have hmore := hsound.more_eq
    rw [heq] at hmore
    have hall : cs.takeWhile continuesName = cs := (List.takeWhile_prefix _).eq_of_length hmore
    rw [heq, Element.word_eq, hall, ← htext, String.ofList_toList]
  · rw [heq] at hw
    cases hw

/-- Only a minus begins with a hyphen. -/
theorem atHead_minus (hkind : w.kind ≠ .mark .minus) (r : List Char) :
    AtHead (Kind.mark .minus).endsBefore (w.text.toList ++ r) := by
  obtain ⟨c, cs, hclear⟩ := h
  obtain ⟨htext, -, hsound⟩ := hclear [] (.nil _)
  rw [htext]
  refine .cons ?_ _
  by_contra hc
  obtain rfl : c = '-' := by simpa [Kind.endsBefore] using hc
  refine hkind (hsound.kind_eq.symm.trans ?_)
  cases cs <;> rfl

/-- Only a number begins with a digit. -/
theorem atHead_dot (hkind : w.kind ≠ .number) (r : List Char) :
    AtHead (Kind.mark .dot).endsBefore (w.text.toList ++ r) := by
  obtain ⟨c, cs, hclear⟩ := h
  obtain ⟨htext, -, hsound⟩ := hclear [] (.nil _)
  rw [htext]
  refine .cons ?_ _
  by_contra hc
  have hdigit : c.isDigit = true := by simpa [Kind.endsBefore] using hc
  refine hkind (hsound.kind_eq.symm.trans ?_)
  rw [Element.significant, Element.number?, if_pos hdigit]
  exact Element.numberOf_kind ..

end Word.Spelled

/-! ## Texts of words -/

/-- A part of a text: a blank or a word. -/
inductive Piece where
  | blank
  | word (w : Word)

namespace Piece

def chars : Piece → List Char
  | blank => [' ']
  | word w => w.text.toList

def word? : Piece → Option Word
  | blank => none
  | word w => some w

/-- The text that pieces make up. -/
def text (ps : List Piece) : List Char := ps.flatMap chars

/-- The words among pieces. -/
def words (ps : List Piece) : List Word := ps.filterMap word?

end Piece

/-- Every word is spelled and ends before what comes behind it, and behind every blank comes a
word. -/
inductive Legible : List Piece → Prop where
  | nil : Legible []
  | blank (h : Legible (.word w :: ps)) : Legible (.blank :: .word w :: ps)
  | word (hspelled : w.Spelled) (hends : AtHead w.kind.endsBefore (Piece.text ps))
      (h : Legible ps) : Legible (.word w :: ps)

namespace Scanner

/-- What is scanned are these words, without a fault and all in one line. -/
structure Yields (ss : List Scanned) (ws : List Word) : Prop where
  words_eq : ss.map (·.token.word) = ws ++ [⟨.endOfFile, ""⟩]
  plain : ∀ s ∈ ss, s.issues = [] ∧ s.token.lineBreakBefore = false

end Scanner

open Scanner

namespace Scanner

/-- A blank before a word is passed over. -/
theorem all_blank (hc : Element.trivia? c cs = none) (pos : Nat) :
    all ⟨.default, pos, ' ' :: c :: cs, false⟩ =
    all ⟨.default, pos + 1, c :: cs, false⟩ := by
  have hblank : Element.trivia? ' ' (c :: cs) = some { kind := .whitespace, more := 0 } := by
    have hmore : ((c :: cs).takeWhile isBlank).length = 0 := by
      simp [((Element.trivia?_eq_none_iff c cs).mp hc).2.1]
    rw [show Element.trivia? ' ' (c :: cs) = some (Element.blanks (c :: cs)) from rfl,
      Element.blanks, hmore]
  rw [all_default, all_default, skipTrivia, hblank]
  rfl

/-- A word is found where it stands clear. -/
theorem resume_word (h : w.Clear c cs ds) {t : Skipped} (hrest : t.rest = c :: (cs ++ ds)) :
    ∃ u : Token, u.word = w ∧ u.lineBreakBefore = t.sawBreak ∧ u.start = t.pos ∧
      u.stop = t.pos + (cs.length + 1) ∧
      resume t = ⟨u, t.issues⟩ :: all ⟨.default, t.pos + (cs.length + 1), ds, false⟩ := by
  obtain ⟨htext, htrivia, hkind, hmore, hfault⟩ := h
  have htaken : (Element.significant c (cs ++ ds)).taken c (cs ++ ds) = c :: cs := by
    rw [Element.taken, hmore, List.take_left]
  refine ⟨(Element.significant c (cs ++ ds)).token t.sawBreak t.pos c (cs ++ ds), ?_,
    rfl, rfl, ?_, ?_⟩
  · rw [Token.word, Element.token, htaken, ← htext, hkind, String.ofList_toList]
  · rw [Element.token, htaken, List.length_cons]
  · unfold resume
    rw [hrest]
    dsimp only
    rw [htaken, Element.behind, hmore, List.drop_left, Element.issues, hfault]
    dsimp only
    rw [List.append_nil, List.length_cons]

theorem all_word (h : w.Clear c cs ds) (pos : Nat) :
    ∃ t : Token, t.word = w ∧ t.lineBreakBefore = false ∧ t.start = pos ∧
      t.stop = pos + (cs.length + 1) ∧ all ⟨.default, pos, c :: (cs ++ ds), false⟩ =
        ⟨t, []⟩ :: all ⟨.default, pos + (cs.length + 1), ds, false⟩ := by
  rw [all_default, skipTrivia, h.trivia_eq]
  exact resume_word (t := ⟨pos, c :: (cs ++ ds), false, []⟩) h rfl

/-- The words of a legible text are found one by one. -/
theorem yields_of_legible (h : Legible ps) (pos : Nat) :
    Yields (all ⟨.default, pos, Piece.text ps, false⟩) (Piece.words ps) := by
  induction h generalizing pos with
  | nil =>
    rw [all_default, show Piece.text [] = [] from rfl, skipTrivia]
    refine ⟨rfl, fun s hs => ?_⟩
    obtain rfl := List.mem_singleton.mp hs
    exact ⟨rfl, rfl⟩
  | @blank w ps hword ih =>
    cases hword with
    | word hspelled hends =>
      obtain ⟨c, cs, hclear⟩ := hspelled
      obtain ⟨htext, htrivia, -⟩ := hclear _ hends
      have htext : Piece.text (.word w :: ps) = c :: (cs ++ Piece.text ps) :=
        congrArg (· ++ Piece.text ps) htext
      have hyields := ih (pos + 1)
      rw [htext, ← all_blank htrivia] at hyields
      rw [show Piece.text (.blank :: .word w :: ps) = ' ' :: Piece.text (.word w :: ps) from rfl,
        htext]
      exact hyields
  | @word ps w hspelled hends _ ih =>
    obtain ⟨c, cs, hclear⟩ := hspelled
    obtain ⟨t, hword, hbreak, -, -, hall⟩ := all_word (hclear _ hends) pos
    obtain ⟨hwords, hplain⟩ := ih (pos + (cs.length + 1))
    rw [show Piece.text (.word w :: ps) = c :: (cs ++ Piece.text ps) from
      congrArg (· ++ Piece.text ps) (hclear _ hends).text_eq, hall]
    refine ⟨?_, List.forall_mem_cons.mpr ⟨⟨rfl, hbreak⟩, hplain⟩⟩
    rw [List.map_cons, hwords, hword]
    rfl

end Scanner

/-! ## Words of any text -/

/-- What is wrong with an element is an error. -/
theorem Element.fault_eq_none {c : Char} {cs : List Char} {pos : Nat}
    (h : Diagnostic.errorCount ((significant c cs).issues pos c cs) = 0) :
    (significant c cs).fault = none := by
  cases hfault : (significant c cs).fault with
  | none => rfl
  | some m =>
    rw [issues, hfault] at h
    obtain rfl | rfl | rfl | rfl := fault_significant hfault <;> cases h

namespace Scanner

theorem trivia?_skipTrivia {pos : Nat} (h : (skipTrivia pos cs sawBreak issues).rest = c :: ds) :
    Element.trivia? c ds = none := by
  fun_induction skipTrivia pos cs sawBreak issues with
  | case1 => cases h
  | case2 pos sawBreak issues c' cs' hnone =>
    obtain ⟨rfl, rfl⟩ := List.cons.inj h
    exact hnone
  | case3 _ _ _ _ _ _ _ ih => exact ih h

/-- What is scanned without an error is spelled. -/
theorem spelled_of_mem_all {x : Scanned} (pos : Nat) (cs : List Char)
    (hx : x ∈ all ⟨.default, pos, cs, false⟩) (hend : x.token.kind ≠ .endOfFile)
    (hmark : x.token.kind.isMark = false) (herrors : Diagnostic.errorCount x.issues = 0) :
    x.token.word.Spelled := by
  rw [all_default] at hx
  unfold resume at hx
  split at hx
  · obtain rfl := List.mem_singleton.mp hx
    exact absurd rfl hend
  next c ds hrest =>
    obtain rfl | hx := List.mem_cons.mp hx
    · refine Element.spelled_of_significant (trivia?_skipTrivia hrest) ?_ hmark
      rw [Diagnostic.errorCount, List.countP_append, Nat.add_eq_zero_iff] at herrors
      exact Element.fault_eq_none herrors.2
    · have hle := length_rest_skipTrivia_le pos cs false []
      rw [hrest, List.length_cons] at hle
      have hlt : ((Element.significant c ds).behind ds).length < cs.length :=
        Nat.lt_of_lt_of_le (Nat.lt_succ_of_le (Element.length_behind_le _ ds)) hle
      exact spelled_of_mem_all _ _ hx hend hmark herrors
termination_by cs.length

end Scanner

namespace Lexeme

/-- The lexemes of a text do not depend on how it is scanned, but for the trivia before them. -/
theorem map_scanned_ofText (mode : ScanMode) (text : String) :
    (ofText mode text).map scanned = scan .default text := by
  cases mode with
  | verbatim => exact scanned_ofText_verbatim text
  | default =>
    have hgather (ss : List Scanned) (hss : ∀ s ∈ ss, s.token.kind.isTrivia = false) :
        (gather [] [] ss).map scanned = ss := by
      induction ss with
      | nil => rfl
      | cons s ss ih =>
        obtain ⟨hs, hss⟩ := List.forall_mem_cons.mp hss
        rw [gather, if_neg (by simp [hs]), List.map_cons, ih hss]
        rfl
    exact hgather _ fun s hs => isTrivia_of_mem_tokens_default (List.mem_map_of_mem hs)

/-- A legible text is read as its words, in either mode. -/
theorem yields_ofText (h : Legible ps) (mode : ScanMode) :
    Yields ((ofText mode (String.ofList (Piece.text ps))).map scanned) (Piece.words ps) := by
  rw [map_scanned_ofText, scan, Scanner.ofText, String.toList_ofList]
  exact yields_of_legible h 0

/-- A word of a text that is read without an error is spelled. -/
theorem spelled {mode : ScanMode} {l : Lexeme} (hl : l ∈ ofText mode text)
    (hend : l.token.kind ≠ .endOfFile) (hmark : l.token.kind.isMark = false)
    (herrors : Diagnostic.errorCount l.issues = 0) : l.token.word.Spelled := by
  have hscanned : l.scanned ∈ scan .default text :=
    map_scanned_ofText mode text ▸ List.mem_map_of_mem hl
  exact Scanner.spelled_of_mem_all 0 text.toList hscanned hend hmark herrors

end Lexeme

end FourGL
