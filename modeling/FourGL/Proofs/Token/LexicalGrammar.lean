import FourGL.Proofs.Token.Spelling
import Mathlib.Data.List.Nodup

/-!
# The lexical grammar

For each kind of token a description of its text that does not speak of scanning: which characters
it is made of, what its flags tell about them, and for names, keywords and unknown characters what
must not come behind them (`Token.Formed`). The tokens of every text cover it and keep to this
grammar (`tokens_verbatim_formed`).
-/

namespace FourGL

/-! ## Keywords -/

namespace Keyword

theorem mem_all (k : Keyword) : k ∈ all := by cases k <;> decide

theorem nodup_text : (all.map text).Nodup := by
  -- The texts are in alphabetical order.
  have hchain : (all.map text).IsChain (· < ·) := by decide +kernel
  refine hchain.pairwise.imp fun {a b} hlt => ?_
  rintro rfl
  exact String.lt_irrefl a hlt

theorem text_injective : Function.Injective text :=
  fun a b h => List.inj_on_of_nodup_map nodup_text (mem_all a) (mem_all b) h

theorem ofText?_eq_some_iff {s : String} {k : Keyword} :
    ofText? s = some k ↔ s.toLower = k.text := by
  unfold ofText?
  constructor
  · intro h
    exact (beq_iff_eq.mp (List.find?_some (p := fun j : Keyword => j.text == s.toLower) h)).symm
  · intro h
    cases hfind : all.find? (fun j => j.text == s.toLower) with
    | none => exact absurd (List.find?_eq_none.mp hfind k (mem_all k)) (by simp [h])
    | some j =>
      have htext := beq_iff_eq.mp
          (List.find?_some (p := fun j : Keyword => j.text == s.toLower) hfind)
      rw [text_injective (htext.trans h)]

end Keyword

/-! ## Names and keywords -/

/-- The text begins as a name does, goes on as a name does, and what comes behind it does not go on
with it. It is a keyword if it is one in lowercase, else a name. -/
structure IsWord (kind : Kind) (text : String) (next? : Option Char) : Prop where
  letters : ∃ c cs, text.toList = c :: cs ∧ startsName c = true ∧
    ∀ d ∈ cs, continuesName d = true
  maximal : ∀ d ∈ next?, continuesName d = false
  keyword_iff : ∀ k, kind = .keyword k ↔ text.toLower = k.text

/-! ## Numbers -/

/-- The exponent of a number. It may lack its digits: then the number is malformed. -/
structure Exponent where
  letter : Char
  sign : Option Char
  digits : List Char
  letter_eq : letter = 'e' ∨ letter = 'E'
  sign_eq : ∀ c ∈ sign, c = '+' ∨ c = '-'
  isDigit : ∀ c ∈ digits, c.isDigit = true

namespace Exponent

def chars (x : Exponent) : List Char := x.letter :: (x.sign.toList ++ x.digits)

theorem point_notMem (x : Exponent) : '.' ∉ x.chars := by
  intro h
  obtain h | h := List.mem_cons.mp h
  · have hletter := x.letter_eq
    rw [← h] at hletter
    revert hletter
    decide
  · obtain h | h := List.mem_append.mp h
    · have hsign := x.sign_eq _ (Option.mem_toList.mp h)
      revert hsign
      decide
    · cases x.isDigit _ h

theorem letter_mem (x : Exponent) : 'e' ∈ x.chars ∨ 'E' ∈ x.chars := by
  obtain h | h := x.letter_eq
  · exact .inl (h ▸ List.mem_cons_self)
  · exact .inr (h ▸ List.mem_cons_self)

end Exponent

/-- A number: digits, then perhaps a decimal point and digits, then perhaps an exponent. The digits
may be missing in front of the point or behind it, but not on both sides. -/
structure Numeral where
  whole : List Char
  fraction : Option (List Char)
  exponent : Option Exponent
  isDigit : ∀ c ∈ whole ++ fraction.getD [], c.isDigit = true
  digits_ne_nil : whole ++ fraction.getD [] ≠ []

namespace Numeral

/-- The digits in front of the exponent, and the point. -/
def mantissa (n : Numeral) : List Char := n.whole ++ n.fraction.elim [] ('.' :: ·)

def chars (n : Numeral) : List Char := n.mantissa ++ n.exponent.elim [] Exponent.chars

theorem mem_mantissa (n : Numeral) {c : Char} (h : c ∈ n.mantissa) :
    c.isDigit = true ∨ c = '.' ∧ n.fraction.isSome = true := by
  obtain h | h := List.mem_append.mp h
  · exact .inl (n.isDigit c (List.mem_append_left _ h))
  · cases hfraction : n.fraction with
    | none =>
      rw [hfraction] at h
      cases h
    | some ds =>
      rw [hfraction] at h
      obtain rfl | h := List.mem_cons.mp h
      · exact .inr ⟨rfl, rfl⟩
      · refine .inl (n.isDigit c (List.mem_append_right _ ?_))
        rwa [hfraction]

theorem point_mem_iff (n : Numeral) : '.' ∈ n.chars ↔ n.fraction.isSome = true := by
  constructor
  · intro h
    obtain h | h := List.mem_append.mp h
    · obtain h | ⟨-, h⟩ := n.mem_mantissa h
      · cases h
      · exact h
    · cases hexponent : n.exponent with
      | none =>
        rw [hexponent] at h
        cases h
      | some x =>
        rw [hexponent] at h
        exact absurd h x.point_notMem
  · intro h
    obtain ⟨ds, hds⟩ := Option.isSome_iff_exists.mp h
    refine List.mem_append_left _ (List.mem_append_right _ ?_)
    rw [hds]
    exact List.mem_cons_self

theorem letter_mem_iff (n : Numeral) :
    ('e' ∈ n.chars ∨ 'E' ∈ n.chars) ↔ n.exponent.isSome = true := by
  have hmantissa {c : Char} (hc : c = 'e' ∨ c = 'E') : c ∉ n.mantissa := by
    intro h
    obtain h | ⟨h, -⟩ := n.mem_mantissa h <;> obtain rfl | rfl := hc <;> revert h <;> decide
  rw [chars, List.mem_append, List.mem_append, or_iff_right (hmantissa (.inl rfl)),
    or_iff_right (hmantissa (.inr rfl))]
  cases n.exponent with
  | none => simp
  | some x => exact iff_of_true x.letter_mem rfl

end Numeral

/-- The text is a number, and the flags tell whether it has a point, whether it has an exponent and
whether the exponent lacks its digits. -/
def IsNumber (cs : List Char) (flags : Flags) : Prop :=
  ∃ n : Numeral, cs = n.chars ∧ (flags.decimalPoint = true ↔ '.' ∈ cs) ∧
    (flags.scientific = true ↔ 'e' ∈ cs ∨ 'E' ∈ cs) ∧
    (flags.invalid = true ↔ ∃ x ∈ n.exponent, x.digits = [])

/-! ## Strings -/

/-- The characters behind an opening quote close the string: a backslash goes with the character
behind it, and no other character but the last is the quote. -/
inductive ClosedTail (quote : Char) : List Char → Prop where
  | closing : ClosedTail quote [quote]
  | escape (c : Char) : ClosedTail quote cs → ClosedTail quote ('\\' :: c :: cs)
  | plain : c ≠ quote → c ≠ '\\' → ClosedTail quote cs → ClosedTail quote (c :: cs)

namespace ClosedTail

theorem not_nil : ¬ ClosedTail quote [] := by
  intro h
  cases h

theorem singleton_iff : ClosedTail quote [c] ↔ c = quote := by
  constructor
  · rintro (- | - | ⟨-, -, ⟨⟩⟩)
    rfl
  · rintro rfl
    exact .closing

theorem escape_iff (hquote : quote ≠ '\\') :
    ClosedTail quote ('\\' :: c :: cs) ↔ ClosedTail quote cs := by
  constructor
  · intro h
    cases h with
    | escape _ h => exact h
    | plain _ hne _ => exact absurd rfl hne
  · exact .escape c

theorem plain_iff (hc : c ≠ quote) (hslash : c ≠ '\\') :
    ClosedTail quote (c :: cs) ↔ ClosedTail quote cs := by
  constructor
  · intro h
    cases h with
    | closing => exact absurd rfl hc
    | escape => exact absurd rfl hslash
    | plain _ _ h => exact h
  · exact .plain hc hslash

end ClosedTail

/-- The text begins with a quote and stays within its line. The flags tell which quote it is, and
whether the string is closed. -/
def IsString (cs : List Char) (flags : Flags) : Prop :=
  ∃ quote tail, cs = quote :: tail ∧ (quote = '\'' ∨ quote = '"') ∧
    (∀ c ∈ cs, isLineBreak c = false) ∧ (flags.doubleQuoted = true ↔ quote = '"') ∧
    (flags.unterminated = false ↔ ClosedTail quote tail)

/-! ## Trivia -/

/-- A carriage return and the line feed behind it are one line break. -/
def IsLineBreak (cs : List Char) : Prop :=
  cs = ['\r', '\n'] ∨ ∃ c, cs = [c] ∧ isLineBreak c = true

/-- A comment takes the rest of its line, or goes up to a closing brace, which may be missing. -/
inductive IsComment : List Char → Bool → Prop where
  | line : ['#'] <+: cs ∨ ['-', '-'] <+: cs → (∀ c ∈ cs, isLineBreak c = false) →
      IsComment cs false
  | block : '\x7d' ∉ cs → IsComment ('\x7b' :: (cs ++ ['\x7d'])) false
  | unterminated : '\x7d' ∉ cs → IsComment ('\x7b' :: cs) true

/-! ## Tokens of any kind -/

/-- No element but an unknown one begins with the character, where `next?` comes behind it. -/
structure StartsNothing (c : Char) (next? : Option Char) : Prop where
  lineBreak : isLineBreak c = false
  blank : isBlank c = false
  comment : c ≠ '#' ∧ c ≠ '\x7b'
  digit : c.isDigit = false
  mark : ∀ m : Mark, ¬ m.text.toList <+: c :: next?.toList
  quote : c ≠ '\'' ∧ c ≠ '"'
  name : startsName c = false

/-- The token is what the lexical grammar has for its kind, where `next?` is the character behind
it. -/
def Token.Formed (t : Token) (next? : Option Char) : Prop :=
  match t.kind with
  | .unknown => ∃ c, t.text.toList = [c] ∧ StartsNothing c next?
  | .endOfFile => t.text = ""
  | .whitespace => t.text.toList ≠ [] ∧ ∀ c ∈ t.text.toList, isBlank c = true
  | .newLine => IsLineBreak t.text.toList
  | .comment => IsComment t.text.toList t.flags.unterminated
  | .identifier | .keyword _ => IsWord t.kind t.text next?
  | .number => IsNumber t.text.toList t.flags
  | .string => IsString t.text.toList t.flags
  | .mark m => t.text = m.text

theorem Token.formed_word {t : Token} (hkind : t.kind = .identifier ∨ ∃ k, t.kind = .keyword k)
    (h : IsWord t.kind t.text next?) : t.Formed next? := by
  unfold Token.Formed
  obtain hkind | ⟨k, hkind⟩ := hkind
  · rw [hkind] at h ⊢
    exact h
  · rw [hkind] at h ⊢
    exact h

namespace Element

/-! ## Numbers are formed -/

theorem isDigit_of_mem_take {cs : List Char} {c : Char} (h : c ∈ cs.take (digits cs)) :
    c.isDigit = true := by
  rw [take_digits] at h
  exact List.mem_takeWhile_imp h

/-- What is taken for an exponent is one, or nothing. -/
theorem exists_exponent (cs : List Char) : ∃ x : Option Exponent,
    cs.take (exponentLength cs) = x.elim [] Exponent.chars ∧
      (exponent? cs).map (·.2) = x.map (·.digits.length) := by
  cases cs with
  | nil => exact ⟨none, rfl, rfl⟩
  | cons c cs =>
    by_cases hletter : c = 'e' ∨ c = 'E'
    · have hsign : ∃ sign : Option Char, cs.take (signLength cs) = sign.toList ∧
          ∀ d ∈ sign, d = '+' ∨ d = '-' := by
        unfold signLength
        split
        next h =>
          cases cs with
          | nil => simp at h
          | cons d cs => exact ⟨some d, rfl, fun d' hd => by cases hd; simpa using h⟩
        next => exact ⟨none, rfl, nofun⟩
      obtain ⟨sign, htake, hsign⟩ := hsign
      let rest := cs.drop (signLength cs)
      refine ⟨some ⟨c, sign, rest.take (digits rest), hletter, hsign,
        fun d => isDigit_of_mem_take⟩, ?_, ?_⟩
      · rw [exponentLength, exponent?_cons, if_pos hletter, Option.map_some, Option.getD_some,
          Nat.add_assoc, Nat.add_comm, List.take_succ_cons, List.take_add, htake]
        rfl
      · rw [exponent?_cons, if_pos hletter, Option.map_some, Option.map_some, length_take_digits]
    · refine ⟨none, ?_, ?_⟩
      · rw [exponentLength, exponent?_cons, if_neg hletter]
        rfl
      · rw [exponent?_cons, if_neg hletter]
        rfl

/-- What is taken for a fraction is one, or nothing. -/
theorem exists_fraction (cs : List Char) : ∃ f : Option (List Char),
    cs.take (fraction cs) = f.elim [] ('.' :: ·) ∧ (∀ c ∈ f.getD [], c.isDigit = true) ∧
      decide (0 < fraction cs) = f.isSome := by
  unfold fraction
  split
  next cs =>
    split
    · exact ⟨none, rfl, nofun, rfl⟩
    · refine ⟨some (cs.take (digits cs)), List.take_succ_cons,
        fun c => isDigit_of_mem_take, ?_⟩
      exact decide_eq_true (Nat.succ_pos _)
  next => exact ⟨none, rfl, nofun, rfl⟩

theorem numberOf_flags (mantissa : Nat) (decimalPoint : Bool) (cs : List Char) :
    (numberOf mantissa decimalPoint cs).flags =
      { scientific := ((exponent? (cs.drop mantissa)).map (·.2)).isSome
        decimalPoint
        invalid := ((exponent? (cs.drop mantissa)).map (·.2)).any (· == 0) } := by
  unfold numberOf
  split <;> simp_all

/-- A number is formed if its mantissa is. -/
theorem isNumber_numberOf (whole : List Char) (fraction : Option (List Char)) {decimalPoint : Bool}
    (hmantissa : c :: cs.take mantissa = whole ++ fraction.elim [] ('.' :: ·))
    (hdigits : ∀ d ∈ whole ++ fraction.getD [], d.isDigit = true)
    (hne : whole ++ fraction.getD [] ≠ []) (hpoint : decimalPoint = fraction.isSome) :
    IsNumber ((numberOf mantissa decimalPoint cs).taken c cs)
      (numberOf mantissa decimalPoint cs).flags := by
  obtain ⟨x, htake, hx⟩ := exists_exponent (cs.drop mantissa)
  let n : Numeral := ⟨whole, fraction, x, hdigits, hne⟩
  have htaken : (numberOf mantissa decimalPoint cs).taken c cs = n.chars := by
    rw [taken, numberOf_more, List.take_add, ← List.cons_append, hmantissa, htake]
    rfl
  rw [htaken, numberOf_flags, hx]
  refine ⟨n, rfl, ?_, ?_, ?_⟩
  · rw [n.point_mem_iff, hpoint]
  · rw [n.letter_mem_iff, Option.isSome_map]
  · cases x with
    | none => simp [n]
    | some x => simp [n]

theorem isNumber_of_number? (h : number? c cs = some e) : IsNumber (e.taken c cs) e.flags := by
  unfold number? at h
  split at h
  next hdigit =>
    obtain rfl := Option.some.inj h
    obtain ⟨f, htake, hdigits, hpoint⟩ := exists_fraction (cs.drop (digits cs))
    refine isNumber_numberOf (c :: cs.take (digits cs)) f ?_ ?_ ?_ hpoint
    · rw [List.take_add, htake, List.cons_append]
    · intro d hd
      rw [List.cons_append, List.mem_cons, List.mem_append] at hd
      obtain rfl | hd | hd := hd
      · exact hdigit
      · exact isDigit_of_mem_take hd
      · exact hdigits d hd
    · exact List.cons_ne_nil _ _
  next =>
    split at h
    next hpoint =>
      obtain ⟨rfl, hpos⟩ := hpoint
      obtain rfl := Option.some.inj h
      refine isNumber_numberOf [] (some (cs.take (digits cs))) rfl ?_ ?_ rfl
      · exact fun d => isDigit_of_mem_take
      · refine List.ne_nil_of_length_pos ?_
        rw [List.nil_append, Option.getD_some, length_take_digits]
        exact hpos
    next => cases h

/-! ## Marks and words are formed -/

theorem text_of_mark? (h : mark? c cs = some e) :
    ∃ m, e.kind = .mark m ∧ e.taken c cs = m.text.toList := by
  unfold mark? at h
  split at h
  next m hpair =>
    obtain rfl := Option.some.inj h
    obtain ⟨d, hd, hm⟩ := Option.bind_eq_some_iff.mp hpair
    refine ⟨m, rfl, ?_⟩
    cases cs with
    | nil => cases hd
    | cons d' cs =>
      obtain rfl := Option.some.inj hd
      rw [taken, List.take_succ_cons, List.take_zero]
      unfold pairMark? at hm
      split at hm <;> first | (cases hm; decide) | cases hm
  next =>
    obtain ⟨m, hm, rfl⟩ := Option.map_eq_some_iff.mp h
    refine ⟨m, rfl, ?_⟩
    rw [taken, List.take_zero]
    unfold singleMark? at hm
    split at hm <;> first | (cases hm; decide) | cases hm

/-- The text of a mark is one of those that scanning looks for. -/
theorem text_cases (m : Mark) :
    (∃ c, m.text.toList = [c] ∧ (singleMark? c).isSome = true) ∨
      ∃ c d, m.text.toList = [c, d] ∧ (pairMark? c d).isSome = true := by
  cases m <;> first | exact .inl ⟨_, rfl, rfl⟩ | exact .inr ⟨_, _, rfl, rfl⟩

/-- Where the text of a mark stands, a mark is found. -/
theorem not_prefix_of_mark? (h : mark? c cs = none) (m : Mark) :
    ¬ m.text.toList <+: c :: cs.head?.toList := by
  intro hprefix
  unfold mark? at h
  split at h
  next => cases h
  next hpair =>
    have hsingle : singleMark? c = none := Option.map_eq_none_iff.mp h
    rcases text_cases m with ⟨a, htext, ha⟩ | ⟨a, b, htext, hab⟩
    · rw [htext, List.cons_prefix_cons] at hprefix
      obtain ⟨rfl, -⟩ := hprefix
      rw [hsingle] at ha
      cases ha
    · rw [htext, List.cons_prefix_cons] at hprefix
      obtain ⟨rfl, hb⟩ := hprefix
      cases cs with
      | nil => cases List.eq_nil_of_prefix_nil hb
      | cons d cs =>
        obtain ⟨rfl, -⟩ := List.cons_prefix_cons.mp hb
        rw [show pairMark? a b = none from hpair] at hab
        cases hab

theorem wordKind_eq_keyword_iff {text : String} {k : Keyword} :
    wordKind text = .keyword k ↔ text.toLower = k.text := by
  rw [← Keyword.ofText?_eq_some_iff, wordKind]
  cases Keyword.ofText? text <;> simp

theorem wordKind_cases (text : String) :
    wordKind text = .identifier ∨ ∃ k, wordKind text = .keyword k := by
  unfold wordKind
  cases Keyword.ofText? text with
  | none => exact .inl rfl
  | some k => exact .inr ⟨k, rfl⟩

theorem isWord_word (hname : startsName c = true) (cs : List Char) :
    IsWord (word c cs).kind (String.ofList ((word c cs).taken c cs))
      ((word c cs).behind cs).head? := by
  have htake : cs.take (word c cs).more = cs.takeWhile continuesName := take_takeWhile _ cs
  rw [taken, htake]
  refine ⟨⟨c, _, String.toList_ofList, hname, fun d => List.mem_takeWhile_imp⟩, ?_, ?_⟩
  · intro d hd
    have hbehind : (word c cs).behind cs = cs.dropWhile continuesName := drop_takeWhile _ cs
    rw [hbehind] at hd
    simpa using atHead_dropWhile continuesName cs d hd
  · intro k
    rw [word_eq]
    exact wordKind_eq_keyword_iff

/-! ## Strings are formed -/

/-- A string is closed exactly if its closing quote was found. -/
theorem closedTail_iff (hquote : quote ≠ '\\') (cs : List Char) :
    ClosedTail quote (cs.take (stringTail quote cs).1) ↔ (stringTail quote cs).2 = true := by
  fun_induction stringTail quote cs with
  | case1 => exact iff_of_false ClosedTail.not_nil Bool.false_ne_true
  | case2 c cs hbreak =>
    exact iff_of_false (fun h => hquote (ClosedTail.singleton_iff.mp h).symm) Bool.false_ne_true
  | case3 c cs hbreak n closed htail ih =>
    rw [htail] at ih
    rw [List.take_succ_cons, List.take_succ_cons, ClosedTail.escape_iff hquote, ih]
  | case4 cs => exact iff_of_true .closing rfl
  | case5 => exact iff_of_false ClosedTail.not_nil Bool.false_ne_true
  | case6 c cs hescape hc hbreak n closed htail ih =>
    rw [htail] at ih
    by_cases hslash : c = '\\'
    · -- A backslash at the end of the text escapes nothing.
      obtain rfl : cs = [] := by
        cases cs with
        | nil => rfl
        | cons d ds => exact absurd rfl (hescape d ds hslash)
      obtain ⟨rfl, rfl⟩ := Prod.mk.inj htail
      exact iff_of_false (fun h => hc (ClosedTail.singleton_iff.mp h)) Bool.false_ne_true
    · rw [List.take_succ_cons, ClosedTail.plain_iff hc hslash, ih]

/-- A string stays within its line. -/
theorem isLineBreak_stringTail (hquote : isLineBreak quote = false) (cs : List Char) :
    ∀ c ∈ cs.take (stringTail quote cs).1, isLineBreak c = false := by
  have hslash : isLineBreak '\\' = false := by decide
  fun_induction stringTail quote cs with
  | case1 => exact List.forall_mem_nil _
  | case2 c cs hbreak => exact List.forall_mem_singleton.mpr hslash
  | case3 c cs hbreak n closed htail ih =>
    rw [htail] at ih
    rw [List.take_succ_cons, List.take_succ_cons, List.forall_mem_cons, List.forall_mem_cons]
    exact ⟨hslash, Bool.eq_false_of_not_eq_true hbreak, ih⟩
  | case4 cs => exact List.forall_mem_singleton.mpr hquote
  | case5 => exact List.forall_mem_nil _
  | case6 c cs hescape hc hbreak n closed htail ih =>
    rw [htail] at ih
    exact List.forall_mem_cons.mpr ⟨Bool.eq_false_of_not_eq_true hbreak, ih⟩

theorem isString_stringLiteral (hc : c = '\'' ∨ c = '"') (cs : List Char) :
    IsString ((stringLiteral c cs).taken c cs) (stringLiteral c cs).flags := by
  have hquote : isLineBreak c = false ∧ c ≠ '\\' := by
    obtain rfl | rfl := hc <;> decide
  refine ⟨c, cs.take (stringTail c cs).1, rfl, hc, ?_, ?_, ?_⟩
  · exact List.forall_mem_cons.mpr ⟨hquote.1, isLineBreak_stringTail hquote.1 cs⟩
  · exact beq_iff_eq
  · rw [closedTail_iff hquote.2, ← Bool.not_eq_false']
    rfl

/-! ## Trivia are formed -/

theorem take_blanks (cs : List Char) : cs.take (blanks cs).more = cs.takeWhile isBlank :=
  take_takeWhile isBlank cs

theorem isLineBreak_lineBreak (hc : isLineBreak c = true) (cs : List Char) :
    IsLineBreak ((lineBreak c cs).taken c cs) := by
  unfold taken lineBreak
  dsimp only
  split
  next h =>
    obtain ⟨rfl, hhead⟩ := h
    obtain ⟨ds, rfl⟩ := List.head?_eq_some_iff.mp hhead
    exact .inl rfl
  next => exact .inr ⟨c, rfl, hc⟩

theorem isComment_blockComment (cs : List Char) :
    IsComment ((blockComment cs).taken '\x7b' cs) (blockComment cs).flags.unterminated := by
  have hinside : '\x7d' ∉ cs.takeWhile (· != '\x7d') := fun h => by
    simpa using List.mem_takeWhile_imp h
  unfold taken blockComment
  dsimp only
  split
  next hlt =>
    -- What stops the comment is a closing brace.
    obtain ⟨d, ds, hdrop⟩ : ∃ d ds, cs.dropWhile (· != '\x7d') = d :: ds := by
      refine List.exists_cons_of_ne_nil fun hnil => ?_
      rw [List.dropWhile_eq_nil_iff, ← List.takeWhile_eq_self_iff] at hnil
      rw [hnil] at hlt
      exact Nat.lt_irrefl _ hlt
    obtain rfl : d = '\x7d' := by
      have hhead := atHead_dropWhile (· != '\x7d') cs
      rw [hdrop] at hhead
      simpa using hhead d rfl
    rw [List.take_add, take_takeWhile, drop_takeWhile, hdrop]
    exact .block hinside
  next =>
    rw [take_takeWhile]
    exact .unterminated hinside

theorem isComment_lineComment (h : startsComment c cs = true) (hc : c ≠ '\x7b') :
    IsComment ((lineComment cs).taken c cs) (lineComment cs).flags.unterminated := by
  have htake : (lineComment cs).taken c cs = c :: cs.takeWhile fun d => !isLineBreak d :=
    congrArg (c :: ·) (take_takeWhile _ cs)
  have hinside : ∀ d ∈ cs.takeWhile fun d => !isLineBreak d, isLineBreak d = false :=
    fun d hd => by simpa using List.mem_takeWhile_imp hd
  rw [htake]
  have hstart : c = '#' ∨ c = '-' ∧ cs.head? = some '-' := by
    simpa [startsComment, hc] using h
  obtain rfl | ⟨rfl, hhead⟩ := hstart
  · refine .line (.inl ⟨_, rfl⟩) (List.forall_mem_cons.mpr ⟨by decide, hinside⟩)
  · obtain ⟨ds, rfl⟩ := List.head?_eq_some_iff.mp hhead
    exact .line (.inr ⟨_, rfl⟩) (List.forall_mem_cons.mpr ⟨by decide, hinside⟩)

/-! ## Elements are formed -/

/-- Where only an unknown element is found, no other one begins. -/
theorem startsNothing_of_unknown (htrivia : trivia? c cs = none) (h : significant c cs = unknown) :
    StartsNothing c cs.head? := by
  obtain ⟨hbreak, hblank, hcomment⟩ := (trivia?_eq_none_iff c cs).mp htrivia
  have hnumber : number? c cs = none := by
    cases hnumber : number? c cs with
    | none => rfl
    | some e =>
      rw [significant, hnumber] at h
      cases (kind_of_number? hnumber).symm.trans (congrArg Element.kind h)
  have hmark : mark? c cs = none := by
    cases hmark : mark? c cs with
    | none => rfl
    | some e =>
      rw [significant, hnumber, hmark] at h
      cases (isMark_of_mark? hmark).symm.trans (congrArg (·.kind.isMark) h)
  have hquote : ¬ (c = '\'' ∨ c = '"') := by
    intro hc
    rw [significant_quote hc] at h
    cases congrArg Element.kind h
  have hname : startsName c = false := by
    by_contra hname
    rw [Bool.not_eq_false] at hname
    rw [significant_of_startsName hname] at h
    rcases wordKind_cases (String.ofList (c :: cs.takeWhile continuesName)) with
      hkind | ⟨k, hkind⟩
    · cases hkind.symm.trans (congrArg Element.kind h)
    · cases hkind.symm.trans (congrArg Element.kind h)
  refine ⟨hbreak, hblank, ?_, ?_, not_prefix_of_mark? hmark, not_or.mp hquote, hname⟩
  · constructor <;> rintro rfl <;> cases hcomment
  · by_contra hdigit
    rw [Bool.not_eq_false] at hdigit
    rw [number?, if_pos hdigit] at hnumber
    cases hnumber

variable (lineBreakBefore : Bool) (pos : Nat)

theorem toList_text_token (e : Element) (c : Char) (cs : List Char) :
    (e.token lineBreakBefore pos c cs).text.toList = e.taken c cs := String.toList_ofList

theorem formed_of_trivia? (h : trivia? c cs = some e) (next? : Option Char) :
    (e.token lineBreakBefore pos c cs).Formed next? := by
  cases triviaOf_of_trivia? h with
  | lineBreak hbreak =>
    change IsLineBreak (token ..).text.toList
    rw [toList_text_token]
    exact isLineBreak_lineBreak hbreak cs
  | blanks hblank =>
    change (token ..).text.toList ≠ [] ∧ ∀ d ∈ (token ..).text.toList, isBlank d = true
    rw [toList_text_token, taken, take_blanks]
    exact ⟨List.cons_ne_nil _ _, List.forall_mem_cons.mpr
      ⟨hblank, fun d => List.mem_takeWhile_imp⟩⟩
  | blockComment hbrace =>
    subst hbrace
    rw [Token.Formed, toList_text_token, show (token ..).kind = .comment from kind_blockComment cs]
    exact isComment_blockComment cs
  | lineComment hcomment hbrace =>
    change IsComment (token ..).text.toList _
    rw [toList_text_token]
    exact isComment_lineComment hcomment hbrace

theorem formed_significant (htrivia : trivia? c cs = none) :
    ((significant c cs).token lineBreakBefore pos c cs).Formed
      ((significant c cs).behind cs).head? := by
  obtain hnumber | hmark | ⟨hquote, heq⟩ | ⟨hname, heq⟩ | heq := significant_cases c cs
  · rw [Token.Formed, toList_text_token,
      show (token ..).kind = .number from kind_of_number? hnumber]
    exact isNumber_of_number? hnumber
  · obtain ⟨m, hkind, htaken⟩ := text_of_mark? hmark
    rw [Token.Formed, show (token ..).kind = .mark m from hkind]
    apply String.toList_inj.mp
    rw [toList_text_token, htaken]
  · rw [heq]
    change IsString (token ..).text.toList _
    rw [toList_text_token]
    exact isString_stringLiteral hquote cs
  · rw [heq]
    exact Token.formed_word (wordKind_cases _) (isWord_word hname cs)
  · have hnothing := startsNothing_of_unknown htrivia heq
    rw [heq]
    exact ⟨c, String.toList_ofList, hnothing⟩

end Element

/-! ## Tokens are formed -/

namespace Scanner

theorem formed_verbatimElement (lineBreakBefore : Bool) (pos : Nat) (c : Char) (cs : List Char) :
    ((verbatimElement c cs).token lineBreakBefore pos c cs).Formed
      ((verbatimElement c cs).behind cs).head? := by
  unfold verbatimElement
  cases htrivia : Element.trivia? c cs with
  | some e => exact Element.formed_of_trivia? lineBreakBefore pos htrivia _
  | none => exact Element.formed_significant lineBreakBefore pos htrivia

/-- The tokens of the rest of a text are formed, each before the character behind it in the text. -/
theorem formed_all {chars : List Char} (pos : Nat) (pending : Bool) (hcs : chars.drop pos = cs) :
    ∀ s ∈ all ⟨.verbatim, pos, cs, pending⟩, s.token.Formed chars[s.token.stop]? := by
  intro s hs
  match cs, hcs, hs with
  | [], _, hs =>
    rw [all_verbatim_nil] at hs
    obtain rfl := List.mem_singleton.mp hs
    rfl
  | c :: cs, hcs, hs =>
    obtain ⟨flag, pending', hnext⟩ := next_verbatim_cons pos c cs pending
    have hkind := verbatimElement_ne_endOfFile c cs
    have hbehind : chars.drop (pos + ((verbatimElement c cs).taken c cs).length) =
        (verbatimElement c cs).behind cs := by
      rw [← List.drop_drop, hcs, ← (verbatimElement c cs).taken_append_behind c
        cs, List.drop_left]
    rw [all_eq, hnext] at hs
    dsimp only at hs
    rw [if_neg (by exact hkind)] at hs
    obtain rfl | hs := List.mem_cons.mp hs
    · have hformed := formed_verbatimElement flag pos c cs
      rw [← hbehind, List.head?_drop] at hformed
      exact hformed
    · exact formed_all _ _ hbehind s hs
termination_by cs.length
decreasing_by exact Nat.lt_succ_of_le (Element.length_behind_le _ cs)

end Scanner

/-- The tokens of a text cover it, and each of them keeps to the lexical grammar. -/
theorem tokens_verbatim_formed (text : String) :
    CoversText text (tokens .verbatim text) ∧
      ∀ t ∈ tokens .verbatim text, t.Formed text.toList[t.stop]? := by
  refine ⟨(tiles_tokens_verbatim text).coversText, fun t ht => ?_⟩
  obtain ⟨s, hs, rfl⟩ := List.mem_map.mp ht
  exact Scanner.formed_all 0 false rfl s hs

/-- An exponent without digits belongs to the number all the same. -/
theorem tokens_verbatim_formed_number :
    ⟨.number, 0, 5, "1.5e+", { scientific := true, decimalPoint := true, invalid := true }⟩ ∈
        tokens .verbatim "1.5e+" ∧
      IsNumber "1.5e+".toList { scientific := true, decimalPoint := true, invalid := true } := by
  have ht : ⟨.number, 0, 5, "1.5e+",
      { scientific := true, decimalPoint := true, invalid := true }⟩ ∈
      tokens .verbatim "1.5e+" := by decide +kernel
  exact ⟨ht, (tokens_verbatim_formed "1.5e+").2 _ ht⟩

end FourGL
