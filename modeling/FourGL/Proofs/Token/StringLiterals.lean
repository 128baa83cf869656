import FourGL.Proofs.Token.Spelling

/-!
# String literals

Where a literal ends is decided by the scanner, what it stands for by the function that undoes the
escapes. Both agree on every text: written between quotes, with a backslash before each backslash
and each quote and with escapes for the control characters, a text is scanned as one literal that
is closed and stands for the text again (`tokens_literal`).
-/

namespace FourGL

namespace Token

/-- How a character is written in a literal between quotes `quote`. -/
def escape (quote c : Char) : List Char :=
  if c = '\\' ∨ c = quote then ['\\', c]
  else if c = '\n' then ['\\', 'n']
  else if c = '\r' then ['\\', 'r']
  else if c = '\t' then ['\\', 't']
  else [c]

/-- What a character stands for behind a backslash. -/
def escaped (c : Char) : Char :=
  if c = 'n' then '\n' else if c = 't' then '\t' else if c = 'r' then '\r' else c

/-- The literal between quotes `quote` that stands for `text`. -/
def literal (quote : Char) (text : String) : String :=
  String.ofList (quote :: (text.toList.flatMap (escape quote) ++ [quote]))

theorem unescape_escaped (c : Char) (cs : List Char) :
    unescape ('\\' :: c :: cs) = escaped c :: unescape cs := rfl

theorem unescape_cons {c : Char} (hc : c ≠ '\\') (cs : List Char) :
    unescape (c :: cs) = c :: unescape cs := by
  rw [unescape]
  exact fun _ _ h _ => hc h

/-! ## One character -/

/-- A character is written with a backslash or as itself. The quote and what ends a line never
stand as themselves. -/
inductive Written (quote c : Char) : List Char → Prop where
  | escaped (d : Char) (hstands : escaped d = c) (hline : isLineBreak d = false) :
    Written quote c ['\\', d]
  | plain (hslash : c ≠ '\\') (hquote : c ≠ quote) (hline : isLineBreak c = false) :
    Written quote c [c]

/-- The separators that no escape is there for. -/
def isSeparator (c : Char) : Bool := c.toNat == 0x2028 || c.toNat == 0x2029

theorem isLineBreak_eq (c : Char) : isLineBreak c = (c == '\n' || c == '\r' || isSeparator c) := by
  simp only [isLineBreak, isSeparator, Bool.or_assoc]

theorem written_escape {quote c : Char} (hquote : quote = '\'' ∨ quote = '"')
    (hc : isSeparator c = false) : Written quote c (escape quote c) := by
  unfold escape
  split
  next h =>
    -- A quote or a backslash: it ends no line and no escape is spelled with it.
    have hmark : c = '\\' ∨ c = '\'' ∨ c = '"' := by
      rcases h with h | rfl
      · exact .inl h
      · exact .inr hquote
    apply Written.escaped
    · rcases hmark with rfl | rfl | rfl <;> rfl
    · rcases hmark with rfl | rfl | rfl <;> rfl
  next h =>
    obtain ⟨hslash, hne⟩ := not_or.mp h
    split
    next h => exact h ▸ .escaped 'n' rfl rfl
    next hfeed =>
      split
      next h => exact h ▸ .escaped 'r' rfl rfl
      next hreturn =>
        split
        next h => exact h ▸ .escaped 't' rfl rfl
        next =>
          refine .plain hslash hne ?_
          rw [isLineBreak_eq, hc]
          simp [hfeed, hreturn]

/-! ## The whole text -/

variable {quote : Char} {cs : List Char}

/-- The quote that closes a literal is the first one that no backslash stands before. -/
theorem stringTail_escape (hquote : quote = '\'' ∨ quote = '"')
    (hcs : ∀ c ∈ cs, isSeparator c = false) (rest : List Char) :
    Element.stringTail quote (cs.flatMap (escape quote) ++ quote :: rest) =
      ((cs.flatMap (escape quote)).length + 1, true) := by
  have hslash : quote ≠ '\\' := by
    rcases hquote with rfl | rfl <;> decide
  induction cs with
  | nil => exact (Element.stringTail_cons hslash rest).trans (if_pos rfl)
  | cons c cs ih =>
    have ih := ih fun d hd => hcs d (List.mem_cons_of_mem c hd)
    rw [List.flatMap_cons, List.append_assoc, List.length_append]
    have hwritten := written_escape hquote (hcs c List.mem_cons_self)
    generalize escape quote c = w at hwritten ⊢
    cases hwritten with
    | escaped d hstands hline =>
      simp only [List.cons_append, List.nil_append, Element.stringTail, hline, ih]
      simp only [Bool.false_eq_true, if_false, List.length_cons, List.length_nil]
      rw [Prod.mk.injEq]
      exact ⟨by omega, rfl⟩
    | plain hne hquote hline =>
      rw [List.cons_append, List.nil_append, Element.stringTail_cons hne, if_neg hquote, hline, ih]
      simp only [Bool.false_eq_true, if_false, List.length_cons, List.length_nil]
      rw [Prod.mk.injEq]
      exact ⟨by omega, rfl⟩

/-- Undoing the escapes yields what was written with them. -/
theorem unescape_escape (hquote : quote = '\'' ∨ quote = '"')
    (hcs : ∀ c ∈ cs, isSeparator c = false) : unescape (cs.flatMap (escape quote)) = cs := by
  induction cs with
  | nil => rfl
  | cons c cs ih =>
    have ih := ih fun d hd => hcs d (List.mem_cons_of_mem c hd)
    rw [List.flatMap_cons]
    have hwritten := written_escape hquote (hcs c List.mem_cons_self)
    generalize escape quote c = w at hwritten ⊢
    cases hwritten with
    | escaped d hstands hline =>
      rw [List.cons_append, List.cons_append, List.nil_append, unescape_escaped, hstands, ih]
    | plain hne hquote hline => rw [List.cons_append, List.nil_append, unescape_cons hne, ih]

/-- The token of a literal that begins a text. -/
def ofLiteral (quote : Char) (text : String) : Token where
  kind := .string
  start := 0
  stop := (literal quote text).toList.length
  text := literal quote text
  flags := { doubleQuoted := quote == '"' }

theorem value_ofLiteral {text : String} (hquote : quote = '\'' ∨ quote = '"')
    (htext : ∀ c ∈ text.toList, isSeparator c = false) :
    (ofLiteral quote text).value = text := by
  have hinner : unquote false (literal quote text).toList = text.toList := by
    simp [unquote, literal, unescape_escape hquote htext]
  change String.ofList (unquote false (literal quote text).toList) = text
  rw [hinner, String.ofList_toList]

end Token

/-! ## Scanning a literal -/

open Scanner

variable {quote : Char} {cs : List Char} {text : String}

/-- The literal as one element: the scanner takes all of it and finds no fault. -/
theorem Element.significant_literal (hquote : quote = '\'' ∨ quote = '"')
    (hcs : ∀ c ∈ cs, Token.isSeparator c = false) :
    significant quote (cs.flatMap (Token.escape quote) ++ [quote]) =
      { kind := .string
        more := (cs.flatMap (Token.escape quote) ++ [quote]).length
        flags := { doubleQuoted := quote == '"' } } := by
  rw [significant_quote hquote, stringLiteral, Token.stringTail_escape hquote hcs [],
    List.length_append]
  rfl

theorem scan_literal (hquote : quote = '\'' ∨ quote = '"')
    (htext : ∀ c ∈ text.toList, Token.isSeparator c = false) :
    scan .default (Token.literal quote text) =
      [{ token := .ofLiteral quote text, issues := [] },
        { token := .endOfFile (Token.literal quote text).toList.length, issues := [] }] := by
  have htrivia (cs : List Char) : Element.trivia? quote cs = none := by
    rcases hquote with rfl | rfl <;> rfl
  have hend (pos : Nat) : all ⟨.default, pos, [], false⟩ = [finish pos false []] := by
    rw [all_default, skipTrivia]
    rfl
  have hfound := Element.significant_literal hquote htext
  unfold Token.ofLiteral Token.literal
  generalize text.toList.flatMap (Token.escape quote) ++ [quote] = cs at hfound ⊢
  rw [scan, Scanner.ofText, String.toList_ofList, all_default, skipTrivia, htrivia]
  simp only [resume, hfound, Element.taken, Element.behind, Element.token, Element.issues,
    List.take_length, List.drop_length, hend, Nat.zero_add]
  rfl

/-- A text written as a literal is scanned as one token and the end of file. Nothing is reported,
and the token stands for the text. -/
theorem tokens_literal (hquote : quote = '\'' ∨ quote = '"')
    (htext : ∀ c ∈ text.toList, Token.isSeparator c = false) :
    ∃ t : Token, t.kind = .string ∧ t.text = Token.literal quote text ∧ t.value = text ∧
      tokens .default (Token.literal quote text) =
        [t, .endOfFile (Token.literal quote text).toList.length] ∧
      scanIssues .default (Token.literal quote text) = [] := by
  refine ⟨.ofLiteral quote text, rfl, rfl, Token.value_ofLiteral hquote htext, ?_, ?_⟩
  · rw [tokens, scan_literal hquote htext]
    rfl
  · rw [scanIssues, scan_literal hquote htext]
    rfl

/-- A text with both quotes, a line feed and a backslash at its end. -/
theorem tokens_literal_marks :
    (∀ c ∈ "a\"'\n\\".toList, Token.isSeparator c = false) ∧
      ∃ t : Token, t.kind = .string ∧ t.text = "'a\"\\'\\n\\\\'" ∧ t.value = "a\"'\n\\" ∧
        tokens .default "'a\"\\'\\n\\\\'" = [t, .endOfFile 10] ∧
        scanIssues .default "'a\"\\'\\n\\\\'" = [] := by
  have htext : ∀ c ∈ "a\"'\n\\".toList, Token.isSeparator c = false := by
    simp [Token.isSeparator]
  have hliteral : Token.literal '\'' "a\"'\n\\" = "'a\"\\'\\n\\\\'" := by decide
  have h := @tokens_literal '\'' "a\"'\n\\" (.inl rfl) htext
  rw [hliteral] at h
  exact ⟨htext, h⟩

end FourGL
