import FourGL.Proofs.Grammar.ParallelBlocks
import FourGL.Proofs.Token.Spelling

/-!
# Layout

Parsing sees a text only through its tokens. Two texts that are scanned to the same tokens, but for
blanks, comments and the case of letters, are read side by side: offsets correspond that belong to
the token of the same index, and words that differ in case only. What scanning says about a token is
settled by its kind and its flags, unless a comment is left open before it.
-/

namespace FourGL

open FourGL.Parser FourGL.ParseState

/-! ## Issues of tokens -/

namespace Token

/-- What is wrong with a token. -/
def fault? (t : Token) : Option Message :=
  match t.kind with
  | .string => if t.flags.unterminated then some .unterminatedString else none
  | .number => if t.flags.invalid then some .malformedNumber else none
  | .unknown => some .invalidCharacter
  | _ => none

/-- What is to be said about a token. -/
def issues (t : Token) : List Diagnostic :=
  (t.fault?.map fun m => Diagnostic.of m [t.text] (some t.span)).toList

end Token

namespace Element

theorem fault_numberOf_eq (mantissa : Nat) (decimalPoint : Bool) (cs : List Char) (b : Bool)
    (pos : Nat) (c : Char) (ds : List Char) :
    (numberOf mantissa decimalPoint cs).fault =
      ((numberOf mantissa decimalPoint cs).token b pos c ds).fault? := by
  unfold numberOf
  split
  · rfl
  next n _ => by_cases h : n = 0 <;> simp [Token.fault?, token, h]

theorem fault_significant_eq (c : Char) (cs : List Char) (b : Bool) (pos : Nat) :
    (significant c cs).fault = ((significant c cs).token b pos c cs).fault? := by
  refine significant_of_sorts (P := fun e => e.fault = (e.token b pos c cs).fault?)
    (fun mantissa decimalPoint => fault_numberOf_eq mantissa decimalPoint cs b pos c cs)
      (fun _ _ => rfl)
    ?_ ?_ rfl
  · unfold stringLiteral
    dsimp only
    generalize (stringTail c cs).2 = closed
    cases closed <;> rfl
  · unfold word
    dsimp only
    generalize Keyword.ofText? _ = k
    cases k <;> rfl

theorem issues_significant (c : Char) (cs : List Char) (b : Bool) (pos : Nat) :
    (significant c cs).issues pos c cs = ((significant c cs).token b pos c cs).issues := by
  unfold issues Token.issues
  rw [← fault_significant_eq]
  split
  next h => rw [h]; rfl
  next h => rw [h]; rfl

theorem code_of_trivia? {c : Char} {cs : List Char} {e : Element} (h : trivia? c cs = some e)
    (pos : Nat) : ∀ d ∈ e.issues pos c cs, d.code = Message.unterminatedComment.code := by
  have hfault : e.fault = none ∨ e.fault = some .unterminatedComment := by
    unfold trivia? at h
    split at h
    · cases h; exact .inl rfl
    · split at h
      · cases h; exact .inl rfl
      · split at h
        · cases h
          unfold blockComment
          dsimp only
          split
          · split
            · exact .inl rfl
            · exact .inr rfl
          · exact .inl rfl
        · cases h
  unfold issues
  obtain hfault | hfault := hfault
  · simp [hfault]
  · rw [hfault]
    intro d hd
    rw [List.mem_singleton.mp hd]
    rfl

end Element

namespace Scanner

/-- While trivia is passed over, only comments that are left open are reported. -/
theorem code_issues_skipTrivia (pos : Nat) (cs : List Char) (sawBreak : Bool)
    (issues : List Diagnostic) :
    ∀ d ∈ (skipTrivia pos cs sawBreak issues).issues,
      d ∈ issues ∨ d.code = Message.unterminatedComment.code := by
  fun_induction skipTrivia pos cs sawBreak issues with
  | case1 => exact fun d hd => .inl hd
  | case2 => exact fun d hd => .inl hd
  | case3 pos sawBreak issues c cs e he ih =>
    intro d hd
    obtain hd | hd := ih d hd
    · obtain hd | hd := List.mem_append.mp hd
      · exact .inl hd
      · exact .inr (Element.code_of_trivia? he pos d hd)
    · exact .inr hd

theorem issues_next (s : Scanner) (hmode : s.mode = .default)
    (h : ∀ d ∈ s.next.1.issues, d.code ≠ Message.unterminatedComment.code) :
    s.next.1.issues = s.next.1.token.issues := by
  have hskip := code_issues_skipTrivia s.pos s.rest false []
  unfold next at *
  rw [hmode] at *
  dsimp only at *
  generalize skipTrivia s.pos s.rest false [] = t at *
  have hnil (h : ∀ d ∈ t.issues, d.code ≠ Message.unterminatedComment.code) :
      t.issues = [] := by
    refine List.eq_nil_iff_forall_not_mem.mpr fun d hd => h d hd ?_
    exact (hskip d hd).resolve_left List.not_mem_nil
  split
  next hrest =>
    rw [hrest] at h
    exact hnil h
  next c cs hrest =>
    rw [hrest] at h
    have hnone := hnil fun d hd => h d (List.mem_append_left _ hd)
    dsimp only
    rw [hnone, List.nil_append]
    exact Element.issues_significant ..

theorem mode_next (s : Scanner) : s.next.2.mode = s.mode := by
  unfold next
  split
  next h =>
    dsimp only
    split <;> exact h ▸ rfl
  next h =>
    split
    · exact h ▸ rfl
    · split <;> exact h ▸ rfl

/-- Where no comment is left open, what is said about the text is said about its tokens. -/
theorem issues_all (s : Scanner) (hmode : s.mode = .default)
    (h : ∀ x ∈ s.all, ∀ d ∈ x.issues, d.code ≠ Message.unterminatedComment.code) :
    ∀ x ∈ s.all, x.issues = x.token.issues := by
  fun_induction all s with
  | case1 s found behind hnext hkind =>
    have hfound := s.issues_next hmode
    rw [hnext] at hfound
    intro x hx
    obtain rfl := List.mem_singleton.mp hx
    exact hfound (h x hx)
  | case2 s found behind hnext hkind ih =>
    have hfound := s.issues_next hmode
    have hbehind := s.mode_next
    rw [hnext] at hfound hbehind
    intro x hx
    obtain rfl | hx := List.mem_cons.mp hx
    · exact hfound (h x (List.mem_cons_self ..))
    · exact ih (hbehind.trans hmode) (fun x hx => h x (List.mem_cons_of_mem _ hx)) x hx

end Scanner

/-- Scanning finds no comment that is left open. -/
def CommentsClosed (text : String) : Prop :=
  ∀ d ∈ scanIssues .default text, d.code ≠ Message.unterminatedComment.code

instance : Decidable (CommentsClosed text) := inferInstanceAs (Decidable (∀ d ∈ _, _))

theorem CommentsClosed.issues_eq (h : CommentsClosed text) {l : Lexeme}
    (hl : l ∈ Lexeme.ofText mode text) : l.issues = l.token.issues := by
  have hscanned : l.scanned ∈ scan .default text :=
    Lexeme.map_scanned_ofText mode text ▸ List.mem_map_of_mem hl
  refine Scanner.issues_all (.ofText .default text) rfl (fun x hx d hd => ?_) l.scanned hscanned
  exact h d (List.mem_flatMap.mpr ⟨x, hx, hd⟩)

/-! ## Corresponding tokens -/

/-- Tokens that differ at most in their places and in the case of letters. -/
structure Token.Alike (t u : Token) : Prop where
  kind_eq : t.kind = u.kind
  flags_eq : t.flags = u.flags
  text_eq : t.text.toLower = u.text.toLower

theorem Token.alike_iff (t u : Token) : t.Alike u ↔ t.kind = u.kind ∧ t.flags = u.flags ∧
    t.text.toList.map Char.toLower = u.text.toList.map Char.toLower := by
  rw [← String.toList_map, ← String.toList_map, String.toList_inj]
  exact ⟨fun h => ⟨h.kind_eq, h.flags_eq, h.text_eq⟩, fun h => ⟨h.1, h.2.1, h.2.2⟩⟩

instance : DecidableRel Token.Alike := fun t u => decidable_of_iff' _ (t.alike_iff u)

/-- The offsets are edges of tokens of the same index in the two texts. -/
def SameIndex (a b : String) (edge : Token → Nat) (p q : Nat) : Prop :=
  ∃ (i : Nat) (t u : Token), (tokens .default a)[i]? = some t ∧
    (tokens .default b)[i]? = some u ∧ edge t = p ∧ edge u = q

/-- Tokens start one behind the other. -/
theorem pairwise_start_tokens (text : String) :
    (tokens .default text).Pairwise fun t u => t.start < u.start := by
  obtain ⟨ts, e, heq, -, hkind⟩ := tokens_eq_append text
  have hpairwise := pairwise_tokens text
  have hlt : ∀ t ∈ ts, t.start < t.stop := fun t ht =>
    (bounds_of_mem_tokens (heq ▸ List.mem_append_left [e] ht)).2.2.1 (hkind t ht)
  rw [heq, List.pairwise_append] at hpairwise ⊢
  refine ⟨?_, List.pairwise_singleton .., fun t ht u hu => ?_⟩
  · exact hpairwise.1.imp_of_mem fun ht _ hle => Nat.lt_of_lt_of_le (hlt _ ht) hle
  · exact Nat.lt_of_lt_of_le (hlt t ht) (hpairwise.2.2 t ht u hu)

theorem start_lt_start_iff {text : String} {i j : Nat} {t u : Token}
    (ht : (tokens .default text)[i]? = some t)
    (hu : (tokens .default text)[j]? = some u) : t.start < u.start ↔ i < j := by
  have hmono {i j : Nat} {t u : Token} (ht : (tokens .default text)[i]? = some t)
      (hu : (tokens .default text)[j]? = some u) (hij : i < j) : t.start < u.start := by
    obtain ⟨hi, rfl⟩ := List.getElem?_eq_some_iff.mp ht
    obtain ⟨hj, rfl⟩ := List.getElem?_eq_some_iff.mp hu
    exact List.pairwise_iff_getElem.mp (pairwise_start_tokens text) i j hi hj hij
  refine ⟨fun hlt => ?_, hmono ht hu⟩
  obtain hij | rfl | hji := Nat.lt_trichotomy i j
  · exact hij
  · rw [ht] at hu
    cases hu
    exact absurd hlt (Nat.lt_irrefl _)
  · exact absurd (hmono hu ht hji) (Nat.lt_asymm hlt)

/-- Texts are read side by side that are scanned to the same tokens, but for their places and the
case of letters. -/
def Likeness.sameTokens (a b : String) : Likeness where
  left := a
  right := b
  exact := False
  text x y := x.toLower = y.toLower
  start := SameIndex a b Token.start
  stop := SameIndex a b Token.stop
  text_refl _ := rfl
  text_exact h := h.elim
  sameName_eq hx hy := by rw [sameName, sameName, hx, hy]
  start_lt_iff hp hq := by
    obtain ⟨i, t, u, ht, hu, rfl, rfl⟩ := hp
    obtain ⟨j, t', u', ht', hu', rfl, rfl⟩ := hq
    rw [start_lt_start_iff ht ht', start_lt_start_iff hu hu']

theorem Token.Alike.like {t u : Token} {i : Nat} (h : t.Alike u)
    (ht : (tokens .default a)[i]? = some t)
    (hu : (tokens .default b)[i]? = some u) : Token.Like (.sameTokens a b) t u where
  same := False.elim
  kind_eq := h.kind_eq
  flags_eq := h.flags_eq
  text := h.text_eq
  start := ⟨i, t, u, ht, hu, rfl, rfl⟩
  stop := ⟨i, t, u, ht, hu, rfl, rfl⟩

theorem Token.Like.forall₂_issues (h : Token.Like L t u) :
    List.Forall₂ (Diagnostic.Like L) t.issues u.issues := by
  have hfault : t.fault? = u.fault? := by
    unfold fault?
    rw [h.kind_eq, h.flags_eq]
  unfold issues
  rw [hfault]
  cases u.fault? with
  | none => exact .nil
  | some m =>
    exact .cons (Diagnostic.like_of m (h.same.map fun t => [t.text]) h.same_span h.start) .nil

section

variable {a b : String} (htokens : List.Forall₂ Token.Alike (tokens .default a)
    (tokens .default b))
include htokens

/-- The lexemes of two texts are alike if their tokens are and no comment is left open. -/
theorem forall₂_like_lexemes (ha : CommentsClosed a) (hb : CommentsClosed b) (mode : ScanMode) :
    List.Forall₂ (Lexeme.Like (.sameTokens a b)) (Lexeme.ofText mode a)
      (Lexeme.ofText mode b) := by
  rw [← Lexeme.map_token_ofText mode a, ← Lexeme.map_token_ofText mode b,
    List.forall₂_map_left_iff, List.forall₂_map_right_iff] at htokens
  refine List.forall₂_iff_get.mpr ⟨htokens.length_eq, fun i hi hj => ?_⟩
  have htoken (text : String) (hlt : i < (Lexeme.ofText mode text).length) :
      (tokens .default text)[i]? = some ((Lexeme.ofText mode text).get ⟨i, hlt⟩).token := by
    rw [← Lexeme.map_token_ofText mode, List.getElem?_map, List.getElem?_eq_getElem hlt]
    rfl
  have hlike := (htokens.get hi hj).like (htoken a hi) (htoken b hj)
  refine ⟨hlike, ?_⟩
  rw [ha.issues_eq (List.get_mem ..), hb.issues_eq (List.get_mem ..)]
  exact hlike.forall₂_issues

/-- The texts end with tokens of the same index. -/
theorem like_endOfFile :
    Token.Like (.sameTokens a b) (.endOfFile a.length) (.endOfFile b.length) := by
  obtain ⟨ts, t, hts, ht, -⟩ := tokens_eq_append a
  obtain ⟨us, u, hus, hu, -⟩ := tokens_eq_append b
  have hlength : ts.length = us.length := by
    have := htokens.length_eq
    rw [hts, hus] at this
    simpa using this
  have hedges (text : String) (ts : List Token) (t : Token) (hts : tokens .default text = ts ++ [t])
      (ht : t.kind = .endOfFile) : (tokens .default text)[ts.length]? = some t ∧
        t.start = text.length ∧ t.stop = text.length := by
    have hbounds := bounds_of_mem_tokens
      (hts ▸ List.mem_append_right ts (List.mem_singleton_self t))
    have hstart := hbounds.2.2.2 ht
    refine ⟨by simp [hts], hstart, ?_⟩
    have := hbounds.1
    have := hbounds.2.1
    omega
  obtain ⟨hi, hstart, hstop⟩ := hedges a ts t hts ht
  obtain ⟨hj, hstart', hstop'⟩ := hedges b us u hus hu
  rw [← hlength] at hj
  exact ⟨False.elim, rfl, rfl, rfl, ⟨_, t, u, hi, hj, hstart, hstart'⟩,
    ⟨_, t, u, hi, hj, hstop, hstop'⟩⟩

end

/-! ## Corresponding nodes -/

/-- Nodes of the same kind, both complete or both not, that start with tokens of the same index and
end with tokens of the same index, as do their headers; and so do the nodes below them. -/
inductive Node.Corresponds (a b : String) : Node → Node → Prop where
  | mk {m n : Node} (outline_eq : m.kind.outline = n.kind.outline)
    (isComplete_eq : m.extent.isComplete = n.extent.isComplete)
    (start : SameIndex a b Token.start m.start n.start)
    (header : SameIndex a b Token.stop m.extent.headerStop n.extent.headerStop)
    (stop : SameIndex a b Token.stop m.stop n.stop)
    (children : List.Forall₂ (Corresponds a b) m.children n.children) : Corresponds a b m n

theorem Node.Like.corresponds (h : Node.Like (.sameTokens a b) m n) : m.Corresponds a b n :=
  @Node.Like.rec (.sameTokens a b) (fun m n _ => m.Corresponds a b n)
    (fun ms ns _ => List.Forall₂ (Node.Corresponds a b) ms ns)
    (fun _ houtline hstart hheader hstop hcomplete _ ih =>
      .mk houtline hcomplete hstart hheader hstop ih)
    .nil (fun _ _ ih ihs => .cons ih ihs) m n h

/-- Diagnostics that say the same about tokens of the same index. -/
structure Diagnostic.Corresponds (a b : String) (d e : Diagnostic) : Prop where
  code_eq : d.code = e.code
  severity_eq : d.severity = e.severity
  start : SameIndex a b Token.start d.start e.start

/-- Texts whose tokens differ at most in their places and in the case of letters give corresponding
modules and corresponding diagnostics, whatever the version. -/
theorem parseModule_layout {a b : String} (ha : CommentsClosed a) (hb : CommentsClosed b)
    (htokens : List.Forall₂ Token.Alike (tokens .default a) (tokens .default b))
    (options : ParseOptions) :
    (parseModule a options).module.kind.outline = (parseModule b options).module.kind.outline ∧
    (parseModule a options).module.extent.isComplete =
      (parseModule b options).module.extent.isComplete ∧
    (parseModule a options).module.start = 0 ∧ (parseModule b options).module.start = 0 ∧
    List.Forall₂ (Node.Corresponds a b) (parseModule a options).module.children
      (parseModule b options).module.children ∧
    List.Forall₂ (Diagnostic.Corresponds a b) (parseModule a options).diagnostics
      (parseModule b options).diagnostics := by
  obtain ⟨hmodule, hdiagnostics⟩ := like_parseModule (L := .sameTokens a b)
    (forall₂_like_lexemes htokens ha hb options.mode) (like_endOfFile htokens) rfl rfl
  exact ⟨hmodule.outline_eq, (congrArg Extent.isComplete hmodule.extent_eq :),
    congrArg Extent.start hmodule.extent_eq, congrArg Extent.start hmodule.extent_eq',
    hmodule.children.imp fun _ _ h => h.corresponds,
    hdiagnostics.imp fun _ _ h => ⟨h.code_eq, h.severity_eq, h.start⟩⟩

/-- A string that is left open is reported at the same token, however the text is laid out. -/
theorem parseModule_layout_open_string :
    (parseModule "main let x = 'ab\nend main" {}).diagnostics.length = 1 ∧
    List.Forall₂
      (Diagnostic.Corresponds "main let x = 'ab\nend main" "MAIN  LET\tX=\x7bc\x7d'AB\n END MAIN ")
      (parseModule "main let x = 'ab\nend main" {}).diagnostics
      (parseModule "MAIN  LET\tX=\x7bc\x7d'AB\n END MAIN " {}).diagnostics := by
  have hscanned : CommentsClosed "main let x = 'ab\nend main" ∧
      CommentsClosed "MAIN  LET\tX=\x7bc\x7d'AB\n END MAIN " ∧
      List.Forall₂ Token.Alike (tokens .default "main let x = 'ab\nend main")
        (tokens .default "MAIN  LET\tX=\x7bc\x7d'AB\n END MAIN ") := by decide +kernel
  obtain ⟨ha, hb, htokens⟩ := hscanned
  exact ⟨by decide +kernel, (parseModule_layout ha hb htokens {}).2.2.2.2.2⟩

end FourGL
