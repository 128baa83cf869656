import FourGL.Proofs.Token.Modes

/-!
# Line breaks before tokens

A default scanner passes over whatever stands between two tokens and notes whether a line ended
there. Comments count with what they hold, and a string that stops before the end of its line leaves
that to what is behind it, so the flag of a token says neither more nor less than the characters
between the token before it and itself (`lineBreakBefore_iff`).
-/

namespace FourGL

/-! ## Gaps -/

/-- Of the tokens of a text behind the offset `pos`, each tells whether a line ends in the gap
before it. -/
inductive Gapped (text : List Char) : Nat → List Token → Prop where
  | nil : Gapped text pos []
  | cons {t : Token} : text.drop pos = gap ++ text.drop t.start → t.start = pos + gap.length →
      t.lineBreakBefore = gap.any isLineBreak → Gapped text t.stop ts →
      Gapped text pos (t :: ts)

/-- Where the token before the one with the index `i` ends; before the first there is only the
beginning of the text. -/
def stopBefore (ts : List Token) (i : Nat) : Nat := ((ts.take i).getLast?.map (·.stop)).getD 0

theorem stopBefore_cons {ts : List Token} (t : Token) (hi : i ≠ 0) (hts : ts ≠ []) :
    stopBefore (t :: ts) (i + 1) = stopBefore ts i := by
  have hne : ts.take i ≠ [] := by simp [hi, hts]
  rw [stopBefore, List.take_succ_cons, List.getLast?_cons_of_ne_nil hne, ← stopBefore]

/-- Some character of the text from the offset `start` up to `stop` ends a line. -/
def LineEndsBetween (text : List Char) (start stop : Nat) : Prop :=
  ∃ j c, start ≤ j ∧ j < stop ∧ text[j]? = some c ∧ c ∈ ['\n', '\r', '\u2028', '\u2029']

theorem isLineBreak_iff (c : Char) :
    isLineBreak c = true ↔ c ∈ ['\n', '\r', '\u2028', '\u2029'] := by
  have hnat (d : Char) : c.toNat = d.toNat ↔ c = d := Char.toNat_inj
  have hline : c.toNat = 0x2028 ↔ c = '\u2028' := hnat '\u2028'
  have hparagraph : c.toNat = 0x2029 ↔ c = '\u2029' := hnat '\u2029'
  simp [isLineBreak, hline, hparagraph, or_assoc]

/-- The characters of a gap are those of the text between its ends. -/
theorem any_gap_iff {text gap rest : List Char} (h : text.drop pos = gap ++ rest) :
    gap.any isLineBreak = true ↔ LineEndsBetween text pos (pos + gap.length) := by
  have hgap (k : Nat) (hk : k < gap.length) : text[pos + k]? = gap[k]? := by
    rw [← List.getElem?_drop, h, List.getElem?_append_left hk]
  rw [List.any_eq_true]
  constructor
  · rintro ⟨c, hc, hbreak⟩
    obtain ⟨k, hk, rfl⟩ := List.getElem_of_mem hc
    refine ⟨pos + k, gap[k], Nat.le_add_right .., Nat.add_lt_add_left hk pos, ?_, ?_⟩
    · rw [hgap k hk, List.getElem?_eq_getElem hk]
    · exact (isLineBreak_iff _).mp hbreak
  · rintro ⟨j, c, hle, hlt, hj, hbreak⟩
    obtain ⟨k, rfl⟩ := Nat.exists_eq_add_of_le hle
    have hk : k < gap.length := Nat.lt_of_add_lt_add_left hlt
    rw [hgap k hk] at hj
    exact ⟨c, List.mem_of_getElem? hj, (isLineBreak_iff c).mpr hbreak⟩

theorem Gapped.flag_iff (h : Gapped text pos ts) {i : Nat} {t : Token}
    (ht : ts[i]? = some t) :
    t.lineBreakBefore = true ↔
      LineEndsBetween text (if i = 0 then pos else stopBefore ts i) t.start := by
  induction h generalizing i with
  | nil => cases ht
  | @cons pos gap ts u hdrop hstart hflag _ ih =>
    cases i with
    | zero =>
      obtain rfl := Option.some.inj ht
      rw [if_pos rfl, hflag, hstart]
      exact any_gap_iff hdrop
    | succ i =>
      rw [List.getElem?_cons_succ] at ht
      rw [ih ht, if_neg (Nat.succ_ne_zero i)]
      cases i with
      | zero => rfl
      | succ i =>
        have hts : ts ≠ [] := by
          rintro rfl
          cases ht
        rw [if_neg (Nat.succ_ne_zero i), stopBefore_cons u (Nat.succ_ne_zero i) hts]

/-! ## Scanning -/

namespace Scanner

/-- What is passed over stands before the rest, and it is noted whether a line ended in it. -/
theorem skipTrivia_gap (pos : Nat) (cs : List Char) (sawBreak : Bool) (issues : List Diagnostic) :
    ∃ gap, cs = gap ++ (skipTrivia pos cs sawBreak issues).rest ∧
      (skipTrivia pos cs sawBreak issues).pos = pos + gap.length ∧
      (skipTrivia pos cs sawBreak issues).sawBreak = (sawBreak || gap.any isLineBreak) := by
  fun_induction skipTrivia pos cs sawBreak issues with
  | case1 => exact ⟨[], rfl, rfl, (Bool.or_false _).symm⟩
  | case2 => exact ⟨[], rfl, rfl, (Bool.or_false _).symm⟩
  | case3 pos sawBreak issues c cs e _ ih =>
    obtain ⟨gap, hgap, hpos, hbreak⟩ := ih
    refine ⟨e.taken c cs ++ gap, ?_, ?_, ?_⟩
    · rw [List.append_assoc, ← hgap, e.taken_append_behind]
    · rw [hpos, List.length_append, Nat.add_assoc]
    · rw [hbreak, List.any_append, Element.hasLineBreak, Bool.or_assoc]

theorem gapped_all {text : List Char} (pos : Nat) (cs : List Char) (hcs : text.drop pos = cs) :
    Gapped text pos ((all ⟨.default, pos, cs, false⟩).map (·.token)) := by
  obtain ⟨gap, hgap, hpos, hbreak⟩ := skipTrivia_gap pos cs false []
  have hlength := length_rest_skipTrivia_le pos cs false []
  rw [all_default]
  generalize skipTrivia pos cs false [] = t at hgap hpos hbreak hlength
  have hrest : text.drop t.pos = t.rest := by
    rw [hpos, ← List.drop_drop, hcs, hgap, List.drop_left]
  have hdrop : text.drop pos = gap ++ text.drop t.pos := by rw [hrest, ← hgap, hcs]
  unfold resume
  split
  next hnil => exact .cons hdrop hpos hbreak .nil
  next c ds hcons =>
    rw [hcons] at hrest hlength
    have hbehind : text.drop (t.pos + ((Element.significant c ds).taken c ds).length) =
        (Element.significant c ds).behind ds := by
      rw [← List.drop_drop, hrest, ← (Element.significant c ds).taken_append_behind c ds,
        List.drop_left]
    have hlt : ((Element.significant c ds).behind ds).length < cs.length :=
      Nat.lt_of_lt_of_le (Nat.lt_succ_of_le (Element.length_behind_le _ ds)) hlength
    exact .cons hdrop hpos hbreak (gapped_all _ _ hbehind)
termination_by cs.length

end Scanner

/-! ## Texts -/

/-- A token, the end of file included, is flagged for a line break before it if and only if one of
the characters that end lines stands between the token before it, or the beginning of the text, and
itself. -/
theorem lineBreakBefore_iff (text : String) (i : Nat) (t : Token)
    (ht : (tokens .default text)[i]? = some t) :
    t.lineBreakBefore = true ↔
      LineEndsBetween text.toList (stopBefore (tokens .default text) i) t.start := by
  have hgapped : Gapped text.toList 0 (tokens .default text) := Scanner.gapped_all 0 text.toList rfl
  rw [hgapped.flag_iff ht]
  split
  next hi => rw [hi]; rfl
  next => rfl

/-- A comment in braces counts with the line break that it holds. -/
theorem lineBreakBefore_iff_comment :
    (tokens .default "a \x7b\n\x7d b")[1]? =
        some ⟨.identifier, 6, 7, "b", { lineBreakBefore := true }⟩ ∧
      LineEndsBetween "a \x7b\n\x7d b".toList
        (stopBefore (tokens .default "a \x7b\n\x7d b") 1) 6 := by
  have ht : (tokens .default "a \x7b\n\x7d b")[1]? =
      some ⟨.identifier, 6, 7, "b", { lineBreakBefore := true }⟩ := by decide +kernel
  exact ⟨ht, (lineBreakBefore_iff _ 1 _ ht).mp rfl⟩

end FourGL
