import FourGL.Proofs.Token.Tiling
import Mathlib.Data.List.Forall2

/-!
# Faulty tokens

The flags of an element say whether something is wrong with it, its kind says what that can be
(`Element.Marked`). So the scanner has something to say about the very tokens that it flags, about
each of them once and in the same order (`scanIssues_verbatim_faults`).
-/

namespace FourGL

/-- The token lacks its end, or it is not what it should be. -/
def Flags.isFaulty (f : Flags) : Bool := f.unterminated || f.invalid

/-- What can be wrong with a token of the kind. -/
def Kind.fault? : Kind → Option Message
  | .string => some .unterminatedString
  | .comment => some .unterminatedComment
  | .unknown => some .invalidCharacter
  | .number => some .malformedNumber
  | _ => none

/-! ## Elements -/

namespace Element

/-- The element is flagged if and only if it has a fault, which is the one of its kind. -/
structure Marked (e : Element) : Prop where
  fault_eq : e.fault = if e.flags.isFaulty then e.kind.fault? else none
  isSome_fault? : e.flags.isFaulty = true → e.kind.fault?.isSome = true
  not_both : ¬ (e.flags.unterminated = true ∧ e.flags.invalid = true)

namespace Marked

/-- An element without a fault and without a flag for one. -/
theorem of_sound {e : Element} (hfault : e.fault = none)
    (hunterminated : e.flags.unterminated = false) (hinvalid : e.flags.invalid = false) :
    e.Marked := by
  have hsound : e.flags.isFaulty = false := by rw [Flags.isFaulty, hunterminated, hinvalid]; rfl
  refine ⟨?_, ?_, ?_⟩
  · rw [hfault, hsound]; rfl
  · rw [hsound]; exact nofun
  · rw [hinvalid]; exact fun h => Bool.false_ne_true h.2

/-- An element with the fault of its kind and one flag for it. -/
theorem of_faulty {e : Element} (hfault : e.fault = e.kind.fault?)
    (hkind : e.kind.fault?.isSome = true) (hflag : e.flags.unterminated = !e.flags.invalid) :
    e.Marked := by
  have hfaulty : e.flags.isFaulty = true := by
    rw [Flags.isFaulty, hflag]
    exact Bool.not_or_self _
  refine ⟨by rw [hfaulty, hfault]; rfl, fun _ => hkind, ?_⟩
  rw [hflag]
  cases e.flags.invalid <;> simp

end Marked

theorem marked_blockComment (cs : List Char) : (blockComment cs).Marked := by
  unfold blockComment
  dsimp only
  split
  · exact .of_sound rfl rfl rfl
  · exact .of_faulty rfl rfl rfl

theorem marked_of_trivia? {c : Char} {cs : List Char} {e : Element} (h : trivia? c cs = some e) :
    e.Marked := by
  cases triviaOf_of_trivia? h with
  | lineBreak | blanks | lineComment => exact .of_sound rfl rfl rfl
  | blockComment => exact marked_blockComment cs

theorem marked_numberOf (mantissa : Nat) (decimalPoint : Bool) (cs : List Char) :
    (numberOf mantissa decimalPoint cs).Marked := by
  unfold numberOf
  split
  · exact .of_sound rfl rfl rfl
  next length n _ =>
    by_cases hdigits : n = 0
    · subst hdigits
      exact .of_faulty rfl rfl rfl
    · exact .of_sound (if_neg hdigits) rfl (beq_eq_false_iff_ne.mpr hdigits)

theorem marked_stringLiteral (quote : Char) (cs : List Char) : (stringLiteral quote cs).Marked := by
  unfold stringLiteral
  dsimp only
  cases (stringTail quote cs).2 with
  | true => exact .of_sound rfl rfl rfl
  | false => exact .of_faulty rfl rfl rfl

theorem marked_significant (c : Char) (cs : List Char) : (significant c cs).Marked :=
  significant_of_sorts (fun mantissa decimalPoint => marked_numberOf mantissa decimalPoint cs)
    (fun _ _ => .of_sound rfl rfl rfl) (marked_stringLiteral c cs) (.of_sound rfl rfl rfl)
    (.of_faulty rfl rfl rfl)

end Element

/-! ## Tokens -/

/-- What was noticed while the token was read is what its flags say. -/
inductive Scanned.Marked (s : Scanned) : Prop where
  | sound : s.token.flags.unterminated = false → s.token.flags.invalid = false →
      s.issues = [] → s.Marked
  | faulty : s.token.flags.isFaulty = true →
      ¬ (s.token.flags.unterminated = true ∧ s.token.flags.invalid = true) →
      s.token.start < s.token.stop → s.token.kind.fault? = some m →
      s.issues = [.of m [s.token.text] (some s.token.span)] → s.Marked

theorem Element.Marked.scanned {e : Element} (h : e.Marked) (lineBreakBefore : Bool) (pos : Nat)
    (c : Char) (cs : List Char) :
    Scanned.Marked ⟨e.token lineBreakBefore pos c cs, e.issues pos c cs⟩ := by
  cases hfaulty : e.flags.isFaulty with
  | false =>
    obtain ⟨hunterminated, hinvalid⟩ := Bool.or_eq_false_iff.mp hfaulty
    refine .sound hunterminated hinvalid ?_
    rw [issues, h.fault_eq, hfaulty]
    rfl
  | true =>
    obtain ⟨m, hm⟩ := Option.isSome_iff_exists.mp (h.isSome_fault? hfaulty)
    refine .faulty hfaulty h.not_both ?_ hm ?_
    · simp [token, taken]
    · rw [issues, h.fault_eq, hfaulty, if_pos rfl, hm]
      rfl

namespace Scanner

theorem marked_all (pos : Nat) (cs : List Char) (pending : Bool) :
    ∀ s ∈ all ⟨.verbatim, pos, cs, pending⟩, s.Marked := by
  intro s hs
  match cs, hs with
  | [], hs =>
    rw [all_verbatim_nil] at hs
    obtain rfl := List.mem_singleton.mp hs
    exact .sound rfl rfl rfl
  | c :: cs, hs =>
    obtain ⟨flag, pending', hnext⟩ := next_verbatim_cons pos c cs pending
    have hkind := verbatimElement_ne_endOfFile c cs
    have hmarked : (verbatimElement c cs).Marked := by
      unfold verbatimElement
      cases h : Element.trivia? c cs with
      | some e => exact Element.marked_of_trivia? h
      | none => exact Element.marked_significant c cs
    rw [all_eq, hnext] at hs
    dsimp only at hs
    rw [if_neg (by exact hkind)] at hs
    obtain rfl | hs := List.mem_cons.mp hs
    · exact hmarked.scanned flag pos c cs
    · exact marked_all _ _ _ s hs
termination_by cs.length
decreasing_by exact Nat.lt_succ_of_le (Element.length_behind_le _ cs)

end Scanner

/-! ## Texts -/

/-- The kinds of tokens that something can be wrong with, and the code of what is said about it. -/
def faultCodes : List (Kind × Nat) :=
  [(.string, 1001), (.comment, 1002), (.unknown, 1003), (.number, 1004)]

theorem Kind.mem_faultCodes {k : Kind} {m : Message} (h : k.fault? = some m) :
    (k, m.code) ∈ faultCodes := by
  unfold fault? at h
  split at h <;> cases h <;> decide

/-- The diagnostic says what is wrong with the token, where the token stands. -/
structure Token.FaultTold (d : Diagnostic) (t : Token) : Prop where
  start_lt : t.start < t.stop
  span_eq : d.span = some t.span
  code_mem : (t.kind, d.code) ∈ faultCodes

/-- What is said about marked tokens is said about the faulty ones, one by one. -/
theorem forall₂_faultTold {ss : List Scanned} (h : ∀ s ∈ ss, s.Marked) :
    List.Forall₂ Token.FaultTold (ss.flatMap (·.issues))
      ((ss.map (·.token)).filter (·.flags.isFaulty)) := by
  induction ss with
  | nil => exact .nil
  | cons s ss ih =>
    obtain ⟨hs, hss⟩ := List.forall_mem_cons.mp h
    rw [List.flatMap_cons, List.map_cons]
    cases hs with
    | sound hunterminated hinvalid hissues =>
      rw [hissues, List.filter_cons_of_neg (by simp [Flags.isFaulty, hunterminated, hinvalid])]
      exact ih hss
    | faulty hfaulty _ hlt hkind hissues =>
      rw [hissues, List.filter_cons_of_pos (by exact hfaulty)]
      exact .cons ⟨hlt, rfl, Kind.mem_faultCodes hkind⟩ (ih hss)

/-- What scanning says about a text are the faults of the tokens that it flags as unterminated or
invalid, each where its token stands and in the order of the tokens. Only strings, comments, numbers
and unknown characters are flagged, and none of them as both. -/
theorem scanIssues_verbatim_faults (text : String) :
    List.Forall₂ Token.FaultTold (scanIssues .verbatim text)
        ((tokens .verbatim text).filter fun t => t.flags.unterminated || t.flags.invalid) ∧
      ∀ t ∈ tokens .verbatim text,
        (t.flags.unterminated = true ∨
          t.flags.invalid = true → t.kind ∈ faultCodes.map (·.1)) ∧
          ¬ (t.flags.unterminated = true ∧ t.flags.invalid = true) := by
  have hmarked : ∀ s ∈ scan .verbatim text, s.Marked := Scanner.marked_all 0 text.toList false
  refine ⟨forall₂_faultTold hmarked, fun t ht => ?_⟩
  obtain ⟨s, hs, rfl⟩ := List.mem_map.mp ht
  cases hmarked s hs with
  | sound hunterminated hinvalid _ => simp [hunterminated, hinvalid]
  | faulty _ hboth _ hkind _ =>
    exact ⟨fun _ => List.mem_map_of_mem (f := (·.1)) (Kind.mem_faultCodes hkind), hboth⟩

end FourGL
