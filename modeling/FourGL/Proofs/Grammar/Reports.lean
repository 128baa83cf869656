import FourGL.Proofs.Grammar.Place
import FourGL.Proofs.Token.LexicalGrammar

/-!
# Reports about the ends of blocks

Two messages are about how blocks end: that the END of a block is missing, and that an END closes
nothing. Statements, headers and jumps say neither; only the END of a block and a token that starts
nothing are where they come from.
-/

namespace FourGL

open FourGL.Parser FourGL.ParseState

/-! ## Texts -/

theorem Message.fill_unexpectedEnd (arg : String) :
    unexpectedEnd.fill [arg] = "Unexpected 'end " ++ arg ++ "'." := by
  apply String.toList_inj.mp
  simp [fill, unexpectedEnd, fillFrom, replaceAll, place]

/-- The message tells which keyword stands behind the END. -/
theorem Message.fill_unexpectedEnd_inj {j k : Keyword}
    (h : unexpectedEnd.fill [j.text] = unexpectedEnd.fill [k.text]) : j = k := by
  rw [fill_unexpectedEnd, fill_unexpectedEnd, ← String.toList_inj] at h
  simp only [String.toList_append, List.append_assoc, List.append_cancel_left_eq,
    List.append_cancel_right_eq] at h
  exact Keyword.text_injective (String.toList_inj.mp h)

/-! ## Quiet steps -/

namespace Diagnostic

/-- The diagnostic is about how a block ends. -/
def AboutEnd (d : Diagnostic) : Prop :=
  d.code = Message.unterminatedBlock.code ∨ d.code = Message.unexpectedEnd.code

end Diagnostic

/-- The messages that are not about how a block ends. -/
def quietMessages : Set Message :=
  {m | m.code ≠ Message.unterminatedBlock.code ∧ m.code ≠ Message.unexpectedEnd.code}

theorem Diagnostic.IsFrom.quiet {d : Diagnostic} (h : d.IsFrom M) (hM : M ⊆ quietMessages) :
    ¬ d.AboutEnd := by
  obtain ⟨m, hm, args, span, rfl⟩ := h
  obtain ⟨h₁, h₂⟩ := hM hm
  rintro (h | h)
  · exact h₁ h
  · exact h₂ h

theorem scanMessages_subset_quiet : scanMessages ⊆ quietMessages := by
  rintro m (rfl | rfl | rfl | rfl) <;> exact ⟨by decide, by decide⟩

/-- What is said about ends and jumps is left to bodies. -/
theorem code_of_mem_statementMessages {m : Message} (hm : m ∈ statementMessages) :
    m.code ≠ Message.unterminatedBlock.code ∧ m.code ≠ Message.unexpectedEnd.code ∧
      m.code ≠ Message.noEnclosingBlock.code := by
  simp only [statementMessages, typeMessages, phraseMessages, Set.mem_union, Set.mem_insert_iff,
    Set.mem_singleton_iff] at hm
  rcases hm with (rfl | hm) | hm
  · decide
  · rcases hm with rfl | rfl | rfl | rfl <;> decide
  · rcases hm with rfl | rfl | rfl | rfl | rfl | rfl | rfl | rfl | rfl | rfl <;> decide

theorem statementMessages_subset_quiet : statementMessages ⊆ quietMessages := by
  intro m hm
  obtain ⟨hend, hstray, -⟩ := code_of_mem_statementMessages hm
  exact ⟨hend, hstray⟩

namespace ParseState

/-- Between the states nothing is said about how a block ends. -/
def Quiet (s t : ParseState) : Prop :=
  ∃ new, t.reports = new ++ s.reports ∧ ∀ d ∈ new, ¬ d.AboutEnd

theorem Quiet.of_eq (h : t.reports = s.reports) : Quiet s t := ⟨[], h, by simp⟩

theorem Quiet.trans (h₁ : Quiet s t) (h₂ : Quiet t u) : Quiet s u := by
  obtain ⟨new₁, heq₁, hquiet₁⟩ := h₁
  obtain ⟨new₂, heq₂, hquiet₂⟩ := h₂
  refine ⟨new₂ ++ new₁, by rw [heq₂, heq₁, List.append_assoc], fun d hd => ?_⟩
  obtain hd | hd := List.mem_append.mp hd
  · exact hquiet₂ d hd
  · exact hquiet₁ d hd

theorem Steps.quiet (h : Steps M s t) (hM : M ⊆ quietMessages) : Quiet s t := by
  obtain ⟨new, heq, hmem⟩ := h.reports
  exact ⟨new, heq, fun d hd => (hmem d hd).quiet hM⟩

theorem Looks.quiet (h : Looks s t) : Quiet s t := .of_eq h.reports

theorem Stays.quiet (h : Stays s t) : Quiet s t := h.1.quiet statementMessages_subset_quiet

theorem Stays.kindAt (h : Stays s t) (depth : Nat) : t.kindAt depth = s.kindAt depth := by
  unfold ParseState.kindAt
  rw [h.2]

end ParseState

/-! ## Skipping and closing -/

namespace Parser

theorem ReportsOnly.quiet {p : Parser α} (hp : p.ReportsOnly M) (hM : M ⊆ quietMessages)
    (hrun : p.run s = (a, t)) : Quiet s t := by
  have hsteps := hp s
  rw [hrun] at hsteps
  exact hsteps.quiet hM

/-- A token that starts nothing is skipped alone, and reported if it is the first, or it is an END
that is skipped together with the keyword behind it and always reported. -/
theorem skipUnexpected_cases (h : (skipUnexpected m isFirst).run s = ((), t)) :
    (∃ u, Looks s u ∧ t = { u with reports :=
        (if isFirst then [.of m [s.input.last.text] (some s.input.last.span)]
          else []) ++ u.reports }) ∨
      s.input.last.kind = .keyword .END ∧ ∃ u w span, Looks s u ∧ u.kindAt 1 = .keyword w ∧
        span = .between s.input.last.start u.read.place ∧
        t = { u.read with reports := .of .unexpectedEnd [w.text] (some span) :: u.reports } := by
  have halone {u : ParseState} (hlook : Looks s u)
      (hrun : (if isFirst then report m [s.input.last.text] s.input.last.span else pure () :
        Parser Unit).run u = ((), t)) :
      t = { u with reports :=
        (if isFirst then [.of m [s.input.last.text] (some s.input.last.span)] else []) ++
          u.reports } := by
    cases isFirst <;> exact (Prod.mk.inj hrun).2.symm
  obtain ⟨token, s₁, hlast, h⟩ := run_of_bind h
  obtain ⟨rfl, rfl⟩ := Prod.mk.inj hlast
  dsimp only at h
  split at h
  next hend =>
    obtain ⟨word, u, hpeek, h⟩ := run_of_bind h
    have hlook := (peeks_peekAt 1).of_run hpeek
    obtain rfl := tokenAt_of_peekAt hpeek
    split at h
    next hword =>
      obtain ⟨token, v, hnext, h⟩ := run_of_bind h
      obtain ⟨stop, w, hstop, h⟩ := run_of_bind h
      obtain ⟨rfl, rfl⟩ := Prod.mk.inj hnext
      obtain ⟨rfl, rfl⟩ := Prod.mk.inj hstop
      obtain ⟨k, hk⟩ : ∃ k, u.kindAt 1 = .keyword k := by
        have hkind := (Bool.and_eq_true_iff.mp hword).1
        unfold kindAt
        cases hk : (u.input.tokenAt 1).kind with
        | keyword k => exact ⟨k, rfl⟩
        | _ => simp [hk, Kind.isKeyword] at hkind
      refine .inr ⟨hend, u, k, _, hlook, hk, rfl, (Prod.mk.inj h).2.symm.trans ?_⟩
      rw [show (u.input.tokenAt 1).kind = .keyword k from hk]
      rfl
    next => exact .inl ⟨u, hlook, halone hlook h⟩
  next => exact .inl ⟨s, .refl s, halone (.refl s) h⟩

/-- What skipping a token says: nothing about blocks, or that the END which was read closes nothing.
In the second case a keyword follows, and it is skipped too. -/
theorem reports_skipUnexpected {m : Message} (hm : m ∈ quietMessages)
    (h : (skipUnexpected m isFirst).run s = ((), t)) :
    Quiet s t ∨ s.input.last.kind = .keyword .END ∧ ∃ w : Keyword, s.kindAt 1 = .keyword w ∧
      t.reports = .of .unexpectedEnd [w.text] (some (.between s.input.last.start s.read.place)) ::
        s.reports := by
  obtain ⟨u, hlook, rfl⟩ | ⟨hend, u, w, span, hlook, hw, rfl, rfl⟩ := skipUnexpected_cases h
  · refine .inl (hlook.quiet.trans ⟨_, rfl, fun d hd => ?_⟩)
    split at hd
    · rw [List.mem_singleton.mp hd]
      exact Diagnostic.IsFrom.quiet ⟨m, Set.mem_singleton m, _, _, rfl⟩
        (Set.singleton_subset_iff.mpr hm)
    · cases hd
  · refine .inr ⟨hend, w, hlook.kindAt 1 ▸ hw, ?_⟩
    have hplace : u.read.place = s.read.place := by
      unfold ParseState.place
      rw [last_read, last_read, hlook.tokenAt]
    rw [← hplace, ← hlook.reports]

/-- What skipping a token says that no block ends with. If an END closes nothing, the keyword behind
it closes no enclosing block either. -/
theorem skipped_cases {ctx : Context} {m : Message} (hm : m ∈ quietMessages) (hat : At text s)
    (hpass : Passes ctx terminator s) (hlook : Looks s t)
    (h : (skipUnexpected m isFirst).run t.read = ((), u)) :
    Quiet s u ∨ ∃ (w : Keyword) (span : Span), .keyword w ∉ ctx.ends ∧
      s.place ≤ span.start ∧ span.start < u.place ∧
      u.reports = .of .unexpectedEnd [w.text] (some span) :: s.reports := by
  obtain ⟨honward, hopens, hstart⟩ := hat.opens hpass.ne_endOfFile hlook 0
  have hread : Quiet s t.read := hlook.quiet.trans (.of_eq rfl)
  obtain hquiet | ⟨hend, w, hw, hreports⟩ := reports_skipUnexpected hm h
  · exact .inl (hread.trans hquiet)
  · have hfirst : s.kindAt 1 = .keyword .END := by
      rw [last_read, hlook.tokenAt] at hend
      exact hend
    have hsecond : s.kindAt 2 = .keyword w := by
      rw [kindAt_read, hlook.kindAt] at hw
      exact hw
    have hplace := (honward.1.run (reportsOnly_skipUnexpected m isFirst) h).2
    refine .inr ⟨w, .between t.read.input.last.start t.read.read.place, ?_, hstart,
      Nat.lt_of_lt_of_le hopens.start_lt hplace, ?_⟩
    · rw [← hsecond]
      exact hpass.notMem_ends hfirst
    · rw [hreports, show t.read.reports = s.reports from hlook.reports]

/-- Closing a block reads its END, or says that it is missing and reads nothing. -/
theorem closeBlock_cases (h : (closeBlock o header k stop).run s = ((), t)) :
    stop = .terminator ∧ t = s.read.read ∨
      stop ≠ .terminator ∧ t.input = s.input ∧
        t.reports = .of .unterminatedBlock [k.text, "end " ++ k.text]
          (some (.between o.token.start header)) :: s.reports := by
  unfold closeBlock at h
  split at h
  next hstop => exact .inl ⟨hstop, (Prod.mk.inj h).2.symm⟩
  next hstop =>
    obtain rfl := (Prod.mk.inj h).2
    exact .inr ⟨hstop, rfl, rfl⟩

end Parser

end FourGL
