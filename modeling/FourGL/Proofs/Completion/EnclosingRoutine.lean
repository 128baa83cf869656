import FourGL.Completion.Provider
import FourGL.Proofs.Tree.Completeness
import FourGL.Proofs.Tree.Terminators

/-!
# The routine around a place

A place inside a routine belongs to it. A place between routines belongs to the one before it only
if that is not complete (`routine_of_place`). A routine whose END is missing is never complete
(`missesEnd_eq_false`); one that has its END may lack completeness all the same, for an error
inside.
-/

namespace FourGL

open FourGL.Parser FourGL.ParseState

/-! ## Complete nodes and their ends -/

namespace Node

/-- Between the states it is not said that the END of the node is missing. -/
def EndNotMissed (s t : ParseState) (n : Node) : Prop :=
  ∃ new, t.reports = new ++ s.reports ∧ ∀ d ∈ new, n.missesEnd d = false

namespace EndNotMissed

theorem trans {n : Node} (h₁ : n.EndNotMissed s t) (h₂ : n.EndNotMissed t u) :
    n.EndNotMissed s u := by
  obtain ⟨new₁, heq₁, hnew₁⟩ := h₁
  obtain ⟨new₂, heq₂, hnew₂⟩ := h₂
  refine ⟨new₂ ++ new₁, by rw [heq₂, heq₁, List.append_assoc], fun d hd => ?_⟩
  obtain hd | hd := List.mem_append.mp hd
  · exact hnew₂ d hd
  · exact hnew₁ d hd

theorem of_quiet (h : Quiet s t) (n : Node) : n.EndNotMissed s t := by
  obtain ⟨new, heq, hquiet⟩ := h
  refine ⟨new, heq, fun d hd => ?_⟩
  by_contra hmisses
  exact hquiet d hd (start_of_missesEnd (by simpa using hmisses)).1

/-- What is said elsewhere does not blame a node. -/
theorem of_told {ns : List Node} (h : Told text ends lo s t ns) {n : Node}
    (hout : n.start < lo ∨ t.place ≤ n.start) : n.EndNotMissed s t := by
  obtain ⟨new, heq, hbetween, -⟩ := h
  refine ⟨new, heq, fun d hd => ?_⟩
  by_contra hmisses
  obtain ⟨habout, hstart⟩ := start_of_missesEnd (by simpa using hmisses)
  have hin := hbetween.inside d hd habout
  omega

end EndNotMissed

end Node

/-- A block whose END is not there is closed with an error. -/
theorem quiet_closeBlock (h : (closeBlock o header k stop).run s = ((), t))
    (herrors : t.errorCount ≤ s.errorCount) : Quiet s t := by
  obtain ⟨-, rfl⟩ | ⟨-, hinput, hreports⟩ := closeBlock_cases h
  · exact .of_eq rfl
  · have hmore : s.errorCount < t.errorCount := by
      unfold ParseState.errorCount
      rw [hinput, hreports]
      simp [Diagnostic.errorCount, Diagnostic.of, Diagnostic.isError, Message.unterminatedBlock]
    omega

section

variable {n : Node} (hat : At text s) (hopens : Opens o s) (herrors : o.errors ≤ s.errorCount)
include hat hopens herrors

/-- Of a complete block it is not said that its END is missing. -/
theorem endNotMissed_block {ctx : Context} (hheader : Moves careful statementMessages s s₁)
    (hbefore : Rests s₁ s₂) (hcontent : Account (.content levels ctx k s₂ nodes stop s₃))
    (hbehind : Rests s₃ s₄)
    (hend : (closeBlock o header k stop).run s₄ = ((), s₅)) (hafter : Rests s₅ s₆)
    (hclose : (closeNode o header kind nodes).run s₆ = (n, t)) (hstops : ctx.StopsAtWords)
    (hcomplete : n.extent.isComplete = true) : n.EndNotMissed s t := by
  have hon₁ := hat.steps hheader.steps
  have hon₂ := hon₁.1.steps hbefore.stays.1
  obtain ⟨hn, rfl⟩ := Prod.mk.inj hclose
  have hclosed : Quiet s₄ s₅ := by
    refine quiet_closeBlock hend ?_
    have hle₄ := (hheader.later.trans (hbefore.later.trans
      (hcontent.later.trans hbehind.later))).errorCount_le
    have hle₆ := hafter.later.errorCount_le
    rw [← hn] at hcomplete
    have hcount : s₆.errorCount = o.errors := beq_iff_eq.mp hcomplete
    omega
  have hquiet₂ := (hheader.steps.quiet statementMessages_subset_quiet).trans hbefore.stays.quiet
  have htold := isTold_of_derivable hcontent.derives hon₂.1 hstops
  have hquiet₆ := (hbehind.stays.quiet.trans hclosed).trans hafter.stays.quiet
  have hstart : n.start < s₂.place :=
    hn ▸ Nat.lt_of_lt_of_le hopens.start_lt (Nat.le_trans hon₁.2 hon₂.2)
  exact ((Node.EndNotMissed.of_quiet hquiet₂ _).trans (.of_told htold (.inl hstart))).trans
    (.of_quiet hquiet₆ _)

/-- Of a complete statement it is not said that its END is missing. -/
theorem endNotMissed_statement (h : Account (.statement levels ctx o s n t))
    (hstops : ctx.StopsAtWords) (hcomplete : n.extent.isComplete = true) : n.EndNotMissed s t := by
  cases h with
  | leaf hmoves _ hclose =>
    obtain ⟨-, rfl⟩ := Prod.mk.inj hclose
    exact .of_quiet (hmoves.steps.quiet statementMessages_subset_quiet) n
  | block hheader _ hbefore hcontent hbehind hend hafter _ hclose =>
    exact endNotMissed_block hat hopens herrors hheader hbefore hcontent hbehind hend hafter hclose
      hstops hcomplete

end

/-- What rounds say about the ends of the nodes that they add. -/
def Judgment.EndNotMissed (text : String) : Judgment → Prop
  | .rounds _ ctx region s p t => At text s → ctx.StopsAtWords →
      region.unexpected ∈ quietMessages →
      ∀ n ∈ p.nodes, n.extent.isComplete = true → n.EndNotMissed s t
  | _ => True

theorem Account.endNotMissed {J : Judgment} (h : Account J) : J.EndNotMissed text := by
  induction h with
  | noRound => exact fun _ _ _ => by simp
  | addStatement hbefore hchoice _ _ hstatement hjump hleave ihBefore _ =>
    intro hat hstops hregion m hm hcomplete
    obtain ⟨hlaid, -⟩ := laidOut_of_derivable hbefore.derives hat
    obtain ⟨honward, hopens, hstart⟩ :=
      hlaid.1.1.opens hchoice.passes.ne_endOfFile hchoice.looks _
    obtain ⟨hspans, -⟩ := laidOut_of_derivable hstatement.derives honward.1 hopens
    have hread : Quiet _ _ := hchoice.looks.quiet.trans (.of_eq rfl)
    have hjumped := (reportsOnly_checkJump _ _).quiet
      (Set.singleton_subset_iff.mpr ⟨by decide, by decide⟩) hjump
    have hbehind := Node.EndNotMissed.of_quiet (hjumped.trans hleave.quiet) m
    obtain rfl | hm := Node.mem_insert hm
    · have htold := isTold_of_derivable hbefore.derives hat hstops hregion
      have hle := (hchoice.looks.later.trans (.read _)).errorCount_le
      have hown := endNotMissed_statement honward.1 hopens hle hstatement hstops hcomplete
      have hplace := hspans.start_eq ▸ hstart
      exact (((Node.EndNotMissed.of_told htold (.inr hplace)).trans (.of_quiet hread m)).trans
        hown).trans hbehind
    · have htold := isTold_of_derivable hstatement.derives honward.1 hopens hstops
      obtain ⟨-, hlt, hstop⟩ := hlaid.2.inside m hm
      have hplace := Nat.lt_of_lt_of_le hlt (Nat.le_trans hstop hstart)
      exact (((ihBefore hat hstops hregion m hm hcomplete).trans (.of_quiet hread m)).trans
        (.of_told htold (.inl hplace))).trans hbehind
  | skip hbefore hskip ih =>
    intro hat hstops hregion m hm hcomplete
    rw [hskip.nodes_eq] at hm
    obtain ⟨hlaid, -⟩ := laidOut_of_derivable hbefore.derives hat
    obtain ⟨-, hlt, hstop⟩ := hlaid.2.inside m hm
    have htold := told_skip hregion hskip hlaid.1.1
    exact (ih hat hstops hregion m hm hcomplete).trans
      (.of_told htold (.inl (Nat.lt_of_lt_of_le hlt hstop)))
  | _ => trivial

/-- Of a complete member of a module it is not said that its END is missing. -/
theorem missesEnd_of_complete {n : Node} (hn : n ∈ (parseModule text options).module.children)
    (hcomplete : n.extent.isComplete = true) :
    (parseModule text options).diagnostics.countP n.missesEnd = 0 := by
  obtain ⟨s, stop, hbody, -, -, -, -, hdiagnostics⟩ := account_parseModule text options
  have hat := at_ofText options.mode text
  obtain ⟨hlaid, -⟩ := laidOut_of_derivable hbody.derives hat
  obtain ⟨new, hreports, hnew⟩ : n.EndNotMissed (.ofText options.mode text) s := by
    generalize (parseModule text options).module.children = ns at hbody hn
    cases hbody with
    | body hrounds _ hlook =>
      have hendNotMissed := hrounds.endNotMissed hat (List.nil_subset _)
        ⟨by decide, by decide⟩ n hn
      exact (hendNotMissed hcomplete).trans (.of_quiet hlook.quiet n)
  rw [hdiagnostics, options.countP_placed _ fun _ _ => rfl, List.countP_eq_zero]
  intro d hd hmisses
  obtain hd | hd := List.mem_append.mp (s.read.perm_diagnostics.mem_iff.mp hd)
  · exact not_aboutEnd_of_mem_issues hlaid.1.1.read.1 d hd (Node.start_of_missesEnd hmisses).1
  · rw [show s.read.reports = new from hreports.trans (List.append_nil new)] at hd
    simp [hnew d hd] at hmisses

/-! ## Surroundings -/

/-- The last routine of a module to start at or before a place. -/
def Node.LastRoutine (m : Node) (position : Nat) (n : Node) : Prop :=
  ∃ before after, m.children = before ++ n :: after ∧ n.kind.isRoutine = true ∧
    n.start ≤ position ∧ ∀ c ∈ after, c.kind.isRoutine = true → position < c.start

section

variable {m : Node} {position : Nat}

theorem Node.getLast?_routines {n : Node} :
    (m.children.filter fun c => c.kind.isRoutine && c.start ≤ position).getLast? = some n ↔
      m.LastRoutine position n := by
  rw [List.getLast?_filter, List.find?_eq_some_iff_append]
  constructor
  · rintro ⟨hn, as, bs, hsplit, has⟩
    obtain ⟨hroutine, hstart⟩ := Bool.and_eq_true_iff.mp hn
    refine ⟨bs.reverse, as.reverse, ?_, hroutine, of_decide_eq_true hstart, fun c hc hc' => ?_⟩
    · simpa using congrArg List.reverse hsplit
    · simpa [hc'] using has c (List.mem_reverse.mp hc)
  · rintro ⟨before, after, hsplit, hroutine, hstart, hafter⟩
    refine ⟨by simp [hroutine, hstart], after.reverse, before.reverse, by simp [hsplit], ?_⟩
    intro c hc
    cases hc' : c.kind.isRoutine with
    | false => rfl
    | true => simpa using hafter c (List.mem_reverse.mp hc) hc'

theorem Node.exists_lastRoutine {c : Node} (hc : c ∈ m.children)
    (hroutine : c.kind.isRoutine = true)
    (hstart : c.start ≤ position) : ∃ n, m.LastRoutine position n := by
  have hmem : c ∈ m.children.filter fun c => c.kind.isRoutine && c.start ≤ position :=
    List.mem_filter.mpr ⟨hc, by simp [hroutine, hstart]⟩
  obtain ⟨n, hn⟩ := Option.isSome_iff_exists.mp
    (List.getLast?_isSome.mpr (List.ne_nil_of_mem hmem))
  exact ⟨n, getLast?_routines.mp hn⟩

theorem Surroundings.routine?_eq_some {n : Node} :
    (Surroundings.mk (some m) position).routine? = some n ↔
      m.LastRoutine position n ∧ (position ≤ n.stop ∨ n.extent.isComplete = false) := by
  unfold routine?
  simp only [Option.bind_eq_bind, Option.bind_some, Option.bind_eq_some_iff, Node.getLast?_routines]
  constructor
  · rintro ⟨r, hr, h⟩
    split at h
    next hin =>
      cases h
      simpa [hr] using hin
    next => cases h
  · rintro ⟨hn, hin⟩
    exact ⟨n, hn, if_pos (by simpa using hin)⟩

end

/-- A place in a routine, ends included, belongs to such a routine. Any other place belongs to the
last routine before it if that is not complete, as it is if its END is reported missing, and else to
none; a routine that is complete has its END. -/
theorem routine_of_place (text : String) (options : ParseOptions) (position : Nat) :
    let m := (parseModule text options).module
    let r := (Surroundings.mk (some m) position).routine?
    ((∃ n ∈ m.children, n.kind.isRoutine = true ∧ n.start ≤ position ∧
      position ≤ n.stop) →
      ∃ n ∈ m.children, n.kind.isRoutine = true ∧ n.start ≤ position ∧
        position ≤ n.stop ∧ r = some n) ∧
    ((∀ n ∈ m.children, n.kind.isRoutine = true → n.start ≤ position →
      n.stop < position) →
      ∀ n, r = some n ↔ m.LastRoutine position n ∧ n.extent.isComplete = false) ∧
    ∀ n ∈ m.children, n.kind.isRoutine = true →
      ((parseModule text options).diagnostics.countP n.missesEnd = 1 →
        n.extent.isComplete = false) ∧
      (n.extent.isComplete = true → ∃ k, n.kind.block? = some k ∧ n.ClosedBy text k) := by
  intro m r
  refine ⟨?_, fun hout n => ?_, fun n hn hroutine => ⟨fun hone => ?_, fun hcomplete => ?_⟩⟩
  · rintro ⟨c, hc, hroutine, hstart, hstop⟩
    obtain ⟨n, hlast⟩ := Node.exists_lastRoutine hc hroutine hstart
    obtain ⟨before, after, hsplit, hroutine', hstart', hafter⟩ := id hlast
    have hn : n ∈ m.children := by simp [hsplit]
    obtain ⟨t, stop, -, hbody, -⟩ := derives_parseModule text options
    obtain ⟨⟨-, hrow⟩, -⟩ := laidOut_of_derivable hbody (at_ofText options.mode text)
    have hstop' : position ≤ n.stop := by
      have hdisjoint := hrow.disjoint
      rw [show (parseModule text options).module.children = _ from hsplit, List.pairwise_append]
        at hdisjoint
      rw [hsplit, List.mem_append, List.mem_cons] at hc
      obtain hc | rfl | hc := hc
      · -- Routines that touch: the place is the end of one and the start of the next.
        have := hdisjoint.2.2 c hc n (List.mem_cons_self ..)
        have := (hrow.inside n hn).2.1
        omega
      · exact hstop
      · exact absurd (hafter c hc hroutine) (Nat.not_lt_of_le hstart)
    exact ⟨n, hn, hroutine', hstart', hstop',
      Surroundings.routine?_eq_some.mpr ⟨hlast, .inl hstop'⟩⟩
  · rw [Surroundings.routine?_eq_some]
    refine and_congr_right fun ⟨before, after, hsplit, hroutine, hstart, _⟩ => ?_
    have hn : n ∈ m.children := by simp [hsplit]
    have := hout n hn hroutine hstart
    simp [Nat.not_le_of_lt this]
  · by_contra hcomplete
    have := missesEnd_of_complete hn (by simpa using hcomplete)
    omega
  · obtain ⟨k, hk⟩ : ∃ k, n.kind.block? = some k := by
      cases hkind : n.kind <;> simp_all [NodeKind.isRoutine, NodeKind.block?]
    have hnone := missesEnd_of_complete hn hcomplete
    obtain ⟨hclosed, -⟩ | ⟨hone, -⟩ :=
      (settled_parseModule text options _ n k (.child .root hn) hk).ended
    · exact ⟨k, hk, hclosed⟩
    · omega

/-- A function with an error inside goes on behind its END, although nothing is said about that. -/
theorem routine_of_place_error_inside :
    let parsed := parseModule "FUNCTION f(a)\nLET = 1\nEND FUNCTION\n\n" {}
    ∃ n ∈ parsed.module.children, parsed.diagnostics.countP n.missesEnd = 0 ∧ n.stop = 34 ∧
      (Surroundings.mk (some parsed.module) 36).routine? = some n := by
  intro parsed
  have hparsed : parsed.module.children.length = 1 ∧
      ∀ n ∈ parsed.module.children, n.kind.isRoutine = true ∧ n.start = 0 ∧ n.stop = 34 ∧
        n.extent.isComplete = false ∧ parsed.diagnostics.countP n.missesEnd = 0 := by
    decide +kernel
  obtain ⟨hlength, hall⟩ := hparsed
  obtain ⟨n, hchildren⟩ := List.length_eq_one_iff.mp hlength
  have hn : n ∈ parsed.module.children := by simp [hchildren]
  obtain ⟨hroutine, hstart, hstop, hincomplete, hcount⟩ := hall n hn
  refine ⟨n, hn, hcount, hstop, ?_⟩
  refine ((routine_of_place _ {} 36).2.1 (fun c hc _ _ => ?_) n).mpr ⟨?_, hincomplete⟩
  · rw [(hall c hc).2.2.1]
    decide
  · exact ⟨[], [], hchildren, hroutine, hstart ▸ Nat.zero_le _, by simp⟩

end FourGL
