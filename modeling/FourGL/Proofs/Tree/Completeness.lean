import FourGL.Proofs.Grammar.Flow
import FourGL.Proofs.Tree.Paths

/-!
# Complete nodes

A node is complete if no error was noticed from its first token to its end. Errors only add up, so
what is below a complete node is complete as well. The errors of a lexeme count when it is read, and
a module is read to its end: it is complete if and only if no error is reported at all.
-/

namespace FourGL

open FourGL.Parser FourGL.ParseState

/-! ## Errors of what has been read -/

namespace ParseState

/-- The state has counted the errors of the lexemes read so far, and it has seen these lexemes. -/
structure Counted (s : ParseState) : Prop where
  rest_eq : s.input.rest = s.input.stream.drop s.input.index
  errors_eq : s.input.errors =
    Diagnostic.errorCount ((s.input.stream.take s.input.index).flatMap (·.issues))
  index_le : s.input.index ≤ s.input.seen

namespace Counted

theorem ofText (mode : ScanMode) (text : String) : Counted (.ofText mode text) :=
  ⟨rfl, rfl, Nat.le_refl _⟩

theorem looks (h : Counted s) (hlook : Looks s t) : Counted t := by
  obtain ⟨seen, hle, rfl⟩ := hlook
  exact ⟨h.rest_eq, h.errors_eq, Nat.le_trans h.index_le hle⟩

theorem read (h : Counted s) : Counted s.read := by
  unfold ParseState.read Lookahead.advance
  split
  next => exact ⟨h.rest_eq, h.errors_eq, h.index_le⟩
  next l ls hrest =>
    have hdrop : s.input.stream.drop s.input.index = l :: ls := h.rest_eq.symm.trans hrest
    have hlt : s.input.index < s.input.stream.length := by
      refine Nat.lt_of_not_le fun hle => ?_
      rw [List.drop_eq_nil_of_le hle] at hdrop
      cases hdrop
    rw [List.drop_eq_getElem_cons hlt] at hdrop
    obtain ⟨hl, hls⟩ := List.cons.inj hdrop
    refine ⟨hls.symm, ?_, Nat.le_max_right _ _⟩
    rw [← List.take_append_getElem hlt, hl]
    simp [h.errors_eq, Diagnostic.errorCount]

theorem tokensRead (h : Counted s) (htokensRead : TokensRead s ts t) : Counted t := by
  induction htokensRead with
  | refl => exact h
  | look _ hlook ih => exact ih.looks hlook
  | read _ ih => exact ih.read
  | report _ _ _ _ ih | limit _ _ ih | rename _ _ ih =>
    exact ⟨ih.rest_eq, ih.errors_eq, ih.index_le⟩

/-- Where nothing is left to read, everything has been seen. -/
theorem seenLexemes_of_rest (h : Counted s) (hrest : s.input.rest = []) :
    s.input.seenLexemes = s.input.stream :=
  List.take_of_length_le
    (Nat.le_trans (List.drop_eq_nil_iff.mp (h.rest_eq.symm.trans hrest)) h.index_le)

/-- Where all is read but the end of file, and that has been looked at, everything has been seen. -/
theorem seenLexemes_eq (h : Counted s) (hrest : s.read.input.rest = [])
    (hseen : s.input.index < s.input.seen) : s.input.seenLexemes = s.input.stream := by
  rw [rest_read_eq, h.rest_eq, List.tail_drop, List.drop_eq_nil_iff] at hrest
  exact List.take_of_length_le (Nat.le_trans hrest hseen)

/-- Where nothing is left to read, all errors of the text have been counted. -/
theorem errors_eq_issues (h : Counted s) (hrest : s.input.rest = []) :
    s.input.errors = Diagnostic.errorCount s.input.issues := by
  rw [h.errors_eq, Lookahead.issues, h.seenLexemes_of_rest hrest,
    List.take_of_length_le (List.drop_eq_nil_iff.mp (h.rest_eq.symm.trans hrest))]

end Counted

end ParseState

theorem Parser.run_bodyGuard_endOfFile (hkind : s.kindAt 1 = .endOfFile) (atLimit : Bool)
    (ctx : Context) (region : Region) :
    (bodyGuard atLimit ctx region).run s = (.inl .endOfFile, (peekKind.run s).2) := by
  have hend : (stopAtEnd? ctx region.terminator).run s = (some .endOfFile, (peekKind.run s).2) := by
    unfold stopAtEnd?
    rw [run_bind, show (peekKind.run s).1 = s.kindAt 1 from rfl, hkind]
    rfl
  unfold bodyGuard
  rw [run_bind, hend]
  rfl

/-- Statements that stand alone are read up to the end of the text, which has been looked at. -/
theorem run_snippet (version : Version) (mode : ScanMode) (text : String) :
    ∃ ns t,
      (bodyAt maxNesting (.snippet version) {}).run (.ofText mode text) = ((ns, .endOfFile), t) ∧
      t.kindAt 1 = .endOfFile ∧ t.input.seenLexemes = Lexeme.ofText mode text := by
  let ctx := Context.snippet version
  let parse : Option FormParser := some (formWith 199 (bodyAt 199))
  let rounds : Parser (Progress × Stop) :=
    loop .endOfFile (fun _ => nestingGuard parse.isNone ctx {}) (bodyStep parse ctx {}) {}
  obtain ⟨p, s, stop, t, hloop, hguard⟩ : ∃ p s stop t,
      rounds.run (.ofText mode text) = ((p, stop), t) ∧
      (nestingGuard parse.isNone ctx {}).run s = (.inl stop, t) := by
    obtain ⟨p, s, stop, t, -, hloop, hguard⟩ := loop_run (R := fun _ _ => True)
      (fun (_ : Progress) _ _ _ hguard => (round_of_nestingGuard hguard).1)
      (fun _ _ _ _ _ => trivial) .endOfFile {} (.ofText mode text)
    exact ⟨p, s, stop, t, hloop, hguard⟩
  have hrun : (bodyAt maxNesting ctx {}).run (.ofText mode text) = ((p.nodes, stop), t) := by
    change (let r := rounds.run (.ofText mode text); ((r.1.1.nodes, r.1.2), r.2)) = _
    rw [hloop]
  obtain ⟨ts, htokensRead⟩ : Later (.ofText mode text) t :=
    (Flows.of_run inferInstance hrun).later
  have hstop := (accountsBodies maxNesting ctx {} (.ofText mode text)).stops_body
  rw [hrun] at hstop
  obtain ⟨rfl, hend⟩ := hstop.at_end rfl rfl
  have hlast := (htokensRead.onward (at_ofText _ text)).1.rest_read hend
  refine ⟨p.nodes, t, hrun, hend, ?_⟩
  rw [((Counted.ofText _ _).tokensRead htokensRead).seenLexemes_eq hlast, htokensRead.stream_eq]
  · rfl
  · -- The guard that has stopped the body has looked at the end of file.
    rw [run_nestingGuard] at hguard
    have hkind := ((stops_of_bodyGuard hguard).1.kindAt 1).symm.trans hend
    obtain rfl := congrArg Prod.snd ((run_bodyGuard_endOfFile hkind _ ctx {}).symm.trans hguard)
    exact Nat.le_max_right _ _

/-! ## Nodes -/

namespace Node

/-- A node and all nodes below it are complete. -/
def AllComplete (n : Node) : Prop := ∀ path m, n.Reaches path m → m.extent.isComplete = true

/-- All that is below a complete node is complete, here and below. -/
def Sound (n : Node) : Prop :=
  ∀ path m, n.Reaches path m → m.extent.isComplete = true → m.AllComplete

theorem Sound.allComplete {n : Node} (h : n.Sound) (hn : n.extent.isComplete = true) :
    n.AllComplete := h [] n .root hn

theorem sound_of_children {n : Node} (h : ∀ c ∈ n.children, c.Sound)
    (hcomplete : n.extent.isComplete = true → ∀ c ∈ n.children, c.extent.isComplete = true) :
    n.Sound := by
  intro path m hreach hm
  obtain ⟨rfl, rfl⟩ | ⟨c, hc, path', hreach', rfl⟩ := hreach.root_or_below
  · intro path m' hreach
    obtain ⟨rfl, rfl⟩ | ⟨c, hc, path', hreach', rfl⟩ := hreach.root_or_below
    · exact hm
    · exact (h c hc).allComplete (hcomplete hm c hc) path' m' hreach'
  · exact h c hc path' m hreach' hm

end Node

/-- The nodes are sound, and complete unless errors were added while they were read: `before` are
the errors at the beginning, `behind` those at the end. -/
structure ErrorCounts (before behind : Nat) (ns : List Node) : Prop where
  le : before ≤ behind
  sound : ∀ n ∈ ns, n.Sound
  complete : behind = before → ∀ n ∈ ns, n.extent.isComplete = true

namespace ErrorCounts

theorem nil (errors : Nat) : ErrorCounts errors errors [] := ⟨Nat.le_refl _, by simp, by simp⟩

theorem onward (h : ErrorCounts before mid ns) (hle : mid ≤ behind) :
    ErrorCounts before behind ns :=
  ⟨Nat.le_trans h.le hle, h.sound, fun heq => h.complete (by have := h.le; omega)⟩

theorem insert (h : ErrorCounts before mid ns) (hn : ErrorCounts mid behind [n]) :
    ErrorCounts before behind (n.insert ns) where
  le := Nat.le_trans h.le hn.le
  sound m hm := by
    obtain rfl | hm := Node.mem_insert hm
    · exact hn.sound m (List.mem_singleton_self m)
    · exact h.sound m hm
  complete heq m hm := by
    have hle := h.le
    have hle' := hn.le
    obtain rfl | hm := Node.mem_insert hm
    · exact hn.complete (by omega) m (List.mem_singleton_self m)
    · exact h.complete (by omega) m hm

/-- A node around nodes is complete if and only if no error was added since its first token. -/
theorem close {n : Node} (h : ErrorCounts mid mid' ns) (hbefore : before ≤ mid)
    (hbehind : mid' ≤ behind)
    (hchildren : n.children = ns) (hn : n.extent.isComplete = (behind == before)) :
    ErrorCounts before behind [n] := by
  subst hchildren
  have hle := h.le
  refine ⟨by omega, fun m hm => ?_, fun heq m hm => ?_⟩
  · obtain rfl := List.mem_singleton.mp hm
    refine Node.sound_of_children h.sound fun hcomplete => h.complete ?_
    rw [hn, beq_iff_eq] at hcomplete
    omega
  · obtain rfl := List.mem_singleton.mp hm
    rw [hn, heq, beq_self_eq_true]

end ErrorCounts

/-! ## What is read -/

/-- What a judgment says about the errors before and behind it. -/
def Judgment.ErrorsCounted : Judgment → Prop
  | .rounds _ _ _ s p t | .clauseRounds _ _ _ _ s p t =>
    ErrorCounts s.errorCount t.errorCount p.nodes
  | .body _ _ _ s ns _ t | .content _ _ _ s ns _ t => ErrorCounts s.errorCount t.errorCount ns
  | .clause _ _ _ o s n _ t | .statement _ _ o s n t =>
    o.errors ≤ s.errorCount → ErrorCounts o.errors t.errorCount [n]

theorem Account.errorsCounted {J : Judgment} (h : Account J) : J.ErrorsCounted := by
  induction h with
  | noRound _ _ _ s | noClause _ _ _ _ s => exact .nil s.errorCount
  | addStatement _ hchoice _ _ _ hjump hleave ihBefore ihStatement =>
    have hle := (hchoice.looks.later.trans (.read _)).errorCount_le
    exact (ihBefore.insert (ihStatement hle)).onward
      (((careful_checkJump _ _ _).later hjump).trans hleave.later).errorCount_le
  | @skip _ _ _ _ p _ _ q _ _ hskip ih =>
    obtain ⟨t, hbefore, -, hbehind⟩ := hskip.later
    have hle := (hbefore.trans ((Later.read t).trans hbehind)).errorCount_le
    have hnodes : q.nodes = p.nodes := hskip.nodes_eq
    change ErrorCounts _ _ q.nodes
    rw [hnodes]
    exact ih.onward hle
  | addClause _ _ hlook _ _ ihBefore ihClause =>
    exact ihBefore.insert (ihClause (hlook.later.trans (.read _)).errorCount_le)
  | skipClause _ _ _ hlook hskip ih =>
    exact ih.onward (hlook.later.trans
      ((Later.read _).trans ((careful_skipUnexpected _ _ _).later hskip))).errorCount_le
  | body _ _ hlook ih | holdsClauses _ _ _ hlook ih => exact ih.onward hlook.later.errorCount_le
  | holdsBody _ _ ih => exact ih
  | holdsBranches _ _ _ _ ihBody ihBranch =>
    exact ihBody.insert (ihBranch (Later.read _).errorCount_le)
  | clause hheader _ _ _ _ hclose ih =>
    obtain ⟨rfl, rfl⟩ := Prod.mk.inj hclose
    intro hle
    exact ih.close (Nat.le_trans hle hheader.later.errorCount_le) (Nat.le_refl _) rfl rfl
  | leaf hmoves _ hclose =>
    obtain ⟨rfl, rfl⟩ := Prod.mk.inj hclose
    intro hle
    exact (ErrorCounts.nil _).close (Nat.le_trans hle hmoves.later.errorCount_le)
      (Nat.le_refl _) rfl rfl
  | block hheader _ hbefore _ hbehind hend hafter _ hclose ih =>
    obtain ⟨rfl, rfl⟩ := Prod.mk.inj hclose
    intro hle
    have hend := (runs_closeBlock _ _ _ _ _).later hend
    exact ih.close (Nat.le_trans hle (hheader.later.trans hbefore.later).errorCount_le)
      (hbehind.later.trans (hend.trans hafter.later)).errorCount_le rfl rfl

/-! ## Modules -/

theorem ParseState.errorCount_diagnostics (s : ParseState) :
    Diagnostic.errorCount s.diagnostics =
      Diagnostic.errorCount s.input.issues + Diagnostic.errorCount s.reports := by
  unfold Diagnostic.errorCount
  rw [s.perm_diagnostics.countP_eq, List.countP_append]

/-- A module is complete if and only if no diagnostic of it is an error, and what is below a
complete node is complete. -/
theorem parseModule_complete (text : String) (options : ParseOptions) :
    ((parseModule text options).module.extent.isComplete = true ↔
      ∀ d ∈ (parseModule text options).diagnostics, d.isError = false) ∧
    (parseModule text options).module.Sound := by
  obtain ⟨s, stop, hmodule, -, hextent, -, -, hdiagnostics⟩ := account_parseModule text options
  obtain ⟨-, hend⟩ := hmodule.stops_body.at_end rfl rfl
  obtain ⟨ts, htokensRead : TokensRead (.ofText options.mode text) ts s⟩ := hmodule.later
  have hcount :
      s.read.errorCount = Diagnostic.errorCount (parseModule text options).diagnostics := by
    have hrest := (htokensRead.onward (at_ofText _ text)).1.rest_read hend
    have hissues := ((Counted.ofText _ _).tokensRead htokensRead.read).errors_eq_issues hrest
    rw [hdiagnostics, Diagnostic.errorCount, options.countP_placed _ fun _ _ => rfl]
    exact (congrArg _ hissues).trans ((Nat.add_comm _ _).trans s.read.errorCount_diagnostics.symm)
  rw [hextent]
  constructor
  · rw [hcount, beq_iff_eq]
    simp [Diagnostic.errorCount, List.countP_eq_zero]
  · have herrorCounts : ErrorCounts 0 s.errorCount (parseModule text options).module.children :=
      hmodule.errorsCounted
    refine Node.sound_of_children herrorCounts.sound fun hcomplete => herrorCounts.complete ?_
    rw [hextent, beq_iff_eq] at hcomplete
    exact Nat.le_zero.mp (hcomplete ▸ (Later.read s).errorCount_le)

end FourGL
