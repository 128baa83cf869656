import FourGL.Proofs.Grammar.Place

/-!
# The tokens that a run reads

`TokensRead s ts t` says that a run may lead from the state `s` to the state `t`, and that it reads
the tokens `ts` on the way, in this order. Every account is such a run. What a run cannot undo is
proved for one step of it each: tokens are read once, errors add up, and reports stay.
-/

namespace FourGL

open FourGL.Parser FourGL.ParseState

/-- The tokens that count as read. -/
def significant (ts : List Token) : List Token := ts.filter (·.kind ≠ .endOfFile)

@[simp] theorem significant_append (ts us : List Token) :
    significant (ts ++ us) = significant ts ++ significant us := List.filter_append ..

theorem significant_singleton {t : Token} (h : t.kind ≠ .endOfFile) : significant [t] = [t] :=
  List.filter_eq_self.mpr (by simpa using h)

theorem significant_endOfFile {t : Token} (h : t.kind = .endOfFile) : significant [t] = [] :=
  List.filter_eq_nil_iff.mpr (by simpa using h)

/-- It does not matter in which file something is said. -/
theorem ParseOptions.countP_placed (options : ParseOptions) (ds : List Diagnostic)
    {p : Diagnostic → Bool} (hp : ∀ file d, p (Diagnostic.inFile file d) = p d) :
    (options.placed ds).countP p = ds.countP p := by
  unfold placed
  split
  next file _ => exact List.countP_map.trans (List.countP_congr fun d _ => by simp [hp])
  next => rfl

theorem ParseOptions.any_placed (options : ParseOptions) (ds : List Diagnostic)
    {p : Diagnostic → Bool} (hp : ∀ file d, p (Diagnostic.inFile file d) = p d) :
    (options.placed ds).any p = ds.any p := by
  unfold placed
  split
  next file _ => exact List.any_map.trans (congrArg _ (funext (hp file)))
  next => rfl

theorem ParseOptions.filter_placed (options : ParseOptions) (ds : List Diagnostic)
    {p : Diagnostic → Bool} (hp : ∀ file d, p (Diagnostic.inFile file d) = p d) :
    (options.placed ds).filter p = options.placed (ds.filter p) := by
  unfold placed
  split
  next file _ =>
    rw [List.filter_map]
    exact congrArg _ (List.filter_congr fun d _ => hp file d)
  next => rfl

theorem ParseOptions.code_of_mem_placed {options : ParseOptions} (h : d ∈ options.placed ds) :
    ∃ d' ∈ ds, d'.code = d.code := by
  unfold placed at h
  split at h
  · obtain ⟨d', hd', rfl⟩ := List.mem_map.mp h
    exact ⟨d', hd', rfl⟩
  · exact ⟨d, h, rfl⟩

theorem placed_perm (options : ParseOptions) (h : ds.Perm ds') :
    (options.placed ds).Perm (options.placed ds') := by
  unfold ParseOptions.placed
  split
  · exact h.map _
  · exact h

namespace ParseState

theorem significant_read (s : ParseState) :
    significant [s.input.tokenAt 1] ++ significant (s.read.input.rest.map (·.token)) =
      significant (s.input.rest.map (·.token)) := by
  cases hrest : s.input.rest with
  | nil => simp [read, Lookahead.advance, Lookahead.tokenAt, hrest, significant, Token.endOfFile]
  | cons l ls =>
    have hcons := significant_append [l.token] (ls.map (·.token))
    simpa [read, Lookahead.advance, Lookahead.tokenAt, hrest] using hcons.symm

theorem consumed_read (s : ParseState) :
    s.read.input.consumed = s.input.consumed + (significant [s.input.tokenAt 1]).length := by
  cases hrest : s.input.rest with
  | nil => simp [read, Lookahead.advance, Lookahead.tokenAt, hrest, significant, Token.endOfFile]
  | cons l ls =>
    by_cases hend : l.token.kind = .endOfFile <;>
      simp [read, Lookahead.advance, Lookahead.tokenAt, hrest, hend, significant]

inductive TokensRead (s : ParseState) : List Token → ParseState → Prop where
  | refl : TokensRead s [] s
  | look (h : TokensRead s ts t) (hlook : Looks t u) : TokensRead s ts u
  | read (h : TokensRead s ts t) : TokensRead s (ts ++ [t.input.tokenAt 1]) t.read
  | report (h : TokensRead s ts t) (m : Message) (args : List String) (span : Span) :
      TokensRead s ts { t with reports := .of m args (some span) :: t.reports }
  | limit (h : TokensRead s ts t) (hlimit : t.limitReported = true ∨ t.LimitTold) :
      TokensRead s ts { t with limitReported := true }
  | rename (h : TokensRead s ts t) (names : Names) : TokensRead s ts { t with names }

namespace TokensRead

theorem trans (h₁ : TokensRead s ts t) (h₂ : TokensRead t us u) :
    TokensRead s (ts ++ us) u := by
  induction h₂ with
  | refl => simpa using h₁
  | look _ hlook ih => exact .look ih hlook
  | read _ ih => simpa using TokensRead.read ih
  | report _ m args span ih => exact .report ih m args span
  | limit _ hlimit ih => exact .limit ih hlimit
  | rename _ names ih => exact .rename ih names

/-- What has been read and what is left make up what was left before. -/
theorem significant_eq (h : TokensRead s ts t) :
    significant ts ++ significant (t.input.rest.map (·.token)) =
      significant (s.input.rest.map (·.token)) := by
  induction h with
  | refl => rfl
  | look _ hlook ih => rw [hlook.rest, ih]
  | read _ ih => rw [significant_append, List.append_assoc, significant_read, ih]
  | report _ _ _ _ ih | limit _ _ ih | rename _ _ ih => exact ih

theorem consumed_eq (h : TokensRead s ts t) :
    t.input.consumed = s.input.consumed + (significant ts).length := by
  induction h with
  | refl => rfl
  | look _ hlook ih =>
    obtain ⟨seen, -, rfl⟩ := hlook
    exact ih
  | read _ ih => rw [consumed_read, ih, significant_append, List.length_append, Nat.add_assoc]
  | report _ _ _ _ ih | limit _ _ ih | rename _ _ ih => exact ih

theorem stream_eq (h : TokensRead s ts t) : t.input.stream = s.input.stream := by
  induction h with
  | refl => rfl
  | look _ hlook ih =>
    obtain ⟨seen, -, rfl⟩ := hlook
    exact ih
  | read _ ih =>
    rw [← ih]
    unfold ParseState.read Lookahead.advance
    split <;> rfl
  | report _ _ _ _ ih | limit _ _ ih | rename _ _ ih => exact ih

theorem errorCount_le (h : TokensRead s ts t) : s.errorCount ≤ t.errorCount := by
  induction h with
  | refl => exact Nat.le_refl _
  | look _ hlook ih => rwa [hlook.errorCount]
  | @read ts t _ ih =>
    refine Nat.le_trans ih (Nat.add_le_add_left ?_ _)
    unfold ParseState.read Lookahead.advance
    split <;> simp
  | @report ts t _ m args span ih =>
    refine Nat.le_trans ih (Nat.add_le_add_right ?_ _)
    simp [Diagnostic.errorCount, List.countP_cons]
  | limit _ _ ih | rename _ _ ih => exact ih

theorem limitReported (h : TokensRead s ts t) (hs : s.limitReported = true) :
    t.limitReported = true := by
  induction h with
  | refl => exact hs
  | look _ hlook ih =>
    obtain ⟨seen, -, rfl⟩ := hlook
    exact ih
  | limit => rfl
  | read _ ih | report _ _ _ _ ih | rename _ _ ih => exact ih

/-- Reaching the limit of nesting is noted only where it is reported. -/
theorem limitTold (h : TokensRead s ts t) (hs : s.limitReported = false)
    (ht : t.limitReported = true) :
    t.LimitTold := by
  induction h with
  | refl => exact absurd (hs.symm.trans ht) Bool.false_ne_true
  | look _ hlook ih =>
    obtain ⟨seen, -, rfl⟩ := hlook
    exact ih ht
  | report _ _ _ _ ih =>
    obtain ⟨d, hd, hcode⟩ := ih ht
    exact ⟨d, List.mem_cons_of_mem _ hd, hcode⟩
  | limit _ hlimit ih => exact hlimit.elim ih id
  | read _ ih | rename _ _ ih => exact ih ht

theorem onward (h : TokensRead s ts t) (hat : At text s) : Onward text s t := by
  induction h with
  | refl => exact ⟨hat, Nat.le_refl _⟩
  | look _ hlook ih => exact ih.trans (ih.1.looks hlook)
  | read _ ih => exact ih.trans ih.1.read
  | report _ m args span ih => exact ih.trans (ih.1.step (.report args span (Set.mem_univ m)))
  | limit _ _ ih => exact ih.trans (ih.1.step (M := Set.univ) .limit)
  | rename _ names ih => exact ih.trans (ih.1.step (M := Set.univ) (.rename names))

theorem reports_subset (h : TokensRead s ts t) : s.reports ⊆ t.reports := by
  induction h with
  | refl => exact List.Subset.refl _
  | look _ hlook ih => exact hlook.reports ▸ ih
  | read _ ih => exact ih
  | report _ _ _ _ ih => exact List.subset_cons_of_subset _ ih
  | limit _ _ ih => exact ih
  | rename _ _ ih => exact ih

end TokensRead

/-- The diagnostics of a state are the issues of the tokens seen and the reports. -/
theorem perm_diagnostics (s : ParseState) : s.diagnostics.Perm (s.input.issues ++ s.reports) :=
  (List.mergeSort_perm _ _).trans (s.reports.reverse_perm.append_left _)

theorem At.isFrom_issues (h : At text s) : ∀ d ∈ s.input.issues, d.IsFrom scanMessages := by
  intro d hd
  obtain ⟨mode, hstream⟩ := h.stream_eq
  obtain ⟨l, hl, hd⟩ := List.mem_flatMap.mp hd
  have hl : l ∈ Lexeme.ofText mode text := hstream ▸ List.mem_of_mem_take hl
  exact Lexeme.isFrom_issues_ofText hl d hd

/-- What scanning never says is only found among the reports. -/
theorem At.perm_filter (h : At text s) {p : Diagnostic → Bool}
    (hp : ∀ d : Diagnostic, d.IsFrom scanMessages → p d = false) :
    (s.diagnostics.filter p).Perm (s.reports.filter p) := by
  have hissues : s.input.issues.filter p = [] :=
    List.filter_eq_nil_iff.mpr fun d hd => by simp [hp d (h.isFrom_issues d hd)]
  have hperm := s.perm_diagnostics.filter p
  rwa [List.filter_append, hissues, List.nil_append] at hperm

/-- A run may lead from one state to the other. -/
def Later (s t : ParseState) : Prop := ∃ ts, TokensRead s ts t

namespace Later

theorem refl (s : ParseState) : Later s s := ⟨[], .refl⟩

theorem trans (h₁ : Later s t) (h₂ : Later t u) : Later s u := by
  obtain ⟨ts, h₁⟩ := h₁
  obtain ⟨us, h₂⟩ := h₂
  exact ⟨ts ++ us, h₁.trans h₂⟩

theorem read (s : ParseState) : Later s s.read := ⟨_, .read .refl⟩

theorem errorCount_le (h : Later s t) : s.errorCount ≤ t.errorCount := by
  obtain ⟨ts, h⟩ := h
  exact h.errorCount_le

theorem consumed_le (h : Later s t) : s.input.consumed ≤ t.input.consumed := by
  obtain ⟨ts, h⟩ := h
  rw [h.consumed_eq]
  exact Nat.le_add_right _ _

theorem onward (h : Later s t) (hat : At text s) : Onward text s t := by
  obtain ⟨ts, h⟩ := h
  exact h.onward hat

theorem limitReported (h : Later s t) (hs : s.limitReported = true) : t.limitReported = true := by
  obtain ⟨ts, h⟩ := h
  exact h.limitReported hs

end Later

theorem Looks.later (h : Looks s t) : Later s t := ⟨[], .look .refl h⟩

theorem Move.later (h : Move R M s t) : Later s t := by
  cases h with
  | look depth => exact (looks_inspect s depth).later
  | read => exact .read s
  | report args span => exact ⟨[], .report .refl _ args span⟩
  | limit hlimit => exact ⟨[], .limit .refl hlimit⟩
  | nest nesting => exact ⟨[], .look .refl (looks_nesting _ nesting)⟩
  | rename names => exact ⟨[], .rename .refl names⟩

theorem Moves.later (h : Moves R M s t) : Later s t := by
  induction h with
  | refl => exact .refl s
  | tail _ hmove ih => exact ih.trans hmove.later

theorem Rests.later (h : Rests s t) : Later s t := h.1.later

end ParseState

theorem Parser.Runs.later {p : Parser α} (h : p.Runs R M s) (hrun : p.run s = (a, t)) :
    Later s t :=
  (h.of_run hrun).later

theorem Parser.kindAt_reportLimit (s : ParseState) (depth : Nat) :
    (reportLimit.run s).2.kindAt depth = s.kindAt depth := by
  unfold reportLimit
  rw [run_bind]
  split <;> rfl

/-- A round that adds no node reads a token. -/
theorem Parser.Skip.later {atLimit : Bool} {ctx : Context} {region : Region}
    {a b : Progress × ParseState} (h : Skip atLimit ctx region a b) :
    ∃ t, Later a.2 t ∧ t.kindAt 1 ≠ .endOfFile ∧ Later t.read b.2 := by
  cases h with
  | @unavailable u p f s t hchoice hreport =>
    refine ⟨t, hchoice.looks.later, ?_, (careful_report (Set.mem_univ _) _ _ _).later hreport⟩
    exact hchoice.looks.kindAt 1 ▸ hchoice.passes.ne_endOfFile
  | @tooDeep u p s t hchoice hlimit =>
    have hkind := kindAt_reportLimit t 1
    rw [hlimit, hchoice.looks.kindAt] at hkind
    refine ⟨u, hchoice.looks.later.trans
      ((careful_reportLimit .rfl t).later hlimit), ?_, .refl _⟩
    exact hkind.symm ▸ hchoice.passes.ne_endOfFile
  | @unexpected p u s t hchoice hskip =>
    refine ⟨t, hchoice.looks.later, ?_, (careful_skipUnexpected _ _ _).later hskip⟩
    exact hchoice.looks.kindAt 1 ▸ hchoice.passes.ne_endOfFile

namespace Judgment

/-- Where the judgment begins. -/
def before : Judgment → ParseState
  | .rounds _ _ _ s _ _ | .clauseRounds _ _ _ _ s _ _ | .body _ _ _ s _ _ _
  | .content _ _ _ s _ _ _ | .clause _ _ _ _ s _ _ _ | .statement _ _ _ s _ _ => s

/-- Where the judgment ends. -/
def behind : Judgment → ParseState
  | .rounds _ _ _ _ _ t | .clauseRounds _ _ _ _ _ _ t | .body _ _ _ _ _ _ t
  | .content _ _ _ _ _ _ t | .clause _ _ _ _ _ _ _ t | .statement _ _ _ _ _ t => t

end Judgment

theorem Account.later {J : Judgment} (h : Account J) : Later J.before J.behind := by
  induction h with
  | noRound _ _ _ s | noClause _ _ _ _ s => exact .refl s
  | addStatement _ hchoice _ _ _ hjump hleave ihBefore ihStatement =>
    exact ihBefore.trans (hchoice.looks.later.trans ((Later.read _).trans
      (ihStatement.trans (((careful_checkJump _ _ _).later hjump).trans hleave.later))))
  | skip _ hskip ih =>
    obtain ⟨t, hfirst, -, hlast⟩ := hskip.later
    exact ih.trans (hfirst.trans ((Later.read t).trans hlast))
  | addClause _ _ hlook _ _ ihBefore ihClause =>
    exact ihBefore.trans (hlook.later.trans ((Later.read _).trans ihClause))
  | skipClause _ _ _ hlook hskip ih =>
    exact ih.trans (hlook.later.trans
      ((Later.read _).trans ((careful_skipUnexpected _ _ _).later hskip)))
  | body _ _ hlook ih | holdsClauses _ _ _ hlook ih => exact ih.trans hlook.later
  | holdsBody _ _ ih => exact ih
  | holdsBranches _ _ _ _ ihBody ihBranch => exact ihBody.trans ((Later.read _).trans ihBranch)
  | clause hheader _ _ _ _ hclose ih =>
    obtain ⟨-, rfl⟩ := Prod.mk.inj hclose
    exact hheader.later.trans ih
  | leaf hmoves _ hclose =>
    obtain ⟨-, rfl⟩ := Prod.mk.inj hclose
    exact hmoves.later
  | block hheader _ hbefore _ hbehind hend hafter _ hclose ih =>
    obtain ⟨-, rfl⟩ := Prod.mk.inj hclose
    exact hheader.later.trans (hbefore.later.trans (ih.trans (hbehind.later.trans
      (((runs_closeBlock _ _ _ _ _).later hend).trans hafter.later))))

end FourGL
