import FourGL.Proofs.Grammar.RunProperties
import FourGL.Proofs.Grammar.Progress

/-!
# The flow of a run

Phrases never touch the names that are declared: what is written down about names, the `NameState`
of a state, stays as it is while an expression, a type or the header of a block is read. A parser is
`KeepsNames` if it keeps the name state; every parser at least `Flows`: it goes on in the text,
notes that the text nests too deep only together with an error, and gives up the token it has warned
about. Both are properties of runs, so that parsers have them by instance.
-/

namespace FourGL

open FourGL.Parser FourGL.ParseState

/-! ## Name states -/

/-- The diagnostic is about a name that is declared or bound more than once, or nowhere. -/
def Diagnostic.aboutNames (d : Diagnostic) : Bool :=
  [Message.alreadyDefined.code, Message.cursorRefused.code, Message.cursorRedeclared.code].contains
    d.code

/-- What is written down about names: the scope of each owner, the loops around the place, what the
GLOBALS blocks declare, and what has been reported about names, the latest first. -/
structure NameState where
  scope : Owner → Scope
  loops : List LoopCursor
  globals : Scope
  told : List Diagnostic

namespace ParseState

def nameState (s : ParseState) : NameState where
  scope o := (s.names.get o).scope
  loops := s.names.loops
  globals := s.names.globals
  told := s.reports.filter (·.aboutNames)

/-! ## Flowing -/

/-- If the limit of nesting was reached, this has been reported before all that is left to read. -/
def Warned (s : ParseState) : Prop :=
  s.limitReported = true → ∃ d ∈ s.reports, d.code = Message.nestingTooDeep.code ∧
    ∀ l ∈ s.input.rest, l.token.kind ≠ .endOfFile → d.start < l.token.start

theorem Warned.mono {s t : ParseState} (h : s.Warned) (hlimit : t.limitReported = s.limitReported)
    (hreports : s.reports ⊆ t.reports) (hrest : t.input.rest ⊆ s.input.rest) : t.Warned := by
  intro hreported
  obtain ⟨d, hd, hcode, hlt⟩ := h (hlimit ▸ hreported)
  exact ⟨d, hreports hd, hcode, fun l hl => hlt l (hrest hl)⟩

theorem rest_read_eq (s : ParseState) : s.read.input.rest = s.input.rest.tail := by
  unfold ParseState.read Lookahead.advance
  split <;> simp_all

/-- A run leads from one state to the other. Where it adds no error, the limit of nesting is not
reached in it. -/
structure Flows (s t : ParseState) : Prop where
  later : Later s t
  limit_eq : t.errorCount = s.errorCount → t.limitReported = s.limitReported
  warned : ∀ text, At text s → s.Warned → t.Warned

namespace Flows

theorem refl (s : ParseState) : Flows s s := ⟨.refl s, fun _ => rfl, fun _ _ h => h⟩

theorem trans (h₁ : Flows s t) (h₂ : Flows t u) : Flows s u where
  later := h₁.later.trans h₂.later
  limit_eq h := by
    have hle₁ := h₁.later.errorCount_le
    have hle₂ := h₂.later.errorCount_le
    rw [h₂.limit_eq (by omega), h₁.limit_eq (by omega)]
  warned text hat h := h₂.warned text (h₁.later.onward hat).1 (h₁.warned text hat h)

theorem read (s : ParseState) : Flows s s.read where
  later := .read s
  limit_eq _ := rfl
  warned _ _ h := h.mono rfl (List.Subset.refl _) (rest_read_eq s ▸ (List.tail_sublist _).subset)

theorem report (s : ParseState) (m : Message) (args : List String) (span : Span) :
    Flows s { s with reports := .of m args (some span) :: s.reports } where
  later := ⟨[], .report .refl m args span⟩
  limit_eq _ := rfl
  warned _ _ h := h.mono rfl (List.subset_cons_self _ _) (List.Subset.refl _)

theorem rename (s : ParseState) (names : Names) : Flows s { s with names } where
  later := ⟨[], .rename .refl names⟩
  limit_eq _ := rfl
  warned _ _ h := h.mono rfl (List.Subset.refl _) (List.Subset.refl _)

end Flows

theorem Looks.flows (h : Looks s t) : Flows s t := by
  refine ⟨h.later, fun _ => ?_, fun _ _ hwarned => ?_⟩ <;> obtain ⟨seen, -, rfl⟩ := h
  · rfl
  · exact hwarned.mono rfl (List.Subset.refl _) (List.Subset.refl _)

theorem Looks.nameState (h : Looks s t) : t.nameState = s.nameState := by
  obtain ⟨seen, -, rfl⟩ := h
  rfl

/-- What is left to read behind a token starts behind it. -/
theorem At.start_lt_of_mem (h : At text s) {l : Lexeme} (hl : l ∈ s.input.rest.tail) :
    (s.input.tokenAt 1).start < l.token.start := by
  have hne : s.kindAt 1 ≠ .endOfFile := by
    intro hend
    rw [← rest_read_eq, h.rest_read hend] at hl
    cases hl
  rw [← last_read]
  exact Nat.lt_of_lt_of_le (h.read_token hne).2 (h.read.1.le_start l (rest_read_eq s ▸ hl))

theorem reportLimit_cases (s : ParseState) :
    s.limitReported = true ∧ reportLimit.run s = ((), s) ∨
      ∃ t, Looks s t ∧ reportLimit.run s = ((), { t with
        reports := .of .nestingTooDeep [] (some (s.input.tokenAt 1).span) :: t.reports
        limitReported := true }) := by
  cases hlimit : s.limitReported with
  | true =>
    obtain ⟨input, reports, limit, names, nesting⟩ := s
    obtain rfl : limit = true := hlimit
    exact .inl ⟨rfl, rfl⟩
  | false =>
    refine .inr ⟨_, looks_inspect s 1, ?_⟩
    unfold reportLimit
    rw [run_bind, show (ask (·.limitReported)).run s = (false, s) from Prod.ext hlimit rfl]
    rfl

/-- Where the limit of nesting is reached, the token that is warned about is given up. -/
theorem flows_giveUp {s t : ParseState} (h : Looks (reportLimit.run s).2 t) : Flows s t.read := by
  obtain ⟨-, hrun⟩ | ⟨u, hlook, hrun⟩ := reportLimit_cases s
  · rw [hrun] at h
    exact h.flows.trans (.read t)
  · have hlater : Later s t.read :=
      ((careful_reportLimit (M := phraseMessages) .rfl s).later rfl).trans (h.later.trans (.read t))
    rw [hrun] at h
    have hrest : t.read.input.rest = s.input.rest.tail := by
      rw [rest_read_eq, h.rest]
      exact congrArg _ hlook.rest
    refine ⟨hlater, fun herrors => ?_, fun text hat _ _ => ?_⟩
    · -- The report is an error.
      have hle := (h.later.trans (.read t)).errorCount_le
      rw [herrors, ← hlook.errorCount] at hle
      have hone : (Diagnostic.of .nestingTooDeep [] (some (s.input.tokenAt 1).span)).isError =
          true :=
        rfl
      simp only [ParseState.errorCount, Diagnostic.errorCount, List.countP_cons_of_pos hone] at hle
      omega
    · refine ⟨.of .nestingTooDeep [] (some (s.input.tokenAt 1).span), ?_, rfl,
        fun l hl _ => ?_⟩
      · rw [show t.read.reports = _ from h.reports]
        exact List.mem_cons_self ..
      · exact hat.start_lt_of_mem (hrest ▸ hl)

end ParseState

theorem ParseState.nameState_reportLimit (s : ParseState) :
    (reportLimit.run s).2.nameState = s.nameState := by
  obtain ⟨-, hrun⟩ | ⟨t, hlook, hrun⟩ := reportLimit_cases s
  · rw [hrun]
  · rw [hrun]
    exact hlook.nameState

/-! ## Properties of runs -/

/-- Every run flows. -/
def flowing : RunProperty := fun _ => Flows

/-- Every run flows and leaves alone what is written down about names. -/
def keepsNames : RunProperty := fun _ s t => Flows s t ∧ t.nameState = s.nameState

instance : flowing.Allows l l' := ⟨id⟩
instance : keepsNames.Allows l l' := ⟨id⟩

instance ignores_flowing (m : Message) :
    flowing.Ignores m := ⟨fun _ s args span => .report s m args span⟩

theorem ignores_keepsNames {m : Message} (h : m.aboutNames = false) : keepsNames.Ignores m where
  report _ s args span := by
    have hm : (Diagnostic.of m args (some span)).aboutNames = false := h
    exact ⟨.report s m args span, by simp [nameState, hm]⟩

instance : flowing.IgnoresNames where
  refl _ s := .refl s
  trans := Flows.trans
  look _ s depth := (looks_inspect s depth).flows
  read _ s := .read s
  plain _ := ignores_flowing _
  giveUp _ _ := flows_giveUp (looks_inspect _ 1)
  nest h := (looks_nesting _ _).flows.trans (h.trans (looks_nesting _ _).flows)
  rename _ s names _ := .rename s names
  aboutNames _ := ignores_flowing _
  forget _ s names := .rename s names
  aboutShape _ := ignores_flowing _

instance : keepsNames.AllowsPhraseReports where
  refl _ s := ⟨.refl s, rfl⟩
  trans h₁ h₂ := ⟨h₁.1.trans h₂.1, h₂.2.trans h₁.2⟩
  look _ s depth := ⟨(looks_inspect s depth).flows, rfl⟩
  read _ s := ⟨.read s, rfl⟩
  plain hm := ignores_keepsNames (by simp_all [Message.isPlain])
  giveUp _ s := ⟨flows_giveUp (looks_inspect _ 1), nameState_reportLimit s⟩
  nest h := ⟨(looks_nesting _ _).flows.trans (h.1.trans (looks_nesting _ _).flows), h.2⟩

/-! Each part of a parser asks for these, so they are kept at hand. -/

instance : flowing.AllowsPhrases := inferInstance
instance : keepsNames.AllowsPhrases := inferInstance
instance notes_flowing (m : Message) : flowing.Notes m :=
  ⟨fun _ s args => (looks_inspect s 1).flows.trans (.report _ m args _)⟩

instance : keepsNames.Ignores .returnOutsideFunction := ignores_keepsNames rfl
instance : keepsNames.Ignores .secondOtherwise := ignores_keepsNames rfl
instance : keepsNames.Ignores .secondMain := ignores_keepsNames rfl
instance : keepsNames.Ignores .emptyMenu := ignores_keepsNames rfl

/-! ## The counter of nesting -/

/-- The counter stands where it stood, and in between it was at most `l` levels deeper. -/
def balanced : RunProperty := fun l s t =>
  t.nesting.depth = s.nesting.depth ∧
  t.nesting.deepest ≤ max s.nesting.deepest (s.nesting.depth + l)

theorem balanced_of_eq {s t : ParseState} (h : t.nesting = s.nesting) : balanced l s t := by
  unfold balanced
  rw [h]
  omega

theorem nesting_reportLimit (s : ParseState) : (reportLimit.run s).2.nesting = s.nesting := by
  unfold reportLimit
  rw [run_bind]
  split <;> rfl

instance ignores_balanced (m : Message) :
    balanced.Ignores m := ⟨fun _ _ _ _ => balanced_of_eq rfl⟩

instance : balanced.IgnoresNames where
  refl _ _ := balanced_of_eq rfl
  trans h₁ h₂ := by
    unfold balanced at *
    omega
  look _ _ _ := balanced_of_eq rfl
  read _ _ := balanced_of_eq rfl
  plain _ := ignores_balanced _
  giveUp _ s := balanced_of_eq (nesting_reportLimit s)
  nest h := by
    unfold balanced Nesting.enter Nesting.leave at *
    dsimp only at *
    omega
  rename _ _ _ _ := balanced_of_eq rfl
  aboutNames _ := ignores_balanced _
  forget _ _ _ := balanced_of_eq rfl
  aboutShape _ := ignores_balanced _

namespace Parser

/-- Every run of the parser flows. -/
abbrev Flows (p : Parser α) : Prop := p.Has flowing 0

/-- Every run of the parser flows and leaves alone what is written down about names. -/
abbrev KeepsNames (p : Parser α) : Prop := p.Has keepsNames 0

section

variable {p : Parser α}

theorem Flows.flows (h : p.Flows) (s : ParseState) : ParseState.Flows s (p.run s).2 := h.has s

theorem Flows.of_run (h : p.Flows) (hrun : p.run s = (a, t)) : ParseState.Flows s t :=
  Has.of_run h hrun

theorem KeepsNames.nameState (h : p.KeepsNames) (s : ParseState) :
    (p.run s).2.nameState = s.nameState := (h.has s).2

theorem KeepsNames.of_run (h : p.KeepsNames) (hrun : p.run s = (a, t)) :
    t.nameState = s.nameState :=
  (Has.of_run h hrun).2

theorem KeepsNames.toFlows (h : p.KeepsNames) : p.Flows := ⟨fun s => (h.has s).1⟩

instance (priority := low) [h : p.KeepsNames] : p.Flows := h.toFlows

end

instance : (modifyNesting f).KeepsNames := ⟨fun s => ⟨(looks_nesting s _).flows, rfl⟩⟩

instance : leave.KeepsNames := inferInstanceAs (modifyNesting _).KeepsNames

/-- Names may change as long as what the name state has of them does not. -/
theorem keepsNames_modifyNames {f : Names → Names}
    (hscope : ∀ n o, ((f n).get o).scope = (n.get o).scope)
    (hloops : ∀ n, (f n).loops = n.loops) (hglobals : ∀ n, (f n).globals = n.globals) :
    (modifyNames f).KeepsNames := by
  refine ⟨fun s => ⟨.rename s _, ?_⟩⟩
  change NameState.mk _ _ _ _ = NameState.mk _ _ _ _
  simp [modifyNames, getNames, setNames, ask, hscope, hloops, hglobals]

instance : (returnStatement levels ctx o).KeepsNames := by
  have hnote (owner : Owner) (arity : Nat) :
      (modifyNames (·.noteReturn owner arity)).KeepsNames := by
    refine keepsNames_modifyNames (fun n o => ?_) (fun n => ?_) fun n => ?_
    · rw [Names.noteReturn, Names.get_set]
      split
      next h => rw [h]
      next => rfl
    · cases owner <;> rfl
    · cases owner <;> rfl
  unfold returnStatement
  refine .bind fun values => ?_
  dsimp only
  split <;> infer_instance

instance : (importStatement o).KeepsNames := by
  have hnote (path : String) :
      (modifyNames fun n => { n with imports := n.imports ++ [path] }).KeepsNames :=
    keepsNames_modifyNames (fun _ o => by cases o <;> rfl) (fun _ => rfl) fun _ => rfl
  unfold importStatement
  refine .bind fun kind => .bind fun name => ?_
  cases name <;> infer_instance

/-- A step of a body flows if its statements do. -/
theorem flows_bodyStep {statement : Option FormParser}
    (h : ∀ parse ∈ statement, ∀ f word ctx o, (parse f word ctx o).Flows) (ctx : Context)
    (region : Region) (p : Progress) (step : Choice × Nat) :
    (bodyStep statement ctx region p step).Flows := by
  have hstep : Has flowing 1 (bodyStep statement ctx region p step) :=
    has_bodyStep region (fun parse hparse => ⟨0, rfl, h parse hparse⟩) p step
  exact ⟨hstep.has⟩

/-- A body flows if its statements do. -/
theorem flows_bodyWith {statement : Option FormParser}
    (h : ∀ parse ∈ statement, ∀ f word ctx o, (parse f word ctx o).Flows) (ctx : Context)
    (region : Region) : (bodyWith statement ctx region).Flows := by
  have hbody : BodyHas flowing 1 (bodyWith statement) :=
    has_bodyWith fun parse hparse => ⟨0, rfl, h parse hparse⟩
  exact ⟨(hbody.has ctx region inferInstance).has⟩

instance flows_bodyAt (levels : Nat) (ctx : Context) (region : Region) :
    (bodyAt levels ctx region).Flows := BodyHas.has (R := flowing) ctx region inferInstance

/-- A round that adds no node flows, and writes nothing down about names. -/
theorem Skip.flows {atLimit : Bool} {ctx : Context} {region : Region}
    {a b : Progress × ParseState} (h : Skip atLimit ctx region a b) :
    ParseState.Flows a.2 b.2 := by
  cases h with
  | unavailable hchoice hreport =>
    exact hchoice.looks.flows.trans
      ((ParseState.Flows.read _).trans (Flows.of_run inferInstance hreport))
  | @tooDeep u _ _ t hchoice hlimit =>
    have hgive := flows_giveUp (s := t) (.refl _)
    rw [hlimit] at hgive
    exact hchoice.looks.flows.trans hgive
  | unexpected hchoice hskip =>
    exact hchoice.looks.flows.trans
      ((ParseState.Flows.read _).trans (Flows.of_run inferInstance hskip))

theorem Skip.nameState {atLimit : Bool} {ctx : Context} {region : Region}
    {a b : Progress × ParseState} (h : Skip atLimit ctx region a b)
    [keepsNames.Ignores region.unexpected] : b.2.nameState = a.2.nameState := by
  cases h with
  | unavailable hchoice hreport =>
    exact (KeepsNames.of_run inferInstance hreport).trans hchoice.looks.nameState
  | @tooDeep u _ _ t hchoice hlimit =>
    have hnameState := nameState_reportLimit t
    rw [hlimit] at hnameState
    exact hnameState.trans hchoice.looks.nameState
  | unexpected hchoice hskip =>
    exact (KeepsNames.of_run inferInstance hskip).trans hchoice.looks.nameState

end Parser

end FourGL
