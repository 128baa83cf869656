import FourGL.Proofs.Grammar.Rounds

/-!
# Moves of parsers

A move is a step that can be relied on for more: it reads a token only in a state of `R`, and it
notes that the limit of nesting was reported only where that is so. A careful parser does not read
an END that begins a line, because that may belong to a block around it; only where the text nests
too deep it gives up whatever comes next. Most parsers are careful by themselves; those that read a
token which was looked at before are so in the states where they are used.
-/

namespace FourGL

namespace ParseState

/-- The next token is an END that begins a line and is not the one of a record. -/
structure AtTerminator (s : ParseState) : Prop where
  kind_eq : s.kindAt 1 = .keyword .END
  beginsLine : (s.input.tokenAt 1).lineBreakBefore = true
  ne_record : s.kindAt 2 ≠ .keyword .RECORD

/-- It has been reported that the text nests too deep. -/
def LimitTold (s : ParseState) : Prop := ∃ d ∈ s.reports, d.code = Message.nestingTooDeep.code

/-- The states in which a careful parser may read a token. -/
def careful : Set ParseState := {s | s.AtTerminator → s.limitReported = true}

theorem careful_of_ne {s : ParseState} (h : s.kindAt 1 ≠ .keyword .END) : s ∈ careful :=
  fun hat => absurd hat.kind_eq h

theorem careful_of_eq {s : ParseState} (h : s.kindAt 1 = k)
    (hk : k ≠ .keyword .END) : s ∈ careful := careful_of_ne (h ▸ hk)

/-- One step of a parser that reads only in states of `R` and reports only messages of `M`. -/
inductive Move (R : Set ParseState) (M : Set Message) (s : ParseState) : ParseState → Prop where
  | look (depth : Nat) : Move R M s { s with input := s.input.inspect depth }
  | read : s ∈ R → Move R M s s.read
  | report {m : Message} (args : List String) (span : Span) : m ∈ M →
      Move R M s { s with reports := .of m args (some span) :: s.reports }
  | limit : s.limitReported = true ∨ s.LimitTold → Move R M s { s with limitReported := true }
  | rename (names : Names) : Move R M s { s with names }
  | nest (nesting : Nesting) : Move R M s { s with nesting }

def Moves (R : Set ParseState) (M : Set Message) : ParseState → ParseState → Prop :=
  Relation.ReflTransGen (Move R M)

theorem Move.step (h : Move R M s t) : Step M s t := by
  cases h with
  | look depth => exact .look depth
  | read => exact .read
  | report args span hm => exact .report args span hm
  | limit => exact .limit
  | rename names => exact .rename names
  | nest nesting => exact .nest nesting

theorem Move.mono (h : Move R M s t) (hR : R ⊆ R') (hM : M ⊆ M') : Move R' M' s t := by
  cases h with
  | look depth => exact .look depth
  | read hs => exact .read (hR hs)
  | report args span hm => exact .report args span (hM hm)
  | limit hlimit => exact .limit hlimit
  | rename names => exact .rename names
  | nest nesting => exact .nest nesting

namespace Moves

theorem refl (s : ParseState) : Moves R M s s := Relation.ReflTransGen.refl

theorem single (h : Move R M s t) : Moves R M s t := Relation.ReflTransGen.single h

theorem trans (h₁ : Moves R M s t) (h₂ : Moves R M t u) : Moves R M s u :=
  Relation.ReflTransGen.trans h₁ h₂

theorem steps (h : Moves R M s t) : Steps M s t :=
  Relation.ReflTransGen.mono (fun _ _ hmove => Move.step hmove) _ _ h

theorem mono (h : Moves R M s t) (hR : R ⊆ R') (hM : M ⊆ M') : Moves R' M' s t :=
  Relation.ReflTransGen.mono (fun _ _ hmove => Move.mono hmove hR hM) _ _ h

end Moves

end ParseState

namespace Parser

open ParseState (Move Moves Looks careful careful_of_ne careful_of_eq)

/-- The run from the state consists of moves. -/
def Runs (R : Set ParseState) (M : Set Message) (p : Parser α) (s : ParseState) : Prop :=
  Moves R M s (p.run s).2

/-- Every run of the parser is careful. -/
def Careful (M : Set Message) (p : Parser α) : Prop := ∀ s, p.Runs careful M s

theorem run_of_bind {p : Parser α} {f : α → Parser β} (h : (p >>= f).run s = (b, t)) :
    ∃ a u, p.run s = (a, u) ∧ (f a).run u = (b, t) := ⟨_, _, rfl, h⟩

/-! ## Closure -/

namespace Runs

theorem of_run {p : Parser α} (h : p.Runs R M s) (hrun : p.run s = (a, t)) : Moves R M s t := by
  have hmoves : Moves R M s (p.run s).2 := h
  rwa [hrun] at hmoves

theorem mono {p : Parser α} (h : p.Runs R M s) (hR : R ⊆ R') :
    p.Runs R' M s := Moves.mono h hR .rfl

theorem free {p : Parser α} (h : p.Runs R M s) : p.Runs .univ M s := h.mono (Set.subset_univ R)

theorem pure (a : α) (s : ParseState) : (pure a : Parser α).Runs R M s := .refl s

theorem next (h : s ∈ R) : next.Runs R M s := .single (.read h)

theorem bind {p : Parser α} {f : α → Parser β} (hp : p.Runs R M s)
    (hf : ∀ a t, p.run s = (a, t) → (f a).Runs R M t) : (p >>= f).Runs R M s :=
  hp.trans (hf _ _ rfl)

theorem ite {c : Prop} [Decidable c] {p q : Parser α} (hp : c → p.Runs R M s)
    (hq : ¬ c → q.Runs R M s) : (if c then p else q).Runs R M s := by
  split
  next h => exact hp h
  next h => exact hq h

/-- A loop runs by moves if its guard goes on only where a token may be read. -/
theorem loop {guard : σ → Parser (β ⊕ γ)} {body : σ → γ → Parser σ}
    (hguard : ∀ a s, (guard a).Runs R M s)
    (hbody : ∀ a s g t, (guard a).run s = (.inr g, t) → t ∈ R ∧ (body a g).Runs R M t.read)
    (atEnd : β) (a : σ) (s : ParseState) : (loop atEnd guard body a).Runs R M s := by
  change Moves R M s (loopFrom atEnd guard body a s).2
  fun_induction loopFrom atEnd guard body a s with
  | case1 a s b t h => exact (hguard a s).of_run h
  | case2 a s g t h _ => exact (hguard a s).of_run h
  | case3 a s g t h _ _ _ r ih =>
    obtain ⟨hread, hrun⟩ := hbody a s g t h
    exact ((hguard a s).of_run h).trans ((Moves.single (.read hread)).trans (hrun.trans ih))

theorem whileNext {guard : σ → Parser (Option γ)} {body : σ → γ → Parser σ}
    (hguard : ∀ a s, (guard a).Runs R M s)
    (hbody : ∀ a s g t, (guard a).run s = (some g, t) → t ∈ R ∧ (body a g).Runs R M t.read)
    (a : σ) (s : ParseState) : (whileNext guard body a).Runs R M s := by
  refine bind (loop (fun a s => bind (hguard a s) fun _ _ _ => pure _ _)
    (fun a s g t h => ?_) _ _ _) fun _ _ _ => pure _ _
  obtain ⟨found, u, hrun, hresult⟩ := run_of_bind h
  obtain ⟨hfound, rfl⟩ := Prod.mk.inj hresult
  cases found with
  | none => cases hfound
  | some g' => exact hbody a s g u (Sum.inr.inj hfound ▸ hrun)

end Runs

namespace Careful

theorem pure (a : α) : (pure a : Parser α).Careful M := fun s => .pure a s

theorem bind {p : Parser α} {f : α → Parser β} (hp : p.Careful M)
    (hf : ∀ a, (f a).Careful M) :
    (p >>= f).Careful M := fun s => .bind (hp s) fun a t _ => hf a t

theorem map {f : α → β} {p : Parser α} (hp : p.Careful M) : (f <$> p).Careful M :=
  bind hp fun _ => pure _

theorem ite {c : Prop} [Decidable c] {p q : Parser α} (hp : p.Careful M) (hq : q.Careful M) :
    (if c then p else q).Careful M := fun s => .ite (fun _ => hp s) fun _ => hq s

end Careful

/-! ## Looking ahead and reporting -/

theorem careful_ask (f : ParseState → α) : (ask f).Careful M := fun s => .refl s

theorem careful_modifyNesting (f : Nesting → Nesting) : (modifyNesting f).Careful M :=
  fun _ => .single (.nest _)

theorem careful_nested {p : Parser α} (hp : p.Careful M) : (nested p).Careful M :=
  .bind (careful_modifyNesting _) fun _ => .bind hp fun _ =>
    .bind (careful_modifyNesting _) fun _ => .pure _

theorem careful_nestedOr {tooDeep p : Parser α}
    (hdeep : (do reportLimit; tooDeep : Parser α).Careful M) (hp : p.Careful M) :
    (nestedOr tooDeep p).Careful M :=
  nestedOr_cases (P := fun s r => Moves careful M s r.2) (fun s _ => hdeep s)
    fun s _ => careful_nested hp s

theorem careful_peekAt (depth : Nat) : (peekAt depth).Careful M := fun _ => .single (.look depth)

theorem careful_peek : peek.Careful M := careful_peekAt 1

theorem careful_peekKind : peekKind.Careful M := .bind careful_peek fun _ => .pure _

theorem careful_nextIs (k : Kind) : (nextIs k).Careful M := .bind careful_peekKind fun _ => .pure _

theorem careful_secondIs (k : Kind) : (secondIs k).Careful M :=
  .bind (careful_peekAt 2) fun _ => .pure _

theorem careful_both {p q : Parser Bool} (hp : p.Careful M) (hq : q.Careful M) :
    (both p q).Careful M := .bind hp fun _ => .ite hq (.pure _)

theorem careful_nextBeforeName (k : Kind) : (nextBeforeName k).Careful M :=
  careful_both (careful_nextIs k) (.bind (careful_peekAt 2) fun _ => .pure _)

theorem careful_nextAre (k l : Kind) : (nextAre k l).Careful M :=
  careful_both (careful_nextIs k) (careful_secondIs l)

theorem careful_when {condition : Parser Bool} (h : condition.Careful M) :
    (when condition).Careful M := .bind h fun _ => .ite (.pure _) (.pure _)

theorem careful_last : last.Careful M := careful_ask _

theorem careful_lastStop : lastStop.Careful M := .bind careful_last fun _ => .pure _

theorem careful_nextStart : nextStart.Careful M := .bind careful_peek fun _ => .pure _

theorem careful_spanFrom (start : Nat) : (spanFrom start).Careful M :=
  .bind careful_lastStop fun _ => .pure _

theorem careful_report {m : Message} (hm : m ∈ M) (args : List String) (span : Span) :
    (report m args span).Careful M := fun _ => .single (.report args span hm)

theorem careful_reportNext {m : Message} (hm : m ∈ M) (args : List String) :
    (reportNext m args).Careful M := .bind careful_peek fun _ => careful_report hm args _

theorem careful_getNames : getNames.Careful M := careful_ask _

theorem careful_setNames (names : Names) : (setNames names).Careful M :=
  fun _ => .single (.rename names)

theorem careful_modifyNames (f : Names → Names) : (modifyNames f).Careful M :=
  .bind careful_getNames fun _ => careful_setNames _

/-! ## What a look ahead has found -/

theorem kindAt_of_peekKind (h : peekKind.run s = (k, t)) : t.kindAt 1 = k := by
  obtain ⟨rfl, rfl⟩ := Prod.mk.inj h
  rfl

theorem tokenAt_of_peekAt (h : (peekAt depth).run s = (a, t)) : t.input.tokenAt depth = a := by
  obtain ⟨rfl, rfl⟩ := Prod.mk.inj h
  rfl

theorem kindAt_of_nextIs (h : (nextIs k).run s = (true, t)) : t.kindAt 1 = k := by
  obtain ⟨hkind, rfl⟩ := Prod.mk.inj h
  exact eq_of_beq hkind

theorem kindAt_of_secondIs (h : (secondIs k).run s = (true, t)) : t.kindAt 2 = k := by
  obtain ⟨hkind, rfl⟩ := Prod.mk.inj h
  exact eq_of_beq hkind

theorem run_of_both {p q : Parser Bool} (h : (both p q).run s = (true, t)) :
    ∃ u, p.run s = (true, u) ∧ q.run u = (true, t) := by
  obtain ⟨found, u, hp, hq⟩ := run_of_bind h
  cases found with
  | true => exact ⟨u, hp, hq⟩
  | false => cases hq

theorem run_of_when {condition : Parser Bool} (h : (when condition).run s = (some u, t)) :
    condition.run s = (true, t) := by
  obtain ⟨found, v, hcondition, hresult⟩ := run_of_bind h
  cases found with
  | true => exact (Prod.mk.inj hresult).2 ▸ hcondition
  | false => cases hresult

theorem kindAt_of_nextAre (h : (nextAre k l).run s = (true, t)) :
    t.kindAt 1 = k ∧ t.kindAt 2 = l := by
  obtain ⟨u, hfirst, hsecond⟩ := run_of_both h
  have hlook : Looks u t := (peeks_secondIs l).of_run hsecond
  exact ⟨(hlook.kindAt 1).trans (kindAt_of_nextIs hfirst), kindAt_of_secondIs hsecond⟩

theorem kindAt_of_nextBeforeName (h : (nextBeforeName k).run s = (true, t)) :
    t.kindAt 1 = k ∧ (t.kindAt 2).canBeName = true := by
  obtain ⟨u, hfirst, hsecond⟩ := run_of_both h
  obtain ⟨hname, rfl⟩ := Prod.mk.inj hsecond
  have hlook : Looks u ((peekAt 2).run u).2 := peeks_peekAt 2 u
  exact ⟨(hlook.kindAt 1).trans (kindAt_of_nextIs hfirst), hname⟩

/-- Neither END nor the end of the text is a name. -/
theorem ne_of_canBeName {k : Kind} (h : k.canBeName = true) :
    k ≠ .keyword .END ∧ k ≠ .endOfFile := by
  constructor <;>
  · rintro rfl
    cases h

/-! ## Tokens that may or must follow -/

theorem careful_optional (k : Kind) (hk : k ≠ .keyword .END) :
    (optional k).Careful M := by
  refine fun s => .bind (careful_nextIs k s) fun found t hrun => .ite (fun hfound => ?_) fun _ =>
    .pure _ _
  rw [hfound] at hrun
  exact .bind (.next (careful_of_eq (kindAt_of_nextIs hrun) hk)) fun _ _ _ => .pure _ _

theorem careful_name? : name?.Careful M := by
  refine fun s => .bind (careful_peek s) fun a t hrun => .ite (fun hname => ?_) fun _ => .pure _ _
  rw [← tokenAt_of_peekAt hrun] at hname
  exact .bind (.next (careful_of_ne (ne_of_canBeName hname).1)) fun _ _ _ => .pure _ _

theorem commaFollows_found (h : (commaFollows a).run s = (some g, t)) :
    t.kindAt 1 = .mark .comma := by
  unfold commaFollows at h
  split at h
  · exact kindAt_of_nextIs (run_of_when h)
  · cases h

section

variable {item : Parser (Option α)}

/-- A list is read as its items are. -/
theorem runs_commaTail (hR : careful ⊆ R) (h : ∀ s, item.Runs R M s) (as : List α)
    (s : ParseState) : (commaTail item as).Runs R M s := by
  have hguard (a : List α × Bool) : (commaFollows a).Careful M :=
    .ite (careful_when (careful_nextIs _)) (.pure _)
  unfold commaTail
  refine .bind (.whileNext (fun a s => (hguard a s).mono hR) (fun a s g t hfound => ?_) _ s)
    fun _ _ _ => .pure _ _
  have hread := careful_of_eq (commaFollows_found hfound) (by decide)
  refine ⟨hR hread, .bind (h _) fun item _ _ => ?_⟩
  cases item <;> exact .pure _ _

theorem runs_commaList (hR : careful ⊆ R) (h : ∀ s, item.Runs R M s) (s : ParseState) :
    (commaList item).Runs R M s := by
  unfold commaList
  refine .bind (h s) fun item t _ => ?_
  cases item with
  | none => exact .pure _ _
  | some a => exact runs_commaTail hR h _ t

theorem careful_commaTail (h : item.Careful M) (as : List α) : (commaTail item as).Careful M :=
  runs_commaTail .rfl h as

theorem careful_commaList (h : item.Careful M) : (commaList item).Careful M :=
  runs_commaList .rfl h

end

section

variable {M : Set Message} (hM : phraseMessages ⊆ M)
include hM

/-- Reaching the limit is reported before it is noted. -/
theorem careful_reportLimit : reportLimit.Careful M := by
  unfold reportLimit
  refine fun s => .bind (careful_ask _ s) fun reported t hasked => ?_
  obtain ⟨hreported, rfl⟩ := Prod.mk.inj hasked
  have hnote {p : Parser Unit} (hp : p.run = fun s => ((), { s with limitReported := true }))
      {u : ParseState} (hu : u.limitReported = true ∨ u.LimitTold) : p.Runs careful M u := by
    unfold Runs
    rw [hp]
    exact .single (.limit hu)
  split
  next h => exact hnote rfl (.inl (hreported.trans h))
  next =>
    refine .bind (careful_reportNext (hM (by simp [phraseMessages])) _ s) fun _ u hrun => ?_
    obtain ⟨-, rfl⟩ := Prod.mk.inj hrun
    exact hnote rfl (.inr ⟨_, List.mem_cons_self .., rfl⟩)

theorem reportsOnly_reportLimit : reportLimit.ReportsOnly M :=
  fun s => Moves.steps (careful_reportLimit hM s)

omit hM in
theorem limitReported_reportLimit (s : ParseState) :
    (reportLimit.run s).2.limitReported = true := by
  unfold reportLimit
  rw [run_bind]
  split <;> rfl

theorem careful_expect (k : Kind) (hk : k ≠ .keyword .END) : (expect k).Careful M :=
  .bind (careful_optional k hk) fun _ => .ite (.pure _)
    (.bind (careful_reportNext (hM (by simp [phraseMessages])) _) fun _ => .pure _)

theorem careful_expectName : expectName.Careful M := by
  unfold expectName
  refine .bind careful_name? fun name => ?_
  cases name with
  | some name => exact .pure _
  | none => exact .bind (careful_reportNext (hM (by simp [phraseMessages])) _) fun _ => .pure _

theorem careful_expectNameText : expectNameText.Careful M :=
  .bind (careful_expectName hM) fun _ => .pure _

end

/-! ## What follows moves -/

/-- The run from the state makes moves and then is the run of another parser, as `K` says of that
parser and the state from where it runs. -/
def Leads (R : Set ParseState) (M : Set Message)
    (K : Parser α → ParseState → Prop) (p : Parser α)
    (s : ParseState) : Prop := ∃ t q, Moves R M s t ∧ K q t ∧ p.run s = q.run t

namespace Leads

theorem here {p : Parser α} (h : K p s) : p.Leads R M K s := ⟨s, p, .refl s, h, rfl⟩

theorem bind {p : Parser α} {f : α → Parser β} (hp : p.Runs R M s)
    (hf : ∀ a t, p.run s = (a, t) → (f a).Leads R M K t) : (p >>= f).Leads R M K s := by
  obtain ⟨t, q, hmoves, hq, hrun⟩ := hf _ _ rfl
  exact ⟨t, q, hp.trans hmoves, hq, hrun⟩

theorem after {p : Parser α} {f : α → Parser β} (hp : p.Careful M)
    (hf : ∀ a t, (f a).Leads careful M K t) : (p >>= f).Leads careful M K s :=
  bind (hp s) fun a t _ => hf a t

end Leads

end Parser

end FourGL
