import FourGL.Proofs.Grammar.Account
import FourGL.Proofs.Grammar.MirroredStatements
import FourGL.Proofs.Grammar.Versions

/-!
# Bodies in a larger text

A body that is read without an error is read from the larger text as well. It stops there at the
same place and for the same reason; only where the text by itself ends, the END of the function
stops all bodies in it. That is the one word behind END that closes a block around the text.
-/

namespace FourGL

open FourGL.Parser FourGL.ParseState

variable {k : Nat} {b : Bool}

/-! ## Contexts -/

namespace Context.Standalone

variable {c : Context} (h : c.Standalone)
include h

theorem withEnd (w : Keyword) : (c.withEnd (.keyword w)).Standalone :=
  { h with ends := by simpa [Context.withEnd] using h.ends }

theorem insideLoop (w : Keyword) : (c.insideLoop w).Standalone :=
  { h with ends := by simpa [Context.insideLoop, Context.withExit, Context.withEnd] using h.ends }

theorem withStops {ws : List Kind} (hws : ws ⊆ stopWords.map .keyword) :
    (c.withStops ws).Standalone :=
  { h with stops := List.append_subset.mpr ⟨hws, h.stops⟩ }

theorem insideMenu : c.insideMenu.Standalone :=
  { withStops (h.insideLoop .MENU) (show menuWords ⊆ stopWords.map .keyword by decide) with
    extra := List.append_subset.mpr ⟨h.extra, List.Subset.refl _⟩ }

/-- A body stops neither at the end of the text nor at an END as at one of its words. -/
theorem notMem_stops : .endOfFile ∉ c.stops ∧ .keyword .END ∉ c.stops :=
  ⟨fun hmem => by simpa using h.stops hmem, fun hmem => absurd (h.stops hmem) (by decide)⟩

omit h in
theorem snippet (version : Version) : (Context.snippet version).Standalone where
  vars_eq := rfl
  returns_eq := rfl
  cursors_eq := rfl
  ends := nofun
  stops := nofun
  extra := nofun

end Context.Standalone

namespace Context

theorem notMem_stops_enclosed {c : Context} (h : c.Standalone) :
    .endOfFile ∉ c.enclosed.stops ∧ .keyword .END ∉ c.enclosed.stops := by
  have hroutine : Kind.endOfFile ∉ routineStops ∧
      Kind.keyword .END ∉ routineStops := by decide
  simp only [enclosed, List.mem_append, not_or]
  exact ⟨⟨h.notMem_stops.1, hroutine.1⟩, h.notMem_stops.2, hroutine.2⟩

end Context

/-! ## Stopping -/

/-- Why a body stops in the larger text that stops in the text by itself for some reason. -/
def Stop.enclosed : Stop → Stop
  | .endOfFile => .ancestorEnd
  | stop => stop

/-- How many tokens are sure to come where a body has stopped. -/
def Stop.ahead : Stop → Nat
  | .terminator => 2
  | .stopToken _ => 1
  | _ => 0

/-- The word can close a block in the text. -/
def Context.Closing (word : Option Kind) : Prop :=
  word ≠ some .endOfFile ∧ word ≠ some (.keyword .FUNCTION)

namespace Parser

theorem Stops.unique {ctx : Context} {word : Option Kind}
    (hstops : .endOfFile ∉ ctx.stops ∧ .keyword .END ∉ ctx.stops) (h : Stops ctx word s stop)
    (h' : Stops ctx word s stop') : stop' = stop := by
  cases h <;> cases h' <;> simp_all

theorem Stops.not_passes {ctx : Context} {word : Option Kind} (h : Stops ctx word s stop)
    (hpass : Passes ctx word s) : s.kindAt 1 ∈ ctx.stops := by
  cases h with
  | endOfFile hend => exact absurd hend hpass.ne_endOfFile
  | terminator hend hword => exact absurd hword (hpass.ne_terminator hend)
  | ancestorEnd hend _ hmem => exact absurd hmem (hpass.notMem_ends hend)
  | stopToken hmem => exact hmem

/-- Why a body stops decides that it does. -/
theorem Stops.run_bodyGuard {ctx : Context} {region : Region}
    (hstops : .endOfFile ∉ ctx.stops ∧ .keyword .END ∉ ctx.stops)
    (h : Stops ctx region.terminator s stop) (atLimit : Bool) :
    ∃ t, Looks s t ∧ (bodyGuard atLimit ctx region).run s = (.inl stop, t) := by
  obtain ⟨stop', t, hrun, hlook, hstop⟩ | ⟨choice, t, hchoice, -⟩ :=
    bodyGuard_cases atLimit ctx region s
  · exact ⟨t, hlook, h.unique hstops hstop ▸ hrun⟩
  · exact absurd (h.not_passes hchoice.passes) hchoice.notMem_stops

theorem Stops.ahead_lt {ctx : Context} {word : Option Kind} (h : Stops ctx word s stop)
    (hstops : .endOfFile ∉ ctx.stops) (hword : word ≠ some .endOfFile)
    (hmirrored : Mirrored k b s u) : stop.ahead < s.left := by
  cases h with
  | endOfFile | ancestorEnd => exact hmirrored.left_pos
  | terminator _ hsecond =>
    exact hmirrored.lt_left_of_second fun hend => hword (hsecond.trans (congrArg some hend))
  | stopToken hmem => exact hmirrored.lt_left fun hend => hstops (hend ▸ hmem)

/-- A block in the text stops in the larger text where it stops in the text by itself. -/
theorem Stops.enclosed {c : Context} {word : Option Kind} (hc : c.Standalone)
    (hword : Context.Closing word) (hmirrored : Mirrored k b s u) (h : Stops c word s stop) :
    Stops c.enclosed word u stop.enclosed := by
  have hends {kind : Kind} (hmem : kind ∈ c.ends) : kind ∈ c.enclosed.ends :=
    List.mem_append_left _ hmem
  -- The tokens are the same, but at the end.
  have hsame (hkind : s.kindAt 1 = .keyword .END) (hsecond : s.kindAt 2 ≠ .endOfFile) :
      u.kindAt 1 = .keyword .END ∧ u.kindAt 2 = s.kindAt 2 := by
    obtain ⟨hlt, -, hmoved, -⟩ | ⟨-, hend, -⟩ := hmirrored.next_token
    · obtain ⟨-, -, hmoved', -⟩ | ⟨-, hend, -⟩ := hmirrored.second_token hlt
      · exact ⟨hmoved.kind_eq.trans hkind, hmoved'.kind_eq⟩
      · exact absurd hend hsecond
    · rw [hkind] at hend
      cases hend
  cases h with
  | endOfFile hend =>
    obtain ⟨-, hne, -⟩ | ⟨hleft, -, hkind, -⟩ := hmirrored.next_token
    · exact absurd hend hne
    · have hsecond := (hmirrored.second_kind_of_end hleft).2
      refine .ancestorEnd hkind ?_ (List.mem_append_right _ ?_)
      · rw [hsecond]
        exact hword.2
      · rw [hsecond]
        exact List.mem_singleton_self _
  | terminator hend hterm =>
    obtain ⟨hkind, hsecond⟩ := hsame hend fun h => hword.1 (hterm.trans (congrArg some h))
    exact .terminator hkind (hsecond ▸ hterm)
  | ancestorEnd hend hterm hmem =>
    obtain ⟨hkind, hsecond⟩ := hsame hend fun h => hc.ends (h ▸ hmem)
    exact .ancestorEnd hkind (hsecond ▸ hterm) (hsecond ▸ hends hmem)
  | stopToken hmem =>
    obtain ⟨-, -, hmoved, -⟩ | ⟨-, hend, -⟩ := hmirrored.next_token
    · have hkind : u.kindAt 1 = s.kindAt 1 := hmoved.kind_eq
      exact hkind ▸ .stopToken (hkind ▸ List.mem_append_left _ hmem)
    · exact absurd (hend ▸ hmem) hc.notMem_stops.1

/-! ## Choosing a statement -/

/-- Statements of a form can start with a word. -/
def StartsWith (f : Form) (word : Keyword) : Prop :=
  ∃ p ∈ Production.menuStatements ++ Production.statements, p.form = f ∧ word ∈ p.leading

/-- A statement of a form begins in the state. -/
structure Begins (f : Form) (word : Keyword) (s : ParseState) : Prop where
  kindAt_eq : s.kindAt 1 = .keyword word
  starts : StartsWith f word
  option : f = .menuControl → s.kindAt 2 = .keyword .OPTION

/-- No END comes where none comes in the text by itself. -/
theorem second_beq (hmirrored : Mirrored k b s u) (hleft : 1 < s.left) (hw : w ≠ .END) :
    (u.kindAt 2 == .keyword w) = (s.kindAt 2 == .keyword w) := by
  obtain ⟨-, -, hmoved, -⟩ | ⟨-, hkind, hkind', -⟩ := hmirrored.second_token hleft
  · rw [show u.kindAt 2 = s.kindAt 2 from hmoved.kind_eq]
  · rw [hkind, hkind', beq_false_of_ne fun h => hw (Kind.keyword.inj h).symm]
    rfl

/-- A form applies alike in states whose second tokens are alike. -/
theorem applies_congr (hsecond : ∀ w, w ≠ .END →
    (u.kindAt 2 == .keyword w) = (s.kindAt 2 == .keyword w))
    (f : Form) (first : Keyword) : ((applies f first).run u).1 = ((applies f first).run s).1 := by
  have hmodifiable : f.modifiable? ≠ some .END := by cases f <;> exact nofun
  unfold applies
  split
  · exact hsecond .OPTION (by decide)
  · split
    next w hw =>
      split
      · rfl
      · exact hsecond w fun h => hmodifiable (h ▸ hw)
    · rfl

/-- The same form is chosen, unless it would nest too deep. -/
theorem run_choose {ps : List Production}
    (hsecond : ∀ w, w ≠ .END → (u.kindAt 2 == .keyword w) = (s.kindAt 2 == .keyword w))
    (h : (choose version false first ps).run s = (.form f word, t)) (atLimit : Bool) :
    (word = first ∧ ∃ p ∈ ps, p.form = f ∧ first ∈ p.leading) ∧
      ((choose version atLimit first ps).run u).1 = if atLimit then .tooDeep else .form f word := by
  induction ps generalizing s u with
  | nil => cases h
  | cons p ps ih =>
    have hlater {s u : ParseState}
        (hsecond : ∀ w, w ≠ .END → (u.kindAt 2 == .keyword w) = (s.kindAt 2 == .keyword w))
        (h : (choose version false first ps).run s = (.form f word, t)) :
        (word = first ∧ ∃ q ∈ p :: ps, q.form = f ∧ first ∈ q.leading) ∧
          ((choose version atLimit first ps).run u).1 = if atLimit then .tooDeep
            else .form f word := by
      obtain ⟨⟨hword, q, hq, hform⟩, hrun⟩ := ih hsecond h
      exact ⟨⟨hword, q, List.mem_cons_of_mem p hq, hform⟩, hrun⟩
    unfold choose at h ⊢
    split at h
    next hstarts =>
      rw [if_pos hstarts]
      exact hlater hsecond h
    next hstarts =>
      rw [if_neg hstarts]
      split at h
      next hlacks =>
        rw [if_pos hlacks]
        split at h
        · cases h
        next hown =>
          rw [if_neg hown]
          exact hlater hsecond h
      next havailable =>
        rw [if_neg havailable]
        rw [if_neg Bool.false_ne_true] at h
        obtain ⟨found, v, happlies, h⟩ := run_of_bind h
        have hlook : Looks s v := (peeks_applies p.form first).of_run happlies
        have hlook' : Looks u ((applies p.form first).run u).2 := peeks_applies p.form first u
        have happlies' : ((applies p.form first).run u).1 = found := by
          rw [applies_congr hsecond, happlies]
        have hsecond' (w : Keyword) (hw : w ≠ .END) :
            (((applies p.form first).run u).2.kindAt 2 == .keyword w) =
            (v.kindAt 2 == .keyword w) := by
          rw [hlook.kindAt, hlook'.kindAt]
          exact hsecond w hw
        cases found with
        | true =>
          cases h
          refine ⟨⟨rfl, p, List.mem_cons_self .., rfl, ?_⟩, ?_⟩
          · simpa [Production.startsWith] using hstarts
          · cases atLimit with
            | true => rfl
            | false => rw [if_neg Bool.false_ne_true, run_bind, happlies']; rfl
        | false =>
          obtain ⟨hmem, hrun⟩ := hlater hsecond' h
          refine ⟨hmem, ?_⟩
          cases atLimit with
          | true => rfl
          | false =>
            rw [if_neg Bool.false_ne_true, run_bind, happlies']
            exact hrun

/-- Which form was chosen for the next word. -/
theorem Chooses.choose_run {ctx : Context} {region : Region}
    (h : Chooses atLimit ctx region s choice t) (hkind : s.kindAt 1 = .keyword first) :
    ∃ s' t', Looks s s' ∧
      (choose ctx.version atLimit first (ctx.extra ++ region.productions)).run s' =
      (choice, t') := by
  obtain ⟨s₁, t₁, hlook, hrun, -⟩ := h.chosen
  obtain ⟨kind, u, hpeek, hrun⟩ := run_of_bind hrun
  have hlook' := hlook.trans (peeks_peekKind.of_run hpeek)
  have hfirst : kind = .keyword first := by
    rw [← kindAt_of_peekKind hpeek, hlook'.kindAt, hkind]
  rw [hfirst] at hrun
  exact ⟨u, t₁, hlook', hrun⟩

theorem Chooses.begins {c : Context} {region : Region} (hc : c.Standalone)
    (hregion : region.productions = Production.statements)
    (h : Chooses false c region s (.form f word) t) : Begins f word s := by
  obtain ⟨s₁, t₁, hlook, hrun, -⟩ := h.chosen
  obtain ⟨kind, v, hpeek, hrun⟩ := run_of_bind hrun
  have hkind : s.kindAt 1 = kind := (hlook.kindAt 1).symm.trans
    (((peeks_peekKind.of_run hpeek).kindAt 1).symm.trans (kindAt_of_peekKind hpeek))
  split at hrun
  next first =>
    obtain ⟨⟨rfl, p, hp, hform⟩, -⟩ := run_choose (fun _ _ => rfl) hrun false
    refine ⟨hkind, ⟨p, ?_, hform⟩, fun hf => ?_⟩
    · rw [hregion] at hp
      exact List.mem_append.mpr ((List.mem_append.mp hp).imp_left fun hp => hc.extra hp)
    · rw [← h.looks.kindAt, ← kindAt_read t 0]
      exact h.fits.2 hf
  · cases hrun

/-- No statement starts with an END or with a word at which the body of a function stops. -/
theorem StartsWith.notMem (h : StartsWith f word) :
    word ≠ .END ∧ word ≠ .PUBLIC ∧ word ≠ .PRIVATE ∧
    .keyword word ∉ Context.routineStops := by
  obtain ⟨p, hp, -, hword⟩ := h
  have hwords : ∀ p ∈ Production.menuStatements ++ Production.statements,
    ∀ word ∈ p.leading,
      word ≠ .END ∧ word ≠ .PUBLIC ∧ word ≠ .PRIVATE ∧
      .keyword word ∉ Context.routineStops := by
    decide
  exact hwords p hp word hword

/-- Nor is a member of modules a statement. -/
theorem StartsWith.form_notMem (h : StartsWith f word) :
    f ∉ [.importModule, .database, .globals, .main, .function] := by
  obtain ⟨p, hp, rfl, -⟩ := h
  have hforms : ∀ p ∈ Production.menuStatements ++ Production.statements,
      p.form ∉ [.importModule, .database, .globals, .main, .function] := by decide
  exact hforms p hp

/-- Where a body goes on with a statement it does so in the larger text, unless that would nest too
deep. -/
theorem bodyGuard_goesOn {c : Context} {region region' : Region} (hc : c.Standalone)
    (hregion : region.productions = Production.statements)
    (hregion' : region'.productions = Production.statements) (hmirrored : Mirrored k b s u)
    (hrun : (bodyGuard false c region).run s = (.inr (.form f word, errors), t))
    (hlimit : ((bodyGuard atLimit c.enclosed region').run u).2.limitReported = false) :
    Begins f word s ∧ errors = 0 ∧ atLimit = false ∧
      ∃ v, Looks u v ∧ (bodyGuard atLimit c.enclosed region').run u =
        (.inr (.form f word, 0), v) := by
  obtain ⟨rfl, t', hchoice, -⟩ := chooses_of_bodyGuard hrun
  have hbegins := hchoice.begins hc hregion
  obtain ⟨s₁, t₁, hlook, hchoose⟩ := hchoice.choose_run hbegins.kindAt_eq
  obtain ⟨hlt, -, hmoved, -⟩ | ⟨-, hend, -⟩ := hmirrored.next_token
  · have hkind : u.kindAt 1 = .keyword word := hmoved.kind_eq.trans hbegins.kindAt_eq
    refine ⟨hbegins, hmirrored.errors_eq, ?_⟩
    obtain ⟨stop, v, -, -, hstop⟩ | ⟨choice, v, hchoice', hguard'⟩ :=
      bodyGuard_cases atLimit c.enclosed region' u
    · -- The word is none at which the body stops.
      obtain ⟨hend, -, -, hroutine⟩ := hbegins.starts.notMem
      cases hstop with
      | endOfFile h | terminator h | ancestorEnd h => rw [hkind] at h; simp_all
      | stopToken hmem =>
        obtain hmem | hmem := List.mem_append.mp hmem
        · exact absurd (hbegins.kindAt_eq ▸ hkind ▸ hmem) hchoice.notMem_stops
        · exact absurd (hkind ▸ hmem) hroutine
    · obtain ⟨u₁, v₁, hlook', hchoose'⟩ := hchoice'.choose_run hkind
      have hsecond (w : Keyword) (hw : w ≠ .END) :
          (u₁.kindAt 2 == .keyword w) = (s₁.kindAt 2 == .keyword w) := by
        rw [hlook.kindAt, hlook'.kindAt]
        exact second_beq hmirrored hlt hw
      rw [hregion] at hchoose
      rw [hregion'] at hchoose'
      have hchosen : choice = if atLimit then .tooDeep else .form f word :=
        (congrArg Prod.fst hchoose').symm.trans (run_choose hsecond hchoose atLimit).2
      cases atLimit with
      | true =>
        rw [hchosen] at hguard'
        obtain ⟨-, hguard'⟩ | ⟨hdeep, -⟩ := hguard'
        · rw [hguard', limitReported_reportLimit] at hlimit
          cases hlimit
        · exact absurd rfl hdeep
      | false =>
        rw [hchosen, hmirrored.errors_eq'] at hguard'
        obtain ⟨hdeep, -⟩ | ⟨-, hguard'⟩ := hguard'
        · cases hdeep
        · exact ⟨rfl, v, hchoice'.looks, hguard'⟩
  · rw [hbegins.kindAt_eq] at hend
    cases hend

theorem nestingGuard_goesOn {c : Context} {region region' : Region} (hc : c.Standalone)
    (hregion : region.productions = Production.statements)
    (hregion' : region'.productions = Production.statements) (hmirrored : Mirrored k b s u)
    (hrun : (nestingGuard bottom c region).run s = (.inr (.form f word, errors), t))
    (hlimit : ((nestingGuard bottom' c.enclosed region').run u).2.limitReported = false) :
    Begins f word s ∧ errors = 0 ∧ bottom' = false ∧
      ∃ v, Looks u v ∧
        (nestingGuard bottom' c.enclosed region').run u = (.inr (.form f word, 0), v) := by
  rw [run_nestingGuard] at hrun hlimit ⊢
  obtain ⟨-, _, hchoice, -⟩ := chooses_of_bodyGuard hrun
  rw [hchoice.atLimit_eq_false] at hrun
  obtain ⟨hbegins, herrors, hlevels, hguard⟩ :=
    bodyGuard_goesOn hc hregion hregion' hmirrored hrun hlimit
  exact ⟨hbegins, herrors, (Bool.or_eq_false_iff.mp hlevels).2, hguard⟩

/-! ## Bodies -/

def Progress.shift (k : Nat) (p : Progress) :
    Progress := { p with nodes := p.nodes.map (·.shift k) }

/-- How many tokens are sure to come behind the first word of a form. -/
def formAhead (f : Form) : Nat := if f = .menuControl then 1 else 0

theorem Begins.formAhead_lt (h : Begins f word s) (hmirrored : Mirrored k b s u) :
    formAhead f + 1 < s.left := by
  unfold formAhead
  split
  next hf => exact hmirrored.lt_left_of_second (h.option hf ▸ Kind.noConfusion)
  next => exact hmirrored.lt_left (h.kindAt_eq ▸ Kind.noConfusion)

theorem mirrors_bodyStep {parse parse' : FormParser} {c : Context} {region region' : Region}
    (hflows : ∀ f word c o, (parse f word c o).Flows)
    (hflows' : ∀ f word c o, (parse' f word c o).Flows)
    (hstatement : ∀ o o', o.Moved k o' →
      Mirrors k true n (·.shift k) (parse f word c o) (parse' f word c.enclosed o'))
    (p : Progress) :
    Mirrors k true n (·.shift k) (bodyStep (some parse) c region p (.form f word, 0))
      (bodyStep (some parse') c.enclosed region' (p.shift k) (.form f word, 0)) := by
  refine .last fun t u hmoved =>
    .bind (σ := Node.shift k)
      (.nested (.bind (hstatement _ _ ⟨hmoved, rfl, rfl⟩) fun node =>
        .past (mirrors_checkJump c node) fun _ => .pure rfl))
      fun node => .pure ?_
  rw [Progress.shift, Progress.shift, Node.insert_shift]

/-- Bodies mirror each other whose statements do. -/
theorem mirrors_bodyWith {statement statement' : Option FormParser} {c : Context}
    {region region' : Region}
    {ψ : Stop → Stop} (hc : c.Standalone) (hregion : region.productions = Production.statements)
    (hregion' : region'.productions = Production.statements)
    (hseverity : region.unexpected.severity = .error)
    (hflows : ∀ parse ∈ statement, ∀ f word c o, (parse f word c o).Flows)
    (hflows' : ∀ parse ∈ statement', ∀ f word c o, (parse f word c o).Flows)
    (hstops : ∀ {s u stop}, Mirrored k b s u → Stops c region.terminator s stop →
      Stops c.enclosed region'.terminator u (ψ stop))
    (hstatement : ∀ parse ∈ statement, ∀ parse' ∈ statement', ∀ f word,
      StartsWith f word → ∀ o o', o.Moved k o' →
        Mirrors k true (formAhead f) (·.shift k) (parse f word c o)
          (parse' f word c.enclosed o')) :
    Mirrors k b 0 (Prod.map (List.map (·.shift k)) ψ) (bodyWith statement c region)
      (bodyWith statement' c.enclosed region') := by
  have := flows_bodyStep hflows c region
  have := flows_bodyStep hflows' c.enclosed region'
  intro s u r t' hmirrored _ hclean hlimit
  obtain ⟨⟨p, stop⟩, t, hrun, hresult⟩ := run_of_bind hclean.run_eq
  obtain ⟨rfl, rfl⟩ := Prod.mk.inj hresult
  suffices hloop :
      ((loop .endOfFile (fun _ => nestingGuard statement'.isNone c.enclosed region')
        (bodyStep statement' c.enclosed region') (Progress.shift k {})).run u).1 =
          Prod.map (Progress.shift k) ψ (p, stop) ∧
        Mirrored k b t
          ((loop .endOfFile (fun _ => nestingGuard statement'.isNone c.enclosed region')
            (bodyStep statement' c.enclosed region') (Progress.shift k {})).run u).2 from
    ⟨congrArg (fun r : Progress × Stop => (r.1.nodes, r.2)) hloop.1, hloop.2⟩
  refine mirrored_loop (I := fun p => p.skipping = false) (P := fun _ => True)
    (fun _ => later_nestingGuard _ _ _) (fun _ => later_nestingGuard _ _ _)
    (fun hguard => rest_ne_nil (kindAt_of_nestingGuard hguard))
    (fun {p s u stop t} _ _ hmirrored hclean _ => ?_)
    (fun {p s u step t q v} hskipping hmirrored hclean hread hbody hlimit => ?_) rfl hmirrored
    ⟨hrun, hclean.errors_eq⟩ trivial hlimit
  · obtain ⟨hlook, hstop⟩ := stops_of_bodyGuard hclean.run_eq
    obtain ⟨v, hlook', hguard'⟩ := (hstops hmirrored hstop).run_bodyGuard
      (Context.notMem_stops_enclosed hc) (u.nesting.isFull || statement'.isNone)
    rw [run_nestingGuard, hguard']
    exact ⟨rfl, hmirrored.looks hlook hlook'⟩
  · obtain ⟨choice, errors⟩ := step
    have herrors : v.errorCount = s.errorCount := by rw [hbody.errors_eq, hread, hclean.errors_eq]
    obtain ⟨hlook, parse, f, word, rfl, rfl⟩ :=
      form_of_round hmirrored.limit_eq hseverity hskipping hclean.run_eq hbody.run_eq herrors
    obtain ⟨hbegins, rfl, hlevels, v', hlook', hguard'⟩ :=
      nestingGuard_goesOn hc hregion hregion' hmirrored hclean.run_eq hlimit
    cases statement' with
    | none => cases hlevels
    | some parse' =>
      have hmirrored' := hmirrored.looks hlook hlook'
      have hleft : t.left = s.left := congrArg List.length hlook.rest
      have hahead := hbegins.formAhead_lt hmirrored
      refine ⟨(Prod.mk.inj hbody.run_eq).1 ▸ rfl, _, v', hguard',
        rest_ne_nil hmirrored'.kind_ne_endOfFile, fun hlimit' => ?_⟩
      exact mirrors_bodyStep (hflows _ rfl) (hflows' _ rfl)
        (hstatement _ rfl _ rfl f word hbegins.starts) p
        (hmirrored'.read (by omega) hread) (by rw [left_read]; omega) hbody hlimit'

/-! ## Lists of clauses -/

/-- Whether a clause starts is decided by the next two tokens, and the end of the text starts none.
Behind the first of them the clause reads as many as `ahead` says. -/
structure Opens (starts : Parser Bool) (opens : Kind → Kind → Bool)
    (ahead : Kind → Nat) : Prop where
  peeks : starts.Peeks
  run_eq : ∀ s, (starts.run s).1 = opens (s.kindAt 1) (s.kindAt 2)
  not_end : ∀ second, opens .endOfFile second = false ∧ opens (.keyword .END) second = false
  second_end : ∀ first, opens first (.keyword .END) = opens first .endOfFile
  ahead : ∀ first, ahead first = 0 ∨ ahead first = 1 ∧ opens first .endOfFile = false

namespace Opens

variable {starts : Parser Bool} {opens : Kind → Kind → Bool} {ahead : Kind → Nat}
  (h : Opens starts opens ahead)
include h

theorem opens_eq (hmirrored : Mirrored k b s u) :
    opens (u.kindAt 1) (u.kindAt 2) = opens (s.kindAt 1) (s.kindAt 2) := by
  obtain ⟨hlt, -, hmoved, -⟩ | ⟨-, hkind, hkind', -⟩ := hmirrored.next_token
  · rw [show u.kindAt 1 = s.kindAt 1 from hmoved.kind_eq]
    obtain ⟨-, -, hmoved', -⟩ | ⟨-, hkind, hkind', -⟩ := hmirrored.second_token hlt
    · rw [show u.kindAt 2 = s.kindAt 2 from hmoved'.kind_eq]
    · rw [hkind, hkind', h.second_end]
  · rw [hkind, hkind', (h.not_end _).1, (h.not_end _).2]

theorem ne_end (hopens : opens first second = true) :
    first ≠ .endOfFile ∧ first ≠ .keyword .END := by
  constructor <;> rintro rfl
  · exact Bool.false_ne_true ((h.not_end second).1.symm.trans hopens)
  · exact Bool.false_ne_true ((h.not_end second).2.symm.trans hopens)

theorem ahead_lt (hopens : opens (s.kindAt 1) (s.kindAt 2) = true) (hmirrored : Mirrored k b s u) :
    ahead (s.kindAt 1) + 1 < s.left := by
  obtain hzero | ⟨hone, hend⟩ := h.ahead (s.kindAt 1)
  · rw [hzero]
    exact hmirrored.lt_left (h.ne_end hopens).1
  · rw [hone]
    refine hmirrored.lt_left_of_second fun hsecond => ?_
    rw [hsecond, hend] at hopens
    cases hopens

/-- Where a clause starts, the guard goes on with it. -/
theorem run_clauseGuard {c : Context}
    (hopens : opens (s.kindAt 1) (s.kindAt 2) = true) (word : Kind) :
    ∃ t, Looks s t ∧ (clauseGuard c word starts).run s = (.inr (true, s.errorCount), t) := by
  have hpeek : Looks s (peekKind.run s).2 := peeks_peekKind s
  have hnone : (stopAtEnd? c (some word)).run s = (none, (peekKind.run s).2) := by
    unfold stopAtEnd?
    rw [run_bind, show (peekKind.run s).1 = s.kindAt 1 from rfl]
    split
    next hend => exact absurd hend (h.ne_end hopens).1
    next hend => exact absurd hend (h.ne_end hopens).2
    next => rfl
  have herrors : errorCount.run (peekKind.run s).2 = (s.errorCount, (peekKind.run s).2) :=
    Prod.ext hpeek.errorCount rfl
  have hstarts : (starts.run (peekKind.run s).2).1 = true := by
    rw [h.run_eq, hpeek.kindAt, hpeek.kindAt, hopens]
  refine ⟨_, hpeek.trans (h.peeks _), ?_⟩
  unfold clauseGuard
  rw [run_bind, hnone]
  dsimp only
  rw [run_bind, herrors, run_bind]
  dsimp only
  rw [hstarts]
  rfl

theorem opens_of_run (hlook : Looks s v) (hrun : starts.run v = (true, t)) :
    opens (s.kindAt 1) (s.kindAt 2) = true := by
  rw [← hlook.kindAt 1, ← hlook.kindAt 2, ← h.run_eq, hrun]

/-- A list of clauses stops in the larger text where it stops in the text by itself. -/
theorem run_clauseGuard_stop {c : Context} {word : Kind} (hc : c.Standalone)
    (hword : Context.Closing (some word)) (hmirrored : Mirrored k b s u)
    (hrun : (clauseGuard c word starts).run s = (.inl stop, t)) :
    ∃ v, Looks s t ∧ Looks u v ∧
      (clauseGuard c.enclosed word starts).run u = (.inl stop.enclosed, v) := by
  obtain ⟨hlook, hstop⟩ := stops_of_clauseGuard h.peeks hrun
  have henclosed := hstop.enclosed hc hword hmirrored
  have hstops := Context.notMem_stops_enclosed hc
  obtain ⟨stop', v, hguard, hlook', hstop'⟩ | ⟨u₁, _, -, hlook', hstarts, -⟩ |
    ⟨_, _, _, hpass, -, -, hmem, -⟩ := clauseGuard_cases h.peeks c.enclosed word u
  · rw [henclosed.unique hstops hstop'] at hguard
    exact ⟨v, hlook, hlook', hguard⟩
  · -- A clause that starts there would do so in the text by itself.
    have hopens := h.opens_eq hmirrored ▸ h.opens_of_run hlook' hstarts
    obtain ⟨_, -, hguard⟩ := h.run_clauseGuard (c := c) hopens word
    cases hrun.symm.trans hguard
  · exact absurd (henclosed.not_passes hpass) hmem

end Opens

instance {clause : List Node → Opening → Parser Node} [∀ ns o, (clause ns o).Flows] :
    (clauseStep clause p found).Flows := by
  unfold clauseStep
  infer_instance

/-- Lists of clauses mirror each other whose clauses do. -/
theorem mirrors_clauses {c : Context} {starts : Parser Bool} {opens : Kind → Kind → Bool}
    {ahead : Kind → Nat} {clause clause' : List Node → Opening → Parser Node} {word : Kind}
    [starts.Flows] [∀ ns o, (clause ns o).Flows] [∀ ns o, (clause' ns o).Flows]
    (hopens : Opens starts opens ahead) (hc : c.Standalone) (hword : Context.Closing (some word))
    (hclause : ∀ ns o o', o.Moved k o' →
      Mirrors k true (ahead o.token.kind) (·.shift k) (clause ns o)
        (clause' (ns.map (·.shift k)) o')) :
    Mirrors k b 0 (Prod.map (List.map (·.shift k)) Stop.enclosed) (clauses c word starts clause)
      (clauses c.enclosed word starts clause') := by
  refine .bind (σ := Prod.map (Progress.shift k) Stop.enclosed) ?_ fun _ => .pure rfl
  intro s u r t hmirrored _ hclean hlimit
  have hlater (c : Context) (s : ParseState) : Later s ((clauseGuard c word starts).run s).2 :=
    (Flows.flows inferInstance s).later
  refine mirrored_loop (I := fun p => p.skipping = false) (P := fun _ => True)
    (φ := Progress.shift k) (fun _ => hlater c) (fun _ => hlater c.enclosed)
    (fun hguard => rest_ne_nil (kindAt_of_clauseGuard hopens.peeks hguard))
    (fun {p s u stop t} _ _ hmirrored hclean _ => ?_)
    (fun {p s u step t q v} hskipping hmirrored hclean hread hbody hlimit => ?_) rfl hmirrored
    hclean trivial hlimit
  · obtain ⟨v, hlook, hlook', hguard⟩ :=
      hopens.run_clauseGuard_stop hc hword hmirrored hclean.run_eq
    rw [hguard]
    exact ⟨rfl, hmirrored.looks hlook hlook'⟩
  · obtain ⟨found, errors⟩ := step
    obtain ⟨rfl, -, hlook, s₁, t₁, hlook₁, hstarts, ⟨rfl, rfl⟩ | ⟨rfl, -⟩⟩ :=
      starts_of_clauseGuard hopens.peeks hclean.run_eq
    · have hfound := hopens.opens_of_run hlook₁ hstarts
      have hahead := hopens.ahead_lt hfound hmirrored
      obtain ⟨v', hlook', hguard'⟩ := hopens.run_clauseGuard (c := c.enclosed)
        ((hopens.opens_eq hmirrored).trans hfound) word
      have hmirrored' := hmirrored.looks hlook hlook'
      have hleft : t.left = s.left := congrArg List.length hlook.rest
      have hread' := hmirrored'.read (by omega) hread
      rw [hmirrored.errors_eq] at hbody
      rw [hmirrored.errors_eq'] at hguard'
      refine ⟨(Prod.mk.inj hbody.run_eq).1 ▸ rfl, _, v', hguard',
        rest_ne_nil hmirrored'.kind_ne_endOfFile, fun hlimit' => ?_⟩
      have hkind : t.read.input.last.kind = s.kindAt 1 := by
        rw [last_read]
        exact hlook.kindAt 1
      have hmoved : Opening.Moved k ⟨t.read.input.last, 0⟩ ⟨v'.read.input.last, 0⟩ :=
        ⟨hread'.last rfl, rfl, rfl⟩
      have hmirrors : Mirrors k true (ahead (s.kindAt 1)) (Progress.shift k)
          (do let n ← clause p.nodes ⟨t.read.input.last, 0⟩
              return { nodes := n.insert p.nodes, skipping := false })
          (do let n ← clause' (p.shift k).nodes ⟨v'.read.input.last, 0⟩
              return { nodes := n.insert (p.shift k).nodes, skipping := false }) := by
        rw [← hkind]
        refine .bind (hclause p.nodes _ _ hmoved) fun n => .pure ?_
        rw [Progress.shift, Progress.shift, Node.insert_shift]
      exact hmirrors hread' (by rw [left_read]; omega) ⟨hbody.run_eq, hbody.errors_eq⟩ hlimit'
    · obtain ⟨_, _, hskip, -⟩ := hbody.bind
      rw [hskipping] at hskip
      exact absurd hskip (not_clean_skipUnexpected rfl)

theorem stops_clauses {c : Context} {starts : Parser Bool}
    {clause : List Node → Opening → Parser Node} {word : Kind} (hstarts : starts.Peeks)
    (h : (clauses c word starts clause).run s = ((ns, stop), t)) : Stops c (some word) t stop := by
  obtain ⟨p, t', stop', u, -, hstop, hlook, hrun⟩ := clauses_run hstarts c word clause s
  obtain ⟨hresult, rfl⟩ := Prod.mk.inj (hrun.symm.trans h)
  obtain rfl : stop' = stop := (Prod.mk.inj hresult).2
  exact hstop.looks hlook

end Parser

end FourGL
