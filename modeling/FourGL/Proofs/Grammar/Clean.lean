import FourGL.Proofs.Grammar.Flow

/-!
# Clean runs

A run is clean if it adds no error. Errors are never taken back, so every part of a clean run is
clean (`Clean.bind`); what had to follow did follow, and the limit of nesting is not reached. A
`AllLeft` state is one where the limit was not reached before either, and in which the texts of all
tokens without errors are as `T` says; a clean run leads from fresh states to fresh ones.
-/

namespace FourGL

open FourGL.Parser FourGL.ParseState

namespace ParseState

/-- The limit of nesting has not been reached, and `T` holds of the kind and the text of each token
that is left and has no error. -/
structure AllLeft (T : Kind → String → Prop) (s : ParseState) : Prop where
  limitReported_eq : s.limitReported = false
  texts : ∀ l ∈ s.input.rest, Diagnostic.errorCount l.issues = 0 → T l.token.kind l.token.text

theorem TokensRead.rest_subset (h : TokensRead s ts t) : t.input.rest ⊆ s.input.rest := by
  induction h with
  | refl => exact List.Subset.refl _
  | look _ hlook ih => exact hlook.rest ▸ ih
  | read _ ih => exact fun l hl => ih (List.mem_of_mem_tail (rest_read_eq _ ▸ hl))
  | report _ _ _ _ ih => exact ih
  | limit _ _ ih => exact ih
  | rename _ _ ih => exact ih


/-- A run leads from one state to the other and adds no error. -/
structure ErrorFree (s t : ParseState) : Prop extends Flows s t where
  errors_eq : t.errorCount = s.errorCount

namespace ErrorFree

theorem trans (h₁ : ErrorFree s t) (h₂ : ErrorFree t u) : ErrorFree s u :=
  ⟨h₁.toFlows.trans h₂.toFlows, h₂.errors_eq.trans h₁.errors_eq⟩

/-- The parts of a run that adds no error add none. -/
theorem split (h₁ : Flows s t) (h₂ : Flows t u) (h : u.errorCount = s.errorCount) :
    ErrorFree s t ∧ ErrorFree t u := by
  have hle₁ := h₁.later.errorCount_le
  have hle₂ := h₂.later.errorCount_le
  exact ⟨⟨h₁, by omega⟩, h₂, by omega⟩

theorem limitReported_eq (h : ErrorFree s t) :
    t.limitReported = s.limitReported := h.limit_eq h.errors_eq

theorem allLeft (h : ErrorFree s t) (hs : AllLeft T s) : AllLeft T t where
  limitReported_eq := h.limitReported_eq.trans hs.limitReported_eq
  texts l hl := by
    obtain ⟨ts, htokensRead⟩ := h.later
    exact hs.texts l (htokensRead.rest_subset hl)

end ErrorFree

theorem Looks.errorFree (h : Looks s t) : ErrorFree s t := ⟨h.flows, h.errorCount⟩

/-- The next token is read, behind a look ahead, and has no error. -/
structure Takes (s t : ParseState) : Prop where
  read : ∃ u, Looks s u ∧ t = u.read
  errors_eq : t.errorCount = s.errorCount

namespace Takes

theorem errorFree (h : Takes s t) : ErrorFree s t := by
  obtain ⟨u, hlook, rfl⟩ := h.read
  exact ⟨hlook.flows.trans (.read u), h.errors_eq⟩

/-- The token that is read is as `T` says. -/
theorem token (h : Takes s t) (hs : AllLeft T s) (hkind : s.kindAt 1 ≠ .endOfFile) :
    T (s.kindAt 1) (s.input.tokenAt 1).text := by
  obtain ⟨u, hlook, rfl⟩ := h.read
  obtain ⟨l, ls, hrest⟩ := List.exists_cons_of_ne_nil (rest_ne_nil hkind)
  have htoken : s.input.tokenAt 1 = l.token := by simp [Lookahead.tokenAt, hrest]
  have herrors := h.errors_eq
  rw [← hlook.errorCount] at herrors
  rw [kindAt, htoken]
  refine hs.texts l (by simp [hrest]) ?_
  simp only [ParseState.errorCount, ParseState.read, Lookahead.advance, hlook.rest,
    hrest] at herrors
  omega

end Takes

end ParseState

namespace Parser

/-- The run leads from one state to the other with a result, and adds no error. -/
structure Clean (p : Parser α) (s : ParseState) (a : α) (t : ParseState) : Prop where
  run_eq : p.run s = (a, t)
  errors_eq : t.errorCount = s.errorCount

namespace Clean

theorem errorFree {p : Parser α} [hp : p.Flows] (h : p.Clean s a t) : ErrorFree s t :=
  ⟨hp.of_run h.run_eq, h.errors_eq⟩

/-- The parts of a clean run are clean. -/
theorem bind {p : Parser α} {f : α → Parser β} [p.Flows] [F : ∀ a, (f a).Flows]
    (h : (p >>= f).Clean s b u) : ∃ a t, p.Clean s a t ∧ (f a).Clean t b u := by
  obtain ⟨a, t, hfirst, hrest⟩ := run_of_bind h.run_eq
  obtain ⟨h₁, h₂⟩ := ErrorFree.split (Flows.of_run inferInstance hfirst)
    ((F a).of_run hrest) h.errors_eq
  exact ⟨a, t, ⟨hfirst, h₁.errors_eq⟩, hrest, h₂.errors_eq⟩

/-- A look ahead is clean, so the rest of a clean run behind it is. -/
theorem behind_look {p : Parser α} {f : α → Parser β} (h : (p >>= f).Clean s b u)
    (hp : p.Peeks) :
    ∃ a t, p.run s = (a, t) ∧ Looks s t ∧ (f a).Clean t b u := by
  obtain ⟨a, t, hlook, hrest⟩ := run_of_bind h.run_eq
  have hlooks := hp.of_run hlook
  exact ⟨a, t, hlook, hlooks, hrest, h.errors_eq.trans hlooks.errorCount.symm⟩

/-- Counting a level is no more than a look ahead. -/
theorem of_nested {p : Parser α} (h : (nested p).Clean s a t) :
    ∃ u v, Looks s u ∧ p.Clean u a v ∧ Looks v t := by
  let u : ParseState := { s with nesting := s.nesting.enter }
  obtain ⟨hresult, rfl⟩ := Prod.mk.inj h.run_eq
  exact ⟨u, (p.run u).2, looks_nesting s _, ⟨Prod.ext hresult rfl, h.errors_eq⟩,
    looks_nesting _ _⟩

/-- An expression that is read without an error is read one level deeper. -/
theorem of_operandAt (h : (operandAt levels least).Clean s e t) (hs : s.limitReported = false) :
    ∃ l, levels = l + 1 ∧ (nested (operandWith (operandAt l) least)).Clean s e t := by
  have hlimit : ((operandAt levels least).run s).2.limitReported = false := by
    rw [h.run_eq, h.errorFree.limitReported_eq, hs]
  obtain ⟨l, hlevels, hrun⟩ := run_operandAt_of_limitReported hlimit
  exact ⟨l, hlevels, hrun.symm.trans h.run_eq, h.errors_eq⟩

theorem of_pure (h : (pure a : Parser α).Clean s b t) : b = a ∧ t = s := by
  obtain ⟨rfl, rfl⟩ := Prod.mk.inj h.run_eq
  exact ⟨rfl, rfl⟩

/-- An error that is reported is added. -/
theorem not_report {m : Message} (hm : m.severity = .error) :
    ¬ (report m args span).Clean s a t := by
  intro h
  obtain ⟨-, rfl⟩ := Prod.mk.inj h.run_eq
  have herrors := h.errors_eq
  simp [ParseState.errorCount, Diagnostic.errorCount, Diagnostic.of,
    Diagnostic.isError, hm] at herrors

theorem not_reportNext {m : Message} (hm : m.severity = .error) :
    ¬ (reportNext m args).Clean s a t := by
  intro h
  obtain ⟨_, _, -, hreport⟩ := bind (p := peek) h
  exact not_report hm hreport

theorem not_missingExpression : ¬ missingExpression.Clean s a t := by
  intro h
  obtain ⟨_, _, hreport, -⟩ := bind h
  exact not_reportNext rfl hreport

/-! ## Tokens -/

theorem looks {p : Parser α} (h : p.Clean s a t) (hp : p.Peeks) : Looks s t := hp.of_run h.run_eq

theorem of_next (h : next.Clean s a t) : Takes s t ∧ a = s.input.tokenAt 1 := by
  obtain ⟨rfl, rfl⟩ := Prod.mk.inj h.run_eq
  exact ⟨⟨⟨s, .refl s, rfl⟩, h.errors_eq⟩, last_read s⟩

theorem of_peekAt (h : (peekAt depth).Clean s a t) : Looks s t ∧ a = s.input.tokenAt depth := by
  obtain ⟨rfl, rfl⟩ := Prod.mk.inj h.run_eq
  exact ⟨looks_inspect s depth, rfl⟩

theorem of_peekKind (h : peekKind.Clean s k t) : Looks s t ∧ k = s.kindAt 1 := by
  obtain ⟨rfl, rfl⟩ := Prod.mk.inj h.run_eq
  exact ⟨looks_inspect s 1, rfl⟩

theorem of_nextIs (h : (nextIs k).Clean s found t) : Looks s t ∧ found = (s.kindAt 1 == k) := by
  obtain ⟨rfl, rfl⟩ := Prod.mk.inj h.run_eq
  exact ⟨looks_inspect s 1, rfl⟩

theorem of_optional (h : (optional k).Clean s found t) :
    found = true ∧ s.kindAt 1 = k ∧ Takes s t ∨ found = false ∧
    s.kindAt 1 ≠ k ∧ Looks s t := by
  obtain ⟨found', u, hnext, h⟩ := h.bind
  obtain ⟨hlook, rfl⟩ := hnext.of_nextIs
  split at h
  next hkind =>
    obtain ⟨_, v, hread, h⟩ := h.bind
    obtain ⟨rfl, rfl⟩ := h.of_pure
    obtain ⟨w, hlook', rfl⟩ := hread.of_next.1.read
    exact .inl ⟨rfl, eq_of_beq hkind, ⟨w, hlook.trans hlook', rfl⟩,
      hread.errors_eq.trans hlook.errorCount⟩
  next hkind =>
    obtain ⟨rfl, rfl⟩ := h.of_pure
    exact .inr ⟨rfl, fun h => hkind (beq_iff_eq.mpr h), hlook⟩

/-- What has to follow does. -/
theorem of_expect (h : (expect k).Clean s found t) :
    found = true ∧ s.kindAt 1 = k ∧ Takes s t := by
  obtain ⟨found', u, hoptional, h⟩ := h.bind
  obtain ⟨rfl, hkind, htakes⟩ | ⟨rfl, -, -⟩ := hoptional.of_optional
  · obtain ⟨rfl, rfl⟩ := h.of_pure
    exact ⟨rfl, hkind, htakes⟩
  · obtain ⟨_, _, hreport, -⟩ := h.bind
    exact (not_reportNext rfl hreport).elim

theorem of_name? (h : name?.Clean s name t) :
    (s.kindAt 1).canBeName = true ∧ Takes s t ∧
        name = some ((s.input.tokenAt 1).text, (s.input.tokenAt 1).span) ∨
      (s.kindAt 1).canBeName = false ∧ Looks s t ∧ name = none := by
  obtain ⟨a, u, hpeek, h⟩ := bind (p := peek) h
  obtain ⟨hlook, rfl⟩ := hpeek.of_peekAt
  split at h
  next hname =>
    obtain ⟨_, v, hread, h⟩ := h.bind
    obtain ⟨rfl, rfl⟩ := h.of_pure
    obtain ⟨w, hlook', rfl⟩ := hread.of_next.1.read
    exact .inl ⟨hname, ⟨⟨w, hlook.trans hlook', rfl⟩,
      hread.errors_eq.trans hlook.errorCount⟩, rfl⟩
  next hname =>
    obtain ⟨rfl, rfl⟩ := h.of_pure
    exact .inr ⟨Bool.eq_false_iff.mpr hname, hlook, rfl⟩

/-! ## Loops -/

/-- What holds before a loop and is kept by its clean rounds holds in the end, where the guard stops
it. -/
theorem of_loop {R : σ → ParseState → Prop} {guard : σ → Parser (β ⊕ γ)}
    {body : σ → γ → Parser σ} [∀ a, (guard a).KeepsNames]
    [∀ a g, (body a g).Flows] {atEnd : β}
    (h : (loop atEnd guard body a).Clean s (b, stop) t)
    (huncut : ∀ a s g t, (guard a).run s = (.inr g, t) → t.kindAt 1 ≠ .endOfFile)
    (hround : ∀ a s g t u b v, R a s → (guard a).Clean s (.inr g) t → Takes t u →
      (body a g).Clean u b v → R b v)
    (hR : R a s) : ∃ u, R b u ∧ (guard b).Clean u (.inl stop) t := by
  have hrun : loopFrom atEnd guard body a s = ((b, stop), t) := h.run_eq
  have herrors := h.errors_eq
  clear h
  fun_induction loopFrom atEnd guard body a s with
  | case1 a s c u hguard =>
    obtain ⟨hresult, rfl⟩ := Prod.mk.inj hrun
    obtain ⟨rfl, rfl⟩ := Prod.mk.inj hresult
    exact ⟨s, hR, hguard, herrors⟩
  | case2 a s g u hguard hrest => exact absurd hrest (rest_ne_nil (huncut a s g u hguard))
  | case3 a s g u hguard _ _ _ r ih =>
    -- All parts of the round are clean, because errors only grow.
    have hbody : ParseState.Flows u.read r.2 := Flows.flows (p := body a g) inferInstance _
    have hrest : ParseState.Flows r.2 t :=
      Flows.of_run (p := loop atEnd guard body r.1) inferInstance hrun
    obtain ⟨hlook, h⟩ := ErrorFree.split (Flows.of_run inferInstance hguard)
      (((ParseState.Flows.read u).trans hbody).trans hrest) herrors
    obtain ⟨hread, h⟩ := ErrorFree.split (.read u) (hbody.trans hrest) h.errors_eq
    obtain ⟨hbody, h⟩ := ErrorFree.split hbody hrest h.errors_eq
    refine ih (hround a s g u _ _ _ hR ⟨hguard, hlook.errors_eq⟩
      ⟨⟨u, .refl u, rfl⟩, hread.errors_eq⟩ ⟨rfl, hbody.errors_eq⟩) hrun h.errors_eq

theorem of_whileNext {R : σ → ParseState → Prop} {guard : σ → Parser (Option γ)}
    {body : σ → γ → Parser σ} [∀ a, (guard a).KeepsNames] [∀ a g, (body a g).Flows]
    (h : (whileNext guard body a).Clean s b t)
    (huncut : ∀ a s g t, (guard a).run s = (some g, t) → t.kindAt 1 ≠ .endOfFile)
    (hround : ∀ a s g t u b v, R a s → (guard a).Clean s (some g) t → Takes t u →
      (body a g).Clean u b v → R b v)
    (hR : R a s) : ∃ u, R b u ∧ (guard b).Clean u none t := by
  have hfound {a : σ} {s t : ParseState} {g : γ}
      (h : (do return (← guard a).elim (Sum.inl ()) Sum.inr : Parser (Unit ⊕ γ)).run s =
        (.inr g, t)) : (guard a).run s = (some g, t) := by
    obtain ⟨found, u, hguard, hresult⟩ := run_of_bind h
    obtain ⟨hfound, rfl⟩ := Prod.mk.inj hresult
    cases found with
    | none => cases hfound
    | some g' => exact Sum.inr.inj hfound ▸ hguard
  unfold whileNext at h
  obtain ⟨⟨b', _⟩, u, hloop, h⟩ := h.bind
  obtain ⟨rfl, rfl⟩ := h.of_pure
  obtain ⟨v, hR, hstop⟩ := hloop.of_loop (R := R) (fun a s g t h => huncut a s g t (hfound h))
    (fun a s g t u b v hR h => hround a s g t u b v hR ⟨hfound h.run_eq, h.errors_eq⟩) hR
  obtain ⟨found, w, hguard, hresult⟩ := run_of_bind hstop.run_eq
  obtain ⟨hfound, rfl⟩ := Prod.mk.inj hresult
  cases found with
  | some g => cases hfound
  | none => exact ⟨v, hR, hguard, hstop.errors_eq⟩

section

variable {item : Parser (Option α)} [item.Flows]

/-- What holds of the items before and is kept by each item that is read cleanly holds of all of
them. -/
theorem of_commaTail {L : List α → Prop} (h : (commaTail item as).Clean s bs t)
    (hitem : ∀ {as u a v}, L as → ErrorFree s u → item.Clean u (some a) v → L (as ++ [a]))
    (has : L as) : L bs := by
  unfold commaTail at h
  obtain ⟨state, u, hloop, h⟩ := h.bind
  obtain ⟨rfl, -⟩ := h.of_pure
  let R (state : List α × Bool) (u : ParseState) : Prop := ErrorFree s u ∧ L state.1
  refine (hloop.of_whileNext (R := R) (fun a s g t hfound => ?_)
    (fun state s _ t u state' v hR hguard htakes hbody => ?_)
    ⟨(Looks.refl s).errorFree, has⟩).elim fun _ h => h.1.2
  · rw [commaFollows_found hfound]
    exact Kind.noConfusion
  · have hu := hR.1.trans (hguard.errorFree.trans htakes.errorFree)
    have hv := hu.trans hbody.errorFree
    obtain ⟨found, w, hfound, hbody⟩ := hbody.bind (F := fun a => by cases a <;> infer_instance)
    cases found with
    | none =>
      obtain ⟨rfl, -⟩ := hbody.of_pure
      exact ⟨hv, hR.2⟩
    | some a =>
      obtain ⟨rfl, -⟩ := hbody.of_pure
      exact ⟨hv, hitem hR.2 hu hfound⟩

/-- The items of a list that is read cleanly are each read so. -/
theorem of_commaList {P : α → Prop} (h : (commaList item).Clean s as t)
    (hitem : ∀ {u a v}, ErrorFree s u → item.Clean u (some a) v → P a) :
    ∀ a ∈ as, P a := by
  unfold commaList at h
  obtain ⟨first, u, hfirst, h⟩ := h.bind (F := fun a => by cases a <;> infer_instance)
  cases first with
  | none =>
    obtain ⟨rfl, -⟩ := h.of_pure
    exact nofun
  | some a =>
    refine of_commaTail (L := fun as => ∀ a ∈ as, P a) h (fun has herrorFree hrun => ?_) ?_
    · exact List.forall_mem_append.mpr
        ⟨has, List.forall_mem_singleton.mpr (hitem (hfirst.errorFree.trans herrorFree) hrun)⟩
    · exact List.forall_mem_singleton.mpr (hitem (Looks.refl s).errorFree hfirst)

/-- Where every item can be read, there is at least one. -/
theorem ne_nil_of_commaList (h : (commaList item).Clean s as t)
    (hitem : ∀ s t, item.run s ≠ (none, t)) : as ≠ [] := by
  unfold commaList at h
  obtain ⟨first, u, hfirst, h⟩ := h.bind (F := fun a => by cases a <;> infer_instance)
  cases first with
  | none => exact absurd hfirst.run_eq (hitem _ _)
  | some a =>
    exact of_commaTail (L := (· ≠ [])) h
      (fun _ _ _ => List.append_ne_nil_of_right_ne_nil _ (List.cons_ne_nil _ []))
      (List.cons_ne_nil a [])

end

end Clean

end Parser

end FourGL
