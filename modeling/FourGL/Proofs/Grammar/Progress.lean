import FourGL.Proofs.Grammar.TokensRead

/-!
# Progress

No loop of the parser is cut off: a loop goes on only before a token of the text, and reads it.
Types are read as if they could nest without bound, because each level takes a token. So a text is
read to its end, each of its tokens once.
-/

namespace FourGL

open FourGL.Parser FourGL.ParseState

namespace Parser

/-! ## Loops -/

section

variable {guard : σ → Parser (β ⊕ γ)} {body : σ → γ → Parser σ} {atEnd : β}

theorem run_loop_stop (h : (guard a).run s = (.inl b, t)) :
    (loop atEnd guard body a).run s = ((a, b), t) := by
  change loopFrom atEnd guard body a s = _
  rw [loopFrom]
  split
  next h' => rw [h] at h'; cases h'; rfl
  next h' => rw [h] at h'; cases h'

theorem run_loop_cut (h : (guard a).run s = (.inr g, t)) (hrest : t.input.rest = []) :
    (loop atEnd guard body a).run s = ((a, atEnd), t) := by
  change loopFrom atEnd guard body a s = _
  rw [loopFrom]
  split
  next h' => rw [h] at h'; cases h'
  next h' =>
    rw [h] at h'
    cases h'
    split
    next => rfl
    next hcons => rw [hrest] at hcons; cases hcons

theorem run_loop_round (h : (guard a).run s = (.inr g, t)) (hrest : t.input.rest ≠ []) :
    (loop atEnd guard body a).run s =
      (loop atEnd guard body ((body a g).run t.read).1).run ((body a g).run t.read).2 := by
  change loopFrom atEnd guard body a s = _
  rw [loopFrom]
  split
  next h' => rw [h] at h'; cases h'
  next h' =>
    rw [h] at h'
    cases h'
    split
    next hnil => exact absurd hnil hrest
    next => rfl

end

/-- A loop with the guard runs as if it needed nothing to be left to read: it ends only where the
guard stops it. -/
def Uncut (guard : σ → Parser (β ⊕ γ)) : Prop :=
  ∀ atEnd body a s, (loop atEnd guard body a).run s =
    match (guard a).run s with
    | (.inl b, t) => ((a, b), t)
    | (.inr g, t) =>
      (loop atEnd guard body ((body a g).run t.read).1).run ((body a g).run t.read).2

theorem uncut_of_rest {guard : σ → Parser (β ⊕ γ)}
    (h : ∀ a s g t, (guard a).run s = (.inr g, t) → t.input.rest ≠ []) : Uncut guard := by
  intro atEnd body a s
  split
  next hguard => exact run_loop_stop hguard
  next hguard => exact run_loop_round hguard (h _ _ _ _ hguard)

/-- `Uncut` for the guards of `whileNext`. -/
def UncutWhile (guard : σ → Parser (Option γ)) : Prop :=
  Uncut fun a => do return (← guard a).elim (Sum.inl ()) Sum.inr

theorem uncutWhile_of_ne {guard : σ → Parser (Option γ)}
    (h : ∀ a s g t, (guard a).run s = (some g, t) → t.kindAt 1 ≠ .endOfFile) :
    UncutWhile guard := by
  refine uncut_of_rest fun a s g t hguard => ?_
  obtain ⟨found, u, hrun, hresult⟩ := run_of_bind hguard
  obtain ⟨hfound, rfl⟩ := Prod.mk.inj hresult
  cases found with
  | none => cases hfound
  | some g' => exact rest_ne_nil (h a s g' u hrun)

/-! ## Loops inside statements -/

/-- No loop inside a statement, an expression or a type is cut off. -/
structure PhrasesUncut : Prop where
  items (α : Type) : UncutWhile (commaFollows (α := α))
  names (m : Mark) (σ : Type) : UncutWhile fun _ : σ => when (nextBeforeName (.mark m))
  fields (σ : Type) : Uncut fun _ : σ => fieldFollows
  selections (σ : Type) : UncutWhile fun _ : σ => selection?
  operators (least : Nat) (σ : Type) : UncutWhile fun _ : σ => continuation? least
  groups : UncutWhile groupGoesOn
  parts : UncutWhile partFollows

theorem groupGoesOn_found (h : (groupGoesOn a).run s = (some g, t)) :
    t.kindAt 1 ≠ .endOfFile := by
  unfold groupGoesOn at h
  split at h
  · cases h
  · obtain ⟨atEnd, u, hnext, hresult⟩ := run_of_bind (run_of_when h)
    obtain ⟨hfound, rfl⟩ := Prod.mk.inj hresult
    obtain ⟨rfl, rfl⟩ := Prod.mk.inj hnext
    intro hend
    change (!(s.kindAt 1 == .endOfFile)) = true at hfound
    rw [show s.kindAt 1 = .endOfFile from hend] at hfound
    cases hfound

theorem phrasesUncut : PhrasesUncut where
  items _ := uncutWhile_of_ne fun _ _ _ _ h => by
    rw [commaFollows_found h]
    exact Kind.noConfusion
  names m _ := uncutWhile_of_ne fun _ _ _ _ h => by
    rw [(kindAt_of_nextBeforeName (run_of_when h)).1]
    exact Kind.noConfusion
  fields _ := uncut_of_rest fun _ _ _ _ h =>
    rest_ne_nil (ne_of_canBeName ((fieldFollows_found h).1 rfl)).2
  selections _ := uncutWhile_of_ne fun _ _ _ _ h => by
    obtain hkind | hkind := (selection?_found h).1 <;> rw [hkind] <;> exact Kind.noConfusion
  operators _ _ := uncutWhile_of_ne fun _ _ _ _ h => (continuation?_found h).1.2
  groups := uncutWhile_of_ne fun _ _ _ _ h => groupGoesOn_found h
  parts := uncutWhile_of_ne fun _ _ _ _ h => by
    rw [partFollows_found h]
    exact Kind.noConfusion

/-! ## Nesting of types -/

/-- The parsers run alike where at most `m` lexemes are left. -/
def AgreeUpTo (m : Nat) (p q : Parser α) : Prop := ∀ s, s.left ≤ m → p.run s = q.run s

namespace AgreeUpTo

theorem refl (p : Parser α) : AgreeUpTo m p p := fun _ _ => rfl

theorem bind {p q : Parser α} {f g : α → Parser β} (hp : AgreeUpTo m p q)
    (hf : ∀ a, AgreeUpTo m (f a) (g a)) : AgreeUpTo m (p >>= f) (q >>= g) := by
  intro s hs
  rw [run_bind, run_bind, hp s hs]
  exact hf _ _ (Nat.le_trans (q.left_le s) hs)

theorem ite {c : Prop} [Decidable c] {p p' q q' : Parser α} (hp : AgreeUpTo m p p')
    (hq : AgreeUpTo m q q') : AgreeUpTo m (if c then p else q) (if c then p' else q') := by
  split
  · exact hp
  · exact hq

theorem loop {guard : σ → Parser (β ⊕ γ)} {body body' : σ → γ → Parser σ}
    (hbody : ∀ a g, AgreeUpTo m (body a g) (body' a g)) (atEnd : β) (a : σ) :
    AgreeUpTo m (loop atEnd guard body a) (loop atEnd guard body' a) := by
  intro s
  induction a, s using loopFrom.induct guard body with
  | case1 a s b t h =>
    intro _
    rw [run_loop_stop h, run_loop_stop h]
  | case2 a s g t h hnil =>
    intro _
    rw [run_loop_cut h hnil, run_loop_cut h hnil]
  | case3 a s g t h l ls hrest r ih =>
    intro hs
    have hne : t.input.rest ≠ [] := by simp [hrest]
    have hguard := (guard a).left_le s
    rw [h] at hguard
    have hle : t.read.left ≤ m :=
      Nat.le_trans t.input.length_rest_advance_le (Nat.le_trans hguard hs)
    rw [run_loop_round h hne, run_loop_round h hne, ← hbody a g _ hle]
    exact ih (Nat.le_trans ((body a g).left_le _) hle)

theorem whileNext {guard : σ → Parser (Option γ)} {body body' : σ → γ → Parser σ}
    (hbody : ∀ a g, AgreeUpTo m (body a g) (body' a g)) (a : σ) :
    AgreeUpTo m (whileNext guard body a) (whileNext guard body' a) :=
  bind (loop hbody _ _) fun _ => refl _

theorem commaTail {item item' : Parser (Option α)} (h : AgreeUpTo m item item') (as : List α) :
    AgreeUpTo m (commaTail item as) (commaTail item' as) :=
  bind (whileNext (fun _ _ => bind h fun _ => refl _) _) fun _ => refl _

section

variable {inner inner' : Parser TypeReference} (h : AgreeUpTo m inner inner')
include h

theorem variableGroup (first : String × Span) :
    AgreeUpTo m (variableGroup inner first) (variableGroup inner' first) :=
  bind (refl _) fun _ => bind h fun _ => refl _

theorem variableGroupsAfter (first : String × Span) :
    AgreeUpTo m (variableGroupsAfter inner first) (variableGroupsAfter inner' first) := by
  unfold Parser.variableGroupsAfter
  refine bind (variableGroup h first) fun group => bind (commaTail (bind (refl _) fun name => ?_) _)
    fun _ => refl _
  cases name with
  | none => exact refl _
  | some name => exact bind (variableGroup h name) fun _ => refl _

theorem recordFields : AgreeUpTo m (recordFields inner) (recordFields inner') := by
  unfold Parser.recordFields
  refine bind (loop (fun fields _ => bind (refl _) fun t => ?_) _ _) fun _ => refl _
  exact bind (variableGroupsAfter h (t.text, t.span)) fun _ => refl _

theorem recordType : AgreeUpTo m (recordType inner) (recordType inner') := by
  unfold Parser.recordType
  exact bind (refl _) fun _ => ite (refl _) (bind (recordFields h) fun _ => refl _)

theorem dynamicArrayType : AgreeUpTo m (dynamicArrayType inner) (dynamicArrayType inner') := by
  unfold Parser.dynamicArrayType
  refine bind (refl _) fun _ => bind (refl _) fun _ => ?_
  have hof (dimension : Option String) : AgreeUpTo m (do
      let _ ← expect (.keyword .OF)
      return TypeReference.array true dimension.toList (← inner)) (do
      let _ ← expect (.keyword .OF)
      return TypeReference.array true dimension.toList (← inner')) :=
    bind (refl _) fun _ => bind h fun _ => refl _
  split
  · exact bind (refl _) fun _ => bind (refl _) hof
  · exact hof _

theorem staticArrayType : AgreeUpTo m (staticArrayType inner) (staticArrayType inner') := by
  unfold Parser.staticArrayType
  refine bind (refl _) fun _ => ?_
  have hof (dimensions : List (Option String)) : AgreeUpTo m (do
      let _ ← expect (.keyword .OF)
      return TypeReference.array false (dimensions.filterMap id) (← inner)) (do
      let _ ← expect (.keyword .OF)
      return TypeReference.array false (dimensions.filterMap id) (← inner')) :=
    bind (refl _) fun _ => bind h fun _ => refl _
  split
  · exact bind (refl _) fun _ => bind (refl _) fun _ => hof _
  · exact hof _

end

end AgreeUpTo

/-- Reads a type whose parts `inner` reads. -/
def typeOf (inner : Parser TypeReference) : Parser TypeReference := do
  match ← peekKind with
  | .keyword .RECORD =>
    let _ ← next
    recordType inner
  | .keyword .DYNAMIC =>
    let _ ← next
    dynamicArrayType inner
  | .keyword .ARRAY =>
    let _ ← next
    staticArrayType inner
  | _ => leafType

/-- Each level of nesting takes a token, so that a type has one level less inside. -/
theorem AgreeUpTo.typeOf {inner inner' : Parser TypeReference} (h : AgreeUpTo m inner inner') :
    AgreeUpTo (m + 1) (typeOf inner) (typeOf inner') := by
  intro s hs
  obtain ⟨kind, t, hpeek⟩ : ∃ kind t, peekKind.run s = (kind, t) := ⟨_, _, rfl⟩
  have hkind := kindAt_of_peekKind hpeek
  have hread (hne : kind ≠ .endOfFile) : t.read.left ≤ m := by
    have hlt := Lookahead.length_rest_advance_lt (rest_ne_nil (hkind ▸ hne))
    have hle := peekKind.left_le s
    rw [hpeek] at hle
    exact Nat.le_of_lt_succ (Nat.lt_of_lt_of_le hlt (Nat.le_trans hle hs))
  -- Behind its keyword a record or an array has one lexeme less before it.
  have hafter {p q : Parser TypeReference} (hpq : AgreeUpTo m p q) (hne : kind ≠ .endOfFile) :
      (next >>= fun _ => p).run t = (next >>= fun _ => q).run t := hpq t.read (hread hne)
  unfold Parser.typeOf
  rw [run_bind, run_bind, hpeek]
  dsimp only
  split
  · exact hafter h.recordType Kind.noConfusion
  · exact hafter h.dynamicArrayType Kind.noConfusion
  · exact hafter h.staticArrayType Kind.noConfusion
  · rfl

/-- A type that holds no other is read alike when it has been looked at before. -/
theorem run_leafType_behind (s : ParseState) :
    leafType.run (peekKind.run s).2 = leafType.run s := by
  have hpeek : peek.run (peekKind.run s).2 = peek.run s := by
    change (_, _) = (_, _)
    simp [peekKind, peek, peekAt, Lookahead.inspect, Lookahead.tokenAt]
  unfold leafType
  rw [run_bind, run_bind, hpeek]

/-- More levels than lexemes make no difference. -/
theorem agree_typeWithin (h : depth ≤ depth') :
    AgreeUpTo depth (typeWithin depth) (typeWithin depth') := by
  induction depth generalizing depth' with
  | zero =>
    cases depth' with
    | zero => exact .refl _
    | succ depth' =>
      intro s hs
      have hrest : s.input.rest = [] := List.length_eq_zero_iff.mp (Nat.le_zero.mp hs)
      have hkind : (peekKind.run s).1 = .endOfFile := by
        simp [peekKind, peek, peekAt, Lookahead.tokenAt, hrest, Token.endOfFile]
      change _ = (typeOf (typeWithin depth')).run s
      unfold typeOf
      rw [run_bind, hkind]
      exact (run_leafType_behind s).symm
  | succ depth ih =>
    cases depth' with
    | zero => exact absurd h (Nat.not_succ_le_zero depth)
    | succ depth' => exact (ih (Nat.le_of_succ_le_succ h)).typeOf

/-- Types are read as if they could nest without bound. -/
theorem typeReference_run (s : ParseState) :
    typeReference.run s = (typeOf typeReference).run s := by
  have hinner : AgreeUpTo s.left typeReference (typeWithin s.left) :=
    fun t ht => agree_typeWithin ht t (Nat.le_refl _)
  calc typeReference.run s
      = (typeWithin (s.left + 1)).run s := agree_typeWithin (Nat.le_succ _) s (Nat.le_refl _)
    _ = (typeOf typeReference).run s := (hinner.typeOf s (Nat.le_succ _)).symm

/-! ## Rounds of bodies and clauses -/

theorem consumed_lt_of_read (hbefore : Later s t) (hkind : t.kindAt 1 ≠ .endOfFile)
    (hbehind : Later t.read u) : s.input.consumed < u.input.consumed := by
  have hread : t.read.input.consumed = t.input.consumed + 1 := by
    rw [consumed_read, significant_singleton hkind]
    rfl
  have hle := hbefore.consumed_le
  have hle' := hbehind.consumed_le
  omega

/-- The parser of the statements in a body where `levels` levels of nesting are left. -/
def statementAt : (levels : Nat) → Option FormParser
  | 0 => none
  | levels + 1 => some (formWith levels (bodyAt levels))

theorem bodyAt_eq (levels : Nat) : bodyAt levels = bodyWith (statementAt levels) := by
  cases levels <;> rfl

theorem isNone_statementAt (levels : Nat) : (statementAt levels).isNone = decide (levels = 0) := by
  cases levels <;> rfl

theorem Round.consumed_lt {ctx : Context} {region : Region} {a b : Progress × ParseState}
    (h : Round (statementAt levels) ctx region a b) :
    a.2.input.consumed < b.2.input.consumed := by
  cases h with
  | @statement _ _ _ _ _ _ _ _ s t hparse hchoice hrun hjump hleave =>
    cases levels with
    | zero => cases hparse
    | succ levels =>
      cases hparse
      have hkind : t.kindAt 1 ≠ .endOfFile :=
        hchoice.looks.kindAt 1 ▸ hchoice.passes.ne_endOfFile
      obtain ⟨hnode, -⟩ :=
        (accounts_formWith (accountsBodies levels) _ _ hchoice.fits).of_run hrun
      exact consumed_lt_of_read hchoice.looks.later hkind
        (hnode.later.trans (((careful_checkJump _ _ _).later hjump).trans hleave.later))
  | skip hskip =>
    obtain ⟨t, hbefore, hkind, hbehind⟩ := hskip.later
    exact consumed_lt_of_read hbefore hkind hbehind

/-- A round of clauses reads a token if the parser of clauses reads on from there. -/
theorem ClauseRound.consumed_lt {ctx : Context} {terminator : Kind} {starts : Parser Bool}
    {clause : List Node → Opening → Parser Node} (hstarts : starts.Peeks)
    (hclause : ∀ before errors s t, starts.run s = (true, t) →
      Later t.read ((clause before ⟨t.read.input.last, errors⟩).run t.read).2)
    {a b : Progress × ParseState} (h : ClauseRound ctx terminator starts clause a b) :
    a.2.input.consumed < b.2.input.consumed := by
  cases h with
  | @clause _ _ p s s₁ t hpass hlook hfound hrun =>
    have hlook' := hlook.trans (hstarts.of_run hfound)
    have hbehind := hclause p.nodes s.errorCount s₁ t hfound
    rw [hrun] at hbehind
    exact consumed_lt_of_read hlook'.later (hlook'.kindAt 1 ▸ hpass.ne_endOfFile) hbehind
  | @unexpected t' _ _ s s₁ t hpass hlook hfound _ hlook' hskip =>
    have hlook'' := hlook.trans ((hstarts.of_run hfound).trans hlook')
    exact consumed_lt_of_read hlook''.later (hlook''.kindAt 1 ▸ hpass.ne_endOfFile)
      ((careful_skipUnexpected _ _ _).later hskip)

theorem later_caseClause (levels : Nat) (ctx : Context) (before : List Node) (o : Opening)
    (s : ParseState) : Later s ((caseClause levels (bodyAt levels) ctx before o).run s).2 := by
  obtain ⟨_, haccount⟩ := accountsClause_caseClause (accountsBodies levels) ctx o before s
  exact haccount.later

theorem later_menuClause (levels : Nat) (ctx : Context) {s t : ParseState} (errors : Nat)
    (h : startsMenuClause.run s = (true, t)) :
    Later t.read
      ((menuClause levels (bodyAt levels) ctx ⟨t.read.input.last, errors⟩).run t.read).2 := by
  have hstart : t.read.input.last.kind = .keyword .COMMAND ∨ t.read ∈ careful := by
    rw [last_read]
    exact startsMenuClause_found h
  obtain ⟨_, haccount⟩ := accountsClause_menuClause (accountsBodies levels) ctx
    ⟨t.read.input.last, errors⟩ hstart
  exact haccount.later

/-- A loop is not cut off, and each of its rounds reads at least one token of the text. -/
structure Advances (guard : Parser (β ⊕ γ)) (body : σ → γ → Parser σ) : Prop where
  uncut : Uncut fun _ : σ => guard
  consumes (a : σ) {s t : ParseState} {g : γ} : guard.run s = (.inr g, t) →
    s.input.consumed < ((body a g).run t.read).2.input.consumed

theorem advances_of_rounds {guard : Parser (β ⊕ γ)} {body : σ → γ → Parser σ}
    {R : σ × ParseState → σ × ParseState → Prop}
    (hround : ∀ {s g t}, guard.run s = (.inr g, t) →
      t.input.rest ≠ [] ∧ ∀ a, R (a, s) ((body a g).run t.read))
    (hconsumed : ∀ {a b}, R a b → a.2.input.consumed < b.2.input.consumed) :
    Advances guard body where
  uncut := uncut_of_rest fun _ _ _ _ h => (hround h).1
  consumes a _ _ _ h := hconsumed ((hround h).2 a)

/-- The loops over statements and clauses advance. What declines to read a statement or a clause has
only looked ahead. -/
structure BodiesAdvance : Prop where
  bodies_eq (levels : Nat) : bodyAt levels = bodyWith (statementAt levels)
  bodies (levels : Nat) (ctx : Context) (region : Region) :
    Advances (nestingGuard (statementAt levels).isNone ctx region)
      (bodyStep (statementAt levels) ctx region)
  caseClauses (levels : Nat) (ctx inner : Context) :
    Advances (clauseGuard ctx (.keyword .CASE) startsCaseClause)
      (clauseStep (caseClause levels (bodyAt levels) inner))
  menuClauses (levels : Nat) (ctx inner : Context) :
    Advances (clauseGuard ctx (.keyword .MENU) startsMenuClause)
      (clauseStep fun _ => menuClause levels (bodyAt levels) inner)
  declines (version : Version) (atLimit : Bool) (ps : List Production) :
    (chooseNext version atLimit ps).Peeks
  declinesCaseClause : startsCaseClause.Peeks
  declinesMenuClause : startsMenuClause.Peeks

theorem bodiesAdvance : BodiesAdvance where
  bodies_eq := bodyAt_eq
  bodies _ _ _ := advances_of_rounds round_of_nestingGuard Round.consumed_lt
  caseClauses levels _ inner :=
    advances_of_rounds (clauseRound_of_clauseGuard peeks_startsCaseClause _)
      (ClauseRound.consumed_lt peeks_startsCaseClause fun before _ _ t _ =>
        later_caseClause levels inner before _ t.read)
  menuClauses levels _ inner :=
    advances_of_rounds (clauseRound_of_clauseGuard peeks_startsMenuClause _)
      (ClauseRound.consumed_lt peeks_startsMenuClause fun _ errors _ _ hfound =>
        later_menuClause levels inner errors hfound)
  declines := peeks_chooseNext
  declinesCaseClause := peeks_startsCaseClause
  declinesMenuClause := peeks_startsMenuClause

end Parser

/-! ## Whole texts -/

/-- Where nothing encloses a body, it stops only at the end of the text. -/
theorem Parser.Stops.at_end {ctx : Context} (h : Stops ctx none s stop) (hends : ctx.ends = [])
    (hstops : ctx.stops = []) : stop = .endOfFile ∧ s.kindAt 1 = .endOfFile := by
  cases h with
  | endOfFile hend => exact ⟨rfl, hend⟩
  | terminator _ hterm => cases hterm
  | ancestorEnd _ _ hmem => simp [hends] at hmem
  | stopToken hmem => simp [hstops] at hmem

/-- Where the end of the text comes next, nothing is left behind it. -/
theorem ParseState.At.rest_read (h : At text s) (hend : s.kindAt 1 = .endOfFile) :
    s.read.input.rest = [] := by
  obtain ⟨done, hsplit, -⟩ := h.split
  obtain ⟨init, e, heq, hkind, hinit⟩ := tokens_eq_append text
  cases hrest : s.input.rest with
  | nil => simp [ParseState.read, Lookahead.advance, hrest]
  | cons l ls =>
    suffices hls : ls = [] by simp [ParseState.read, Lookahead.advance, hrest, hls]
    have hl : l.token.kind = .endOfFile := by simpa [kindAt, Lookahead.tokenAt, hrest] using hend
    -- The end of file stands last, so that nothing comes behind it.
    by_contra hne
    rw [hrest, List.map_cons] at hsplit
    have hdrop := congrArg List.dropLast (heq.symm.trans hsplit)
    rw [List.dropLast_concat, List.dropLast_append_of_ne_nil (by simp),
      List.dropLast_cons_of_ne_nil (by simpa using hne)] at hdrop
    exact hinit l.token (by simp [hdrop]) hl

/-- A run up to the end of the text has read all its tokens. -/
theorem ParseState.TokensRead.reads_all (h : TokensRead (.ofText mode text) ts s)
    (hend : s.kindAt 1 = .endOfFile) : significant ts = significant (tokens .default text) := by
  have heq := h.significant_eq
  rw [← significant_read, significant_endOfFile hend,
    (h.onward (at_ofText mode text)).1.rest_read hend] at heq
  calc significant ts
      = significant ((ofText mode text).input.rest.map (·.token)) := by
        simpa [significant] using heq
    _ = significant (tokens .default text) :=
      congrArg significant (Lexeme.map_token_ofText mode text)

/-- No loop over a text is cut off, and each round of a body or of clauses reads a token or stops.
So the tokens of a module are read once each and in order, and statements that stand alone stop only
at the end of the text. -/
theorem parse_reads_all (text : String) (options : ParseOptions) :
    PhrasesUncut ∧ BodiesAdvance ∧
    (∀ s, typeReference.run s = (typeOf typeReference).run s) ∧
    (∃ ts, TokensRead (.ofText options.mode text) ts
        ((moduleNode options.version).run (.ofText options.mode text)).2 ∧
      significant ts = significant (tokens .default text)) ∧
    ((moduleNode options.version).run (.ofText options.mode text)).2.input.consumed =
      (significant (tokens .default text)).length ∧
    ((bodyAt maxNesting (.snippet options.version) {}).run (.ofText options.mode text)).1.2 =
      .endOfFile := by
  obtain ⟨s, stop, hmodule, hrun, -⟩ := account_parseModule text options
  rw [hrun]
  obtain ⟨-, hend⟩ := hmodule.stops_body.at_end rfl rfl
  obtain ⟨ts, hbody : TokensRead (.ofText options.mode text) ts s⟩ := hmodule.later
  -- Behind the members only the end of the text is read.
  have hread := hbody.reads_all hend
  rw [← List.append_nil (significant ts), ← significant_endOfFile hend,
    ← significant_append] at hread
  refine ⟨phrasesUncut, bodiesAdvance, typeReference_run, ⟨_, hbody.read, hread⟩, ?_, ?_⟩
  · rw [hbody.read.consumed_eq, hread]
    exact Nat.zero_add _
  · have hsnippet := accountsBodies maxNesting (.snippet options.version) {}
      (.ofText options.mode text)
    exact (hsnippet.stops_body.at_end rfl rfl).1

end FourGL
