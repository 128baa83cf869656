import FourGL.Proofs.Grammar.Reports
import FourGL.Proofs.Grammar.Flow

/-!
# Where diagnostics are located

What parsing has to say about a text it says about a token of the text, or about a stretch that it
measures from the start of a statement on and that is never empty (`Diagnostic.Located`). Phrases
speak about the next token only, so that they have this as a property. Where something is reported
about a place that was noted before, the parser must know more of that place: `KeepsLocated` carries
this from what yields the place to what reports about it.
-/

namespace FourGL

open FourGL.Parser FourGL.ParseState

/-! ## Diagnostics -/

/-- The stretch is that of a token of the text. -/
def Span.OfToken (text : String) (span : Span) : Prop :=
  ∃ t ∈ tokens .verbatim text, span = t.span

theorem Token.ofToken_span {text : String} {t : Token} (ht : t ∈ tokens .default text) :
    t.span.OfToken text := ⟨t, mem_tokens_verbatim ht, rfl⟩

/-- The diagnostic is located in the text: it is about a token, or it is about a stretch that is
measured and not empty. -/
inductive Diagnostic.Located (text : String) : Diagnostic → Prop where
  | token {m : Message} {args : List String} {span : Span} (hm : m.isMeasured = false)
      (hspan : span.OfToken text) : Located text (.of m args (some span))
  | measured {m : Message} {args : List String} {start stop : Nat} (hm : m.isMeasured = true)
      (hlt : start < stop) (hstop : stop ≤ text.length) :
      Located text (.of m args (some (.between start stop)))

/-- The cursors that loops have noted down, to be reported behind them, are named by tokens. -/
def Names.Located (text : String) (n : Names) : Prop :=
  ∀ l ∈ n.loops, ∀ c ∈ l.redeclared, c.span.OfToken text

/-! ## States -/

namespace ParseState

/-- The state has come to `pos` or beyond, and all that it has to say is located in the text. -/
structure Locates (text : String) (pos : Nat) (s : ParseState) : Prop where
  at_text : At text s
  pos_le : pos ≤ s.place
  reports : ∀ d ∈ s.reports, d.Located text
  names : s.names.Located text

/-- Also behind the end of the text a state finds a token of the text. -/
theorem At.ofToken_tokenAt (h : At text s) (depth : Nat) :
    (s.input.tokenAt depth).span.OfToken text := by
  unfold Lookahead.tokenAt
  split
  next l hl => exact Token.ofToken_span (h.mem_tokens (List.mem_of_getElem? hl))
  next =>
    obtain ⟨ts, e, heq, hkind, -⟩ := tokens_eq_append text
    have hmem : e ∈ tokens .default text := by simp [heq]
    obtain ⟨hle, hstop, -, hstart⟩ := bounds_of_mem_tokens hmem
    have hstart := hstart hkind
    refine ⟨e, mem_tokens_verbatim hmem, ?_⟩
    rw [h.length_eq, Token.span, Token.span, hstart, show e.stop = text.length by omega]
    rfl

theorem locates_ofText (mode : ScanMode) (text : String) : Locates text 0 (.ofText mode text) :=
  ⟨at_ofText mode text, Nat.zero_le _, nofun, nofun⟩

namespace Locates

theorem mono (h : Locates text pos s) (hle : pos' ≤ pos) : Locates text pos' s :=
  ⟨h.at_text, Nat.le_trans hle h.pos_le, h.reports, h.names⟩

/-- What is reported from here on starts behind what was read before. -/
theorem here (h : Locates text pos s) : Locates text s.place s :=
  ⟨h.at_text, Nat.le_refl _, h.reports, h.names⟩

theorem looks (h : Locates text pos s) (hlook : Looks s t) : Locates text pos t := by
  obtain ⟨hat, hle⟩ := h.at_text.looks hlook
  refine ⟨hat, Nat.le_trans h.pos_le hle, hlook.reports ▸ h.reports, ?_⟩
  obtain ⟨x, -, rfl⟩ := hlook
  exact h.names

theorem read (h : Locates text pos s) : Locates text pos s.read :=
  ⟨h.at_text.read.1, Nat.le_trans h.pos_le h.at_text.read.2, h.reports, h.names⟩

theorem report (h : Locates text pos s) (hd : (Diagnostic.of m args (some span)).Located text) :
    Locates text pos { s with reports := .of m args (some span) :: s.reports } :=
  ⟨h.at_text.of_input rfl, h.pos_le, List.forall_mem_cons.mpr ⟨hd, h.reports⟩, h.names⟩

theorem rename (h : Locates text pos s) {names : Names} (hnames : names.Located text) :
    Locates text pos { s with names } :=
  ⟨h.at_text.of_input rfl, h.pos_le, h.reports, hnames⟩

/-- What is said about the token that comes next is located. -/
theorem reportNext (h : Locates text pos s) (hm : m.isMeasured = false) (args : List String) :
    Locates text pos ((Parser.reportNext m args).run s).2 :=
  (h.looks (looks_inspect s 1)).report (.token hm (h.at_text.ofToken_tokenAt 1))

theorem reportLimit (h : Locates text pos s) : Locates text pos (Parser.reportLimit.run s).2 := by
  obtain ⟨-, hrun⟩ | ⟨t, hlook, hrun⟩ := reportLimit_cases s
  · rwa [hrun]
  · rw [hrun]
    have hd : (Diagnostic.of .nestingTooDeep [] (some (s.input.tokenAt 1).span)).Located text :=
      .token rfl (h.at_text.ofToken_tokenAt 1)
    have ht := (h.looks hlook).report hd
    exact ⟨ht.at_text.of_input rfl, ht.pos_le, ht.reports, ht.names⟩

end Locates

end ParseState

/-! ## The property -/

/-- Whatever is said behind the position is located in the text. -/
def locating (text : String) (pos : Nat) : RunProperty :=
  fun _ s t => Locates text pos s → Locates text pos t

instance : (locating text pos).Allows l l' := ⟨id⟩

instance : (locating text pos).AllowsPhrases where
  refl _ _ := id
  trans h₁ h₂ h := h₂ (h₁ h)
  look _ s depth h := h.looks (looks_inspect s depth)
  read _ _ h := h.read
  next _ hm := ⟨fun _ _ args h => h.reportNext hm args⟩
  giveUp _ _ h := (h.reportLimit.looks (looks_inspect _ 1)).read
  nest hrun h := (hrun (h.looks (looks_nesting _ _))).looks (looks_nesting _ _)

namespace Parser

/-- From a state that locates what it says the parser leads to another, and `P` holds of what it
yields. -/
structure KeepsLocated (text : String) (pos : Nat) (P : α → Prop) (p : Parser α) : Prop where
  run : ∀ s, Locates text pos s → Locates text pos (p.run s).2 ∧ P (p.run s).1

namespace KeepsLocated

variable {p : Parser α} {P : α → Prop} {Q : β → Prop} {f : α → Parser β}

theorem has (h : p.KeepsLocated text pos P) :
    p.Has (locating text pos) l := ⟨fun s hs => (h.run s hs).1⟩

theorem of_has (h : p.Has (locating text pos) 0) : p.KeepsLocated text pos fun _ => True :=
  ⟨fun s hs => ⟨h.has s hs, trivial⟩⟩

theorem bind (hp : p.KeepsLocated text pos P) (hf : ∀ a, P a → (f a).KeepsLocated text pos Q) :
    (p >>= f).KeepsLocated text pos Q := by
  refine ⟨fun s hs => ?_⟩
  obtain ⟨ht, ha⟩ := hp.run s hs
  exact (hf _ ha).run _ ht

/-- Where it does not matter what the first part yields. -/
theorem behind [hp : p.Has (locating text pos) 0] (hf : ∀ a, (f a).KeepsLocated text pos Q) :
    (p >>= f).KeepsLocated text pos Q := bind (of_has hp) fun a _ => hf a

/-- Where it does not matter what the second part yields. -/
theorem before (hp : p.KeepsLocated text pos P)
    (hf : ∀ a, P a → (f a).Has (locating text pos) 0) :
    (p >>= f).Has (locating text pos) l :=
  has (bind hp fun a ha => of_has (hf a ha))

theorem pure {a : α} (h : P a) : (pure a : Parser α).KeepsLocated text pos P :=
  ⟨fun _ hs => ⟨hs, h⟩⟩

theorem ite {c : Prop} [Decidable c] {q : Parser α} (hp : p.KeepsLocated text pos P)
    (hq : q.KeepsLocated text pos P) : (if c then p else q).KeepsLocated text pos P := by
  split
  · exact hp
  · exact hq

/-- What a loop starts with and its rounds keep holds in the end. -/
theorem loop {I : σ → Prop} {guard : σ → Parser (γ ⊕ δ)}
    {body : σ → δ → Parser σ} {atEnd : γ}
    [hguard : ∀ a, (guard a).Has (locating text pos) 0] (ha : I a)
    (hbody : ∀ a g, I a → (body a g).KeepsLocated text pos I) :
    (loop atEnd guard body a).KeepsLocated text pos fun r => I r.1 := by
  refine ⟨fun s hs => ?_⟩
  change Locates text pos (loopFrom atEnd guard body a s).2 ∧
    I (loopFrom atEnd guard body a s).1.1
  fun_induction loopFrom atEnd guard body a s with
  | case1 a s b t h => exact ⟨(hguard a).of_run h hs, ha⟩
  | case2 a s g t h _ => exact ⟨(hguard a).of_run h hs, ha⟩
  | case3 a s g t h _ _ _ r ih =>
    have ht : Locates text pos t := (hguard a).of_run h hs
    obtain ⟨hr, hI⟩ := (hbody a g ha).run _ ht.read
    exact ih hI hr

theorem whileNext {I : σ → Prop} {guard : σ → Parser (Option δ)}
    {body : σ → δ → Parser σ} [∀ a, (guard a).Has (locating text pos) 0] (ha : I a)
    (hbody : ∀ a g, I a → (body a g).KeepsLocated text pos I) :
    (whileNext guard body a).KeepsLocated text pos I :=
  bind (loop ha hbody) fun _ h => pure h

/-- What holds of every item that can be read holds of all items. -/
theorem commaTail {item : Parser (Option α)} (has : ∀ a ∈ as, P a)
    (hitem : item.KeepsLocated text pos fun found => ∀ a ∈ found, P a) :
    (commaTail item as).KeepsLocated text pos fun as => ∀ a ∈ as, P a := by
  let I (state : List α × Bool) : Prop := ∀ a ∈ state.1, P a
  refine bind (whileNext (I := I) has fun state _ hstate => bind hitem fun found hfound => ?_)
    fun _ h => pure h
  cases found with
  | none => exact pure hstate
  | some a =>
    have ha : P a := hfound a rfl
    exact pure (List.forall_mem_append.mpr ⟨hstate, List.forall_mem_singleton.mpr ha⟩)

end KeepsLocated

/-! ## Tokens and names -/

theorem keepsLocated_peek : peek.KeepsLocated text pos (·.span.OfToken text) :=
  ⟨fun s hs => ⟨hs.looks (looks_inspect s 1), hs.at_text.ofToken_tokenAt 1⟩⟩

theorem keepsLocated_next : next.KeepsLocated text pos (·.span.OfToken text) := by
  refine ⟨fun s hs => ⟨hs.read, ?_⟩⟩
  have htoken := hs.at_text.ofToken_tokenAt 1
  rwa [← last_read] at htoken

theorem keepsLocated_lastStop : lastStop.KeepsLocated text pos fun stop => pos ≤ stop ∧
    stop ≤ text.length :=
  ⟨fun _ hs => ⟨hs, hs.pos_le, hs.at_text.place_le⟩⟩

theorem keepsLocated_name? :
    name?.KeepsLocated text pos fun name => ∀ n ∈ name, n.2.OfToken text := by
  unfold name?
  refine .bind keepsLocated_peek fun t ht => .ite (.behind fun _ => .pure ?_) (.pure nofun)
  rintro _ ⟨⟩
  exact ht

theorem keepsLocated_expectName :
    expectName.KeepsLocated text pos fun name => ∀ n ∈ name, n.2.OfToken text := by
  unfold expectName
  refine .bind keepsLocated_name? fun name hname => ?_
  cases name with
  | none => exact .behind fun _ => .pure nofun
  | some name => exact .pure hname

section

variable {inner : Parser TypeReference} [inner.Has (locating text pos) 0]

theorem keepsLocated_variableGroup {first : String × Span} (hfirst : first.2.OfToken text) :
    (variableGroup inner first).KeepsLocated text pos fun vs => ∀ v ∈ vs,
    v.span.OfToken text := by
  let I (names : List (String × Span)) : Prop := ∀ n ∈ names, n.2.OfToken text
  unfold variableGroup
  refine .bind (.whileNext (I := I) (List.forall_mem_singleton.mpr hfirst) ?_) fun names hnames =>
    .behind fun type => .pure fun v hv => ?_
  · exact fun names _ hnames => .bind keepsLocated_next fun t ht =>
      .pure (List.forall_mem_append.mpr ⟨hnames, List.forall_mem_singleton.mpr ht⟩)
  · obtain ⟨n, hn, rfl⟩ := List.mem_map.mp hv
    exact hnames n hn

theorem keepsLocated_variableGroupsAfter {first : String × Span} (hfirst : first.2.OfToken text) :
    (variableGroupsAfter inner first).KeepsLocated text pos fun vs => ∀ v ∈ vs,
    v.span.OfToken text := by
  let P (vs : List Variable) : Prop := ∀ v ∈ vs, v.span.OfToken text
  unfold variableGroupsAfter
  refine .bind (keepsLocated_variableGroup hfirst) fun group hgroup =>
    .bind (.commaTail (P := P) (List.forall_mem_singleton.mpr hgroup) ?_) fun groups hgroups =>
      .pure fun v hv => ?_
  · refine .bind keepsLocated_expectName fun name hname => ?_
    cases name with
    | none => exact .pure nofun
    | some name =>
      refine .bind (keepsLocated_variableGroup (hname name rfl)) fun vs hvs => .pure ?_
      rintro _ ⟨⟩
      exact hvs
  · obtain ⟨group, hgroup, hv⟩ := List.mem_flatten.mp hv
    exact hgroups group hgroup v hv

theorem keepsLocated_variableGroups :
    (variableGroups inner).KeepsLocated text pos fun vs => ∀ v ∈ vs, v.span.OfToken text := by
  unfold variableGroups
  refine .bind keepsLocated_expectName fun name hname => ?_
  cases name with
  | none => exact .pure nofun
  | some name => exact keepsLocated_variableGroupsAfter (hname name rfl)

end

/-! ## What is declared -/

theorem keepsLocated_getNames : getNames.KeepsLocated text pos (·.Located text) :=
  ⟨fun _ hs => ⟨hs, hs.names⟩⟩

theorem has_setNames {names : Names} (h : names.Located text) :
    (setNames names).Has (locating text pos) l := ⟨fun _ hs => hs.rename h⟩

/-- Names may change as long as what the loops have noted down does not. -/
theorem locates_modifyNames {f : Names → Names} (h : ∀ n, (f n).loops = n.loops) :
    (modifyNames f).Has (locating text pos) l :=
  keepsLocated_getNames.before fun n hn => has_setNames (by unfold Names.Located; rwa [h n])

theorem has_report (h : (Diagnostic.of m args (some span)).Located text) :
    (report m args span).Has (locating text pos) l := ⟨fun _ hs => hs.report h⟩

theorem Names.loops_set (n : Names) (h : Holding) (o : Owner) : (n.set h o).loops = n.loops := by
  cases o <;> rfl

theorem has_declareName (ctx : Context) {d : Declaration} (hd : d.span.OfToken text) :
    (declareName ctx d).Has (locating text pos) l := by
  unfold declareName
  split
  · infer_instance
  next owner _ =>
    refine keepsLocated_getNames.before fun n hn => ?_
    split
    next names hnames =>
      obtain ⟨scope, -, rfl⟩ := Option.map_eq_some_iff.mp hnames
      exact has_setNames (by unfold Names.Located; rwa [Names.loops_set])
    next => exact has_report (.token rfl hd)

theorem locates_declareAll (ctx : Context) {ds : List Declaration}
    (h : ∀ d ∈ ds, d.span.OfToken text) : (declareAll ctx ds).Has (locating text pos) l := by
  induction ds with
  | nil => unfold declareAll; infer_instance
  | cons d ds ih =>
    obtain ⟨hd, hds⟩ := List.forall_mem_cons.mp h
    have : (declareName ctx d).Has (locating text pos) l := has_declareName ctx hd
    have := ih hds
    unfold declareAll
    infer_instance

instance : (variablesStatement word ctx o).Has (locating text pos) l := by
  unfold variablesStatement
  refine .bind fun access => keepsLocated_variableGroups.before fun vs hvs => ?_
  have : (declareAll ctx (vs.map .variable)).Has (locating text pos) 0 :=
    locates_declareAll ctx (by simpa [Declaration.span])
  infer_instance

instance : (constant levels ctx).Has (locating text pos) l := by
  unfold constant
  refine keepsLocated_expectName.before fun name hname => ?_
  cases name with
  | none => infer_instance
  | some name =>
    obtain ⟨name, span⟩ := name
    have (type : Option TypeReference) (value : Option Expression) :
        (declareName ctx (.constant ⟨name, span, type, value⟩)).Has (locating text pos) 0 :=
      has_declareName ctx (hname _ rfl)
    refine .bind fun found => ?_
    dsimp only
    split <;> infer_instance

instance : (constantsStatement levels word ctx o).Has (locating text pos) l := by
  unfold constantsStatement; infer_instance

instance : (typeName ctx).Has (locating text pos) l := by
  unfold typeName
  refine keepsLocated_expectName.before fun name hname => ?_
  cases name with
  | none => infer_instance
  | some name =>
    obtain ⟨name, span⟩ := name
    have (type : TypeReference) :
        (declareName ctx (.type ⟨name, span, type⟩)).Has (locating text pos) 0 :=
      has_declareName ctx (hname _ rfl)
    dsimp only
    infer_instance

instance : (typesStatement word ctx o).Has (locating text pos) l := by
  unfold typesStatement; infer_instance

/-! ## Cursors -/

theorem located_claim? {c : Cursor} (hc : c.span.OfToken text) {ls ls' : List LoopCursor}
    (hls : ∀ l ∈ ls, ∀ c ∈ l.redeclared, c.span.OfToken text)
    (h : Names.claim? c ls = some ls') :
    ∀ l ∈ ls', ∀ c ∈ l.redeclared, c.span.OfToken text := by
  induction ls generalizing ls' with
  | nil => cases h
  | cons l ls ih =>
    obtain ⟨hl, hls⟩ := List.forall_mem_cons.mp hls
    unfold Names.claim? at h
    split at h
    · cases h
      have hadded : ∀ c' ∈ l.redeclared ++ [c], c'.span.OfToken text :=
        List.forall_mem_append.mpr ⟨hl, List.forall_mem_singleton.mpr hc⟩
      exact List.forall_mem_cons.mpr ⟨hadded, hls⟩
    · obtain ⟨ms, hms, rfl⟩ := Option.map_eq_some_iff.mp h
      exact List.forall_mem_cons.mpr ⟨hl, ih hls hms⟩

theorem located_bindCursor? {c : Cursor} (hc : c.span.OfToken text) {n n' : Names}
    (hn : n.Located text) (h : n.bindCursor? owner c = some n') : n'.Located text := by
  unfold Names.bindCursor? at h
  split at h
  next loops hloops =>
    cases h
    exact located_claim? hc hn hloops
  next =>
    obtain ⟨o, -, rfl⟩ := Option.map_eq_some_iff.mp h
    unfold Names.Located
    rwa [Names.loops_set]

theorem has_bindCursor (ctx : Context) {name : Option (String × Span)} (kind : CursorKind)
    (hname : ∀ n ∈ name, n.2.OfToken text) :
    (bindCursor ctx name kind).Has (locating text pos) l := by
  unfold bindCursor
  cases name with
  | none => infer_instance
  | some name =>
    obtain ⟨name, span⟩ := name
    have hspan : span.OfToken text := hname _ rfl
    refine keepsLocated_getNames.before fun n hn => ?_
    split
    next names hnames => exact has_setNames (located_bindCursor? hspan hn hnames)
    next => exact has_report (.token rfl hspan)

instance : (prepareStatement levels ctx o).Has (locating text pos) l := by
  unfold prepareStatement
  refine keepsLocated_expectName.before fun name hname => ?_
  have : (bindCursor ctx name .prepared).Has (locating text pos) 0 := has_bindCursor ctx _ hname
  infer_instance

instance : (declareStatement levels ctx o).Has (locating text pos) l := by
  unfold declareStatement
  refine keepsLocated_expectName.before fun name hname => ?_
  have : (bindCursor ctx name .declared).Has (locating text pos) 0 := has_bindCursor ctx _ hname
  infer_instance

theorem has_reportCursors {cs : List Cursor} (h : ∀ c ∈ cs, c.span.OfToken text) :
    (reportRedeclared cs).Has (locating text pos) l := by
  induction cs with
  | nil => unfold reportRedeclared; infer_instance
  | cons c cs ih =>
    obtain ⟨hc, hcs⟩ := List.forall_mem_cons.mp h
    have : (report .cursorRedeclared [c.name] c.span).Has (locating text pos) l :=
      has_report (.token rfl hc)
    have := ih hcs
    unfold reportRedeclared
    infer_instance

/-- Behind a loop over a cursor it is known where it is redeclared. -/
theorem keepsLocated_insideCursorLoop (cursor : String) {p : Parser α}
    [p.Has (locating text pos) 0] :
    (insideCursorLoop cursor p).KeepsLocated text pos fun r => ∀ c ∈ r.2,
    c.span.OfToken text := by
  unfold insideCursorLoop modifyNames
  refine .bind (.bind keepsLocated_getNames fun n hn => .of_has (has_setNames ?_)) fun _ _ =>
    .behind fun a => .bind keepsLocated_getNames fun n hn =>
      .bind (.of_has (has_setNames fun l hl => hn l (List.mem_of_mem_tail hl))) fun _ _ => .pure ?_
  · exact List.forall_mem_cons.mpr ⟨nofun, hn⟩
  · intro c hc
    cases hloops : n.loops with
    | nil => simp [hloops] at hc
    | cons l ls => exact hn l (by simp [hloops]) c (by simpa [hloops] using hc)

instance {p : Parser α} [p.Has (locating text pos) 0] :
    (insideBlock p).Has (locating text pos) l := by
  unfold insideBlock
  refine keepsLocated_getNames.before fun outer houter => ?_
  have : (setNames { outer with block := {}, loops := [] }).Has (locating text pos) 0 :=
    has_setNames nofun
  refine .bind fun _ => .bind fun a => keepsLocated_getNames.before fun inner _ => ?_
  have : (setNames { inner with block := outer.block, loops := outer.loops }).Has
      (locating text pos) 0 := has_setNames houter
  infer_instance

end Parser

end FourGL
