import FourGL.Proofs.Grammar.Rereading
import FourGL.Proofs.Grammar.TypeDepth
import FourGL.Proofs.Tree.Placeholders

/-!
# How deep the types of a module are

The types that a module holds are as deep as its text makes them: they have no more levels than
there are words in it that open types, and there is no other limit. That the nesting is too deep is
said of statements and expressions only.
-/

namespace FourGL

open FourGL.Parser FourGL.ParseState

/-! ## The bound -/

/-- No type that the node or a node below it holds has more levels. -/
def Node.TypesWithin (limit : Nat) (root : Node) : Prop :=
  ∀ path n, root.Reaches path n → ∀ d ∈ n.kind.held, d.TypeWithin limit

theorem NodesRead.typesWithin (h : NodesRead owners s ns t) (hs : s.openers ≤ limit)
    {n : Node} (hn : n ∈ ns)
    (hreach : n.Reaches path m) : ∀ d ∈ m.kind.declarations, d.TypeWithin limit := by
  obtain ⟨inner, s', t', hbefore, hnodeRead, -, -⟩ := h.sub hn hreach
  obtain ⟨u, hlook, hreads⟩ := hnodeRead.read
  have hopening : ParseState.Flows s u.read := hbefore.trans (hlook.flows.trans (.read u))
  exact hreads.typesWithin (hopening.later.openers_le.trans hs)

/-- What is collected in a module is declared in it, so that it is as deep as that. -/
theorem NodesReadIn.typesWithin_module {n : Node}
    (h : NodesReadIn text ⟨some .module, some .module⟩ (.ofText mode text) n.children t)
    (hkind : n.kind = .module (t.nameState.scope .module) t.nameState.globals functions imports) :
    n.TypesWithin (ParseState.ofText mode text).openers := by
  have hown {path : List Node} {m : Node} (hreach : n.Reaches path m) :
      ∀ d ∈ m.kind.declarations, d.TypeWithin (ParseState.ofText mode text).openers := by
    obtain ⟨-, rfl⟩ | ⟨c, hc, path', hreach, -⟩ := hreach.root_or_below
    · rw [hkind]
      exact nofun
    · exact h.nodesRead.typesWithin (Nat.le_refl _) hc hreach
  intro path m hreach d hd
  have hgathers : m.Gathers := by
    obtain ⟨-, rfl⟩ | ⟨c, hc, path', hreach', -⟩ := hreach.root_or_below
    · exact h.gathers_module hkind
    · exact h.nodesRead.gathers hc hreach'
  obtain ⟨inner, declarer, hbelow, hd⟩ := hgathers d hd
  exact hown (hreach.trans hbelow) d hd

theorem ParseState.openers_ofText (mode : ScanMode) (text : String) :
    (ParseState.ofText mode text).openers = (tokens .default text).countP (·.kind.opensType) := by
  rw [← Lexeme.map_token_ofText mode text, List.countP_map]
  rfl

/-! ## Arrays in arrays -/

/-- The keyword as it is written. -/
def Keyword.word (k : Keyword) : Word := ⟨.keyword k, k.text⟩

/-- An array of arrays with so many levels in all. -/
def arrayWords : (levels : Nat) → List Word
  | 0 => [Keyword.INT.word]
  | levels + 1 => Keyword.DYNAMIC.word :: Keyword.ARRAY.word :: Keyword.OF.word :: arrayWords levels

namespace Parser

/-- Arrays are read one inside the other, however many there are. -/
theorem consumes_arrays (levels : Nat) (ws : List Word) :
    typeReference.Consumes l (arrayWords levels ++ ws) ws (·.depth = levels) := by
  have hof {us : List Word} {P : TypeReference → Prop}
      (h : (typeOf typeReference).Consumes l us ws P) : typeReference.Consumes l us ws P := by
    intro s hs hleft
    rw [typeReference_run]
    exact h s hs hleft
  induction levels with
  | zero =>
    refine hof (.bind consumes_peekKind ?_)
    rintro _ rfl
    refine .bind consumes_peek fun t ht => ?_
    obtain ⟨hkind, -⟩ := Word.mk.inj ht
    rw [hkind]
    exact .bind consumes_next fun _ _ =>
      .bind (P := fun _ => True) (.pure trivial) fun _ _ => .pure rfl
  | succ levels ih =>
    refine hof (.bind consumes_peekKind ?_)
    rintro _ rfl
    refine .bind consumes_next fun _ _ => ?_
    refine .bind (consumes_expect _) fun _ _ => ?_
    refine .bind (consumes_optional_not (by decide : Kind.keyword .OF ≠ .keyword .WITH)) ?_
    rintro _ rfl
    refine .bind (P := fun _ => True) (.pure trivial) fun _ _ => ?_
    refine .bind (consumes_expect _) fun _ _ => ?_
    exact .bind ih fun type htype => .pure (congrArg (· + 1) htype)

theorem consumes_commaTail_stop {item : Parser (Option α)} (hws : kindOf ws ≠ .mark .comma) :
    (commaTail item as).Consumes l ws ws (· = as) := by
  have hfollows : (commaFollows (as, true)).Consumes l ws ws (· = none) := by
    refine .bind (consumes_nextIs _) ?_
    rintro _ rfl
    rw [if_neg (by simpa using hws)]
    exact .pure rfl
  refine .bind (consumes_whileNext_stop (P := (· = (as, true))) hfollows rfl) ?_
  rintro _ rfl
  exact .pure rfl

/-- One name and its type make up the only group. -/
theorem consumes_variableGroups {inner : Parser TypeReference} {P : TypeReference → Prop}
    (hinner : inner.Consumes l ws [] P) (hws : kindOf ws ≠ .mark .comma) :
    (variableGroups inner).Consumes l (⟨.identifier, name⟩ :: ws) []
      fun vs => ∃ v, vs = [v] ∧ P v.type := by
  have hname : expectName.Consumes l (⟨.identifier, name⟩ :: ws) ws fun found =>
      found.isSome = true := by
    refine .bind (consumes_name? rfl) ?_
    rintro _ ⟨span, rfl⟩
    exact .pure rfl
  have hbefore : (nextBeforeName (.mark .comma)).Consumes l ws ws (· = false) := by
    refine .bind (consumes_nextIs _) ?_
    rintro _ rfl
    rw [if_neg (by simpa using hws)]
    exact .pure rfl
  have hnoName : (when (nextBeforeName (.mark .comma))).Consumes l ws ws (· = none) := by
    refine .bind hbefore ?_
    rintro _ rfl
    exact .pure rfl
  have hgroup (first : String × Span) :
      (variableGroup inner first).Consumes l ws [] fun vs => ∃ v, vs = [v] ∧ P v.type :=
    .bind (consumes_whileNext_stop (P := (· = [first])) hnoName rfl) fun names hnames =>
      .bind hinner fun type htype =>
        .pure ⟨⟨first.1, first.2, type⟩, by rw [hnames]; rfl, htype⟩
  refine .bind hname fun found hfound => ?_
  obtain ⟨first, rfl⟩ := Option.isSome_iff_exists.mp hfound
  refine .bind (hgroup first) ?_
  rintro _ ⟨v, rfl, hv⟩
  refine .bind (consumes_commaTail_stop Kind.noConfusion) ?_
  rintro _ rfl
  exact .pure ⟨v, rfl, hv⟩

/-- A declaration of one name, which is free, is read and nothing is reported. -/
theorem run_variablesStatement (ctx : Context) {owner : Owner} (howner : ctx.vars = some owner)
    (hs : Faces s (⟨.identifier, name⟩ :: arrayWords levels))
    (hlimit : s.nesting.depth ≤ maxNesting)
    (hscope : s.nameState.scope owner = {}) (o : Opening) :
    ∃ n v t, (variablesStatement .DEFINE ctx o).run s = (n, t) ∧
      n.kind = .vars .unstated [v] ∧
      v.type.depth = levels ∧ Faces t [] ∧ t.reports = s.reports ∧
        t.nesting.depth = s.nesting.depth := by
  have hwords : kindOf (arrayWords levels) ≠ .mark .comma := by
    cases levels <;> exact Kind.noConfusion
  have harrays := consumes_arrays (l := 0) levels []
  rw [List.append_nil] at harrays
  obtain ⟨⟨v, hv, hdepth⟩, hfaces, hreports, hnesting⟩ :=
    consumes_variableGroups harrays hwords s hs hlimit
  obtain ⟨vs, t, hgroups⟩ : ∃ vs t, (variableGroups typeReference).run s =
      (vs, t) := ⟨_, _, rfl⟩
  rw [hgroups] at hv hfaces hreports hnesting
  obtain rfl : vs = [v] := hv
  have hfree : (t.names.get owner).scope = {} := by
    have hnameState : t.nameState = s.nameState := KeepsNames.of_run inferInstance hgroups
    exact (congrFun (congrArg NameState.scope hnameState) owner).trans hscope
  have hdeclare : ∃ names, (declareAll ctx [.variable v]).run t = ((), { t with names }) := by
    have hnames : ∃ names, t.names.declare? owner (.variable v) = some names := by
      rw [Names.declare?, hfree]
      exact ⟨_, rfl⟩
    obtain ⟨names, hnames⟩ := hnames
    refine ⟨names, ?_⟩
    rw [declareAll, declareName, howner, run_bind, run_bind,
      show getNames.run t = (t.names, t) from rfl, hnames]
    rfl
  obtain ⟨names, hdeclare⟩ := hdeclare
  have hrun : (variablesStatement .DEFINE ctx o).run s =
      (closeStatement o (.vars .unstated [v])).run { t with names } := by
    rw [variablesStatement, run_bind,
      show (accessOf .DEFINE).run s = (.unstated, s) from rfl, run_bind, hgroups, run_bind,
      List.map_singleton, hdeclare]
  exact ⟨_, v, _, hrun, rfl, hdepth, ⟨hfaces.words_eq, hfaces.plain⟩, hreports, hnesting⟩

theorem consumes_nestingGuard_define :
    (nestingGuard false (.root .latest) .members).Consumes (l + 1) (Keyword.DEFINE.word :: ws)
      (Keyword.DEFINE.word :: ws) fun found => ∃ errors, found =
      .inr (.form .vars .DEFINE, errors) := by
  have hend : (stopAtEnd? (.root .latest) none).Consumes (l + 1) (Keyword.DEFINE.word :: ws)
      (Keyword.DEFINE.word :: ws) (· = none) := by
    refine .bind consumes_peekKind ?_
    rintro _ rfl
    exact .pure rfl
  have hstop : (stopAtToken? (.root .latest)).Consumes (l + 1) (Keyword.DEFINE.word :: ws)
      (Keyword.DEFINE.word :: ws) (· = none) := by
    refine .bind consumes_peekKind ?_
    rintro _ rfl
    exact Consumes.pure rfl
  have hchoose : (chooseNext .latest false Production.members).Consumes (l + 1)
    (Keyword.DEFINE.word :: ws)
      (Keyword.DEFINE.word :: ws) (· = .form .vars .DEFINE) := by
    refine .bind consumes_peekKind ?_
    rintro _ rfl
    exact Consumes.pure rfl
  refine .bind consumes_limitReached ?_
  rintro _ rfl
  refine .bind hend ?_
  rintro _ rfl
  refine .bind hstop ?_
  rintro _ rfl
  refine .bind (P := fun _ => True) (fun s hs _ => ⟨trivial, hs, rfl, rfl⟩) fun errors _ => ?_
  refine .bind hchoose ?_
  rintro _ rfl
  exact .pure ⟨errors, rfl⟩

theorem consumes_nestingGuard_end (bottom : Bool) (ctx : Context) (region : Region) :
    (nestingGuard bottom ctx region).Consumes (l + 1) [] [] (· = .inl .endOfFile) := by
  have hend : (stopAtEnd? ctx region.terminator).Consumes (l + 1) [] [] (· = some .endOfFile) := by
    refine .bind consumes_peekKind ?_
    rintro _ rfl
    exact .pure rfl
  refine .bind consumes_limitReached fun _ _ => ?_
  refine .bind hend ?_
  rintro _ rfl
  exact .pure rfl

/-- A statement that leaves or repeats no block makes one round. -/
theorem run_bodyStep_form {parse : FormParser} {ctx : Context} {region : Region} {p : Progress}
    (hrun : (parse f word ctx ⟨s.input.last, errors⟩).run
      { s with nesting := s.nesting.enter } = (n, t))
    (hjump : jump? n.kind = none) :
    (bodyStep (some parse) ctx region p (.form f word, errors)).run s =
      (⟨n.insert p.nodes, false⟩, { t with nesting := t.nesting.leave }) := by
  have hcheck : checkJump ctx n = pure () := by rw [checkJump, hjump]
  let statement : Parser Node := do
    let n ← parse f word ctx ⟨s.input.last, errors⟩
    checkJump ctx n
    return n
  have hstatement : statement.run { s with nesting := s.nesting.enter } = (n, t) := by
    simp only [statement, run_bind, hrun, hcheck, run_pure]
  change (let r := statement.run { s with nesting := s.nesting.enter }
    (Progress.mk (r.1.insert p.nodes) false, { r.2 with nesting := r.2.nesting.leave })) = _
  rw [hstatement]

/-- A body of one statement, behind which it stops. -/
theorem run_bodyWith_form (parse : FormParser) {ctx : Context} {region : Region}
    (hguard : (nestingGuard false ctx region).run s = (.inr (.form f word, errors), u))
    (hrest : u.input.rest ≠ [])
    (hrun : (parse f word ctx ⟨u.read.input.last, errors⟩).run
      { u.read with nesting := u.read.nesting.enter } = (n, v))
    (hjump : jump? n.kind = none)
    (hstop : (nestingGuard false ctx region).run { v with nesting := v.nesting.leave } =
      (.inl stop, t)) :
    (bodyWith (some parse) ctx region).run s = (([n], stop), t) := by
  let rounds : Progress → Parser (Progress × Stop) :=
    loop .endOfFile (fun _ => nestingGuard false ctx region) (bodyStep (some parse) ctx region)
  have hloop : (rounds {}).run s = ((⟨[n], false⟩, stop), t) :=
    calc (rounds {}).run s
      _ = (rounds ⟨[n], false⟩).run { v with nesting := v.nesting.leave } := by
        have hround : (rounds {}).run s = _ := run_loop_round hguard hrest
        rwa [run_bodyStep_form (s := u.read) hrun hjump] at hround
      _ = ((⟨[n], false⟩, stop), t) := run_loop_stop hstop
  change (let r := (rounds {}).run s; ((r.1.1.nodes, r.1.2), r.2)) = _
  rw [hloop]

/-- A module of one declaration is read up to its end and nothing is reported. -/
theorem run_bodyAt_define
    (hs : Faces s (Keyword.DEFINE.word :: ⟨.identifier, name⟩ :: arrayWords levels))
    (htop : s.nesting.depth = 0) (hscope : s.nameState.scope .module = {}) :
    ∃ n v t, (bodyAt maxNesting (.root .latest) .members).run s = (([n], .endOfFile), t) ∧
      n.kind = .vars .unstated [v] ∧ v.type.depth = levels ∧ Faces t [] ∧
      t.reports = s.reports := by
  obtain ⟨⟨errors, hfound⟩, hfaces, hreports, hnesting⟩ :=
    consumes_nestingGuard_define (l := 0) s hs (by rw [htop]; decide)
  obtain ⟨found, u, hguard⟩ : ∃ found u,
    (nestingGuard false (.root .latest) .members).run s = (found, u) := ⟨_, _, rfl⟩
  rw [hguard] at hfound hfaces hreports hnesting
  obtain rfl : found = .inr (.form .vars .DEFINE, errors) := hfound
  have hlook : Looks s u := by
    rw [run_nestingGuard] at hguard
    obtain ⟨-, t, hchoice, ⟨hdeep, -⟩ | ⟨-, rfl⟩⟩ := chooses_of_bodyGuard hguard
    · cases hdeep
    · exact hchoice.looks
  have hrest : u.input.rest ≠ [] := by
    obtain ⟨l, ls, hrest, -⟩ := hfaces.rest_eq
    rw [hrest]
    exact List.cons_ne_nil l ls
  -- The declaration is read one level deeper.
  have hinside : Looks u.read { u.read with nesting := u.read.nesting.enter } := looks_nesting _ _
  have henter : u.read.nesting.enter.depth = 1 := congrArg (· + 1) (hnesting.trans htop)
  have hscope' : u.nameState.scope .module = {} :=
    (congrFun (congrArg NameState.scope hlook.nameState) .module).trans hscope
  obtain ⟨n, v, w, hrun, hkind, hdepth, hend, hquiet, hnesting'⟩ :=
    run_variablesStatement (.root .latest) rfl (hfaces.read.looks hinside)
      (by rw [henter]; decide) hscope' ⟨u.read.input.last, errors⟩
  have hleave : Looks w { w with nesting := w.nesting.leave } := looks_nesting _ _
  have hbehind : w.nesting.leave.depth = 0 := congrArg (· - 1) (hnesting'.trans henter)
  obtain ⟨hstop, hfaces', hreports', -⟩ :=
    consumes_nestingGuard_end (l := 0) false (.root .latest)
    .members _ (hend.looks hleave) (by rw [hbehind]; decide)
  obtain ⟨stop, t, hguard'⟩ : ∃ stop t, (nestingGuard false (.root .latest) .members).run
    { w with nesting := w.nesting.leave } = (stop, t) := ⟨_, _, rfl⟩
  rw [hguard'] at hstop hfaces' hreports'
  obtain rfl : stop = .inl .endOfFile := hstop
  refine ⟨n, v, t, ?_, hkind, hdepth, hfaces', hreports'.trans (hquiet.trans hreports)⟩
  exact run_bodyWith_form (formWith 199 (bodyAt 199)) hguard hrest hrun (by rw [hkind]; rfl) hguard'

end Parser

/-! ## A text of arrays -/

namespace Piece

/-- The words with a blank between each two. -/
def spaced : List Word → List Piece
  | [] => []
  | [w] => [word w]
  | w :: v :: ws => word w :: blank :: spaced (v :: ws)

@[simp] theorem words_spaced (ws : List Word) : words (spaced ws) = ws := by
  fun_induction spaced ws with
  | case1 => rfl
  | case2 => rfl
  | case3 w v ws ih => rw [words_word, words_blank, ih]

end Piece

theorem Kind.endsBefore_blank (k : Kind) : k.endsBefore ' ' = true := by
  cases k with
  | mark m => cases m <;> rfl
  | _ => rfl

theorem legible_spaced (h : ∀ w ∈ ws, w.Spelled) : Legible (Piece.spaced ws) := by
  fun_induction Piece.spaced ws with
  | case1 => exact .nil
  | case2 w => exact .word (h w (List.mem_cons_self ..)) (.nil _) .nil
  | case3 w v ws ih =>
    obtain ⟨hw, hws⟩ := List.forall_mem_cons.mp h
    have hv : ∃ ps, Piece.spaced (v :: ws) = .word v :: ps := by cases ws <;> exact ⟨_, rfl⟩
    obtain ⟨ps, hps⟩ := hv
    have hlegible := ih hws
    rw [hps] at hlegible ⊢
    exact .word hw (.cons (Kind.endsBefore_blank _) _) (.blank hlegible)

/-- Words that a text is scanned into without an error are spelled. -/
theorem spelled_of_scanned {ws : List Word} (text : String)
    (hscanned : ∀ w ∈ ws, (Lexeme.ofText .default text).any (fun l => l.token.kind == w.kind &&
      l.token.text == w.text && Diagnostic.errorCount l.issues == 0) = true)
    (hkinds : ∀ w ∈ ws, w.kind ≠ .endOfFile ∧ w.kind.isMark = false) :
    ∀ w ∈ ws, w.Spelled := by
  intro w hw
  obtain ⟨l, hl, hsame⟩ := List.any_eq_true.mp (hscanned w hw)
  simp only [Bool.and_eq_true, beq_iff_eq] at hsame
  obtain ⟨⟨hkind, htext⟩, herrors⟩ := hsame
  obtain rfl : l.token.word = w := by rw [Token.word, hkind, htext]
  obtain ⟨hend, hmark⟩ := hkinds _ hw
  exact Lexeme.spelled hl hend hmark herrors

/-- The words of a declaration of `a` as an array of arrays. -/
def declarationWords (levels : Nat) : List Word :=
  Keyword.DEFINE.word :: ⟨.identifier, "a"⟩ :: arrayWords levels

theorem spelled_declarationWords (levels : Nat) : ∀ w ∈ declarationWords levels, w.Spelled := by
  have hspelled : ∀ w ∈ declarationWords 1, w.Spelled :=
    spelled_of_scanned "define a dynamic array of int" (by decide +kernel) (by decide)
  have hsubset (levels : Nat) : arrayWords levels ⊆ arrayWords 1 := by
    induction levels with
    | zero => simp [arrayWords]
    | succ levels ih => simpa [arrayWords, List.cons_subset] using ih
  exact fun w hw => hspelled w (List.cons_subset_cons _
    (List.cons_subset_cons _ (hsubset levels)) hw)

/-- The text of a declaration of `a` as an array of arrays. -/
def declarationText (levels : Nat) : String :=
  String.ofList (Piece.text (Piece.spaced (declarationWords levels)))

/-- Where nothing is wrong with a text and nothing has been reported, there is nothing to say. -/
theorem ParseState.Faces.diagnostics_eq_nil (h : Faces (.ofText mode text) ws)
    (hlater : Later (.ofText mode text) s) (hreports : s.reports = []) : s.diagnostics = [] := by
  obtain ⟨ts, htokensRead⟩ := hlater
  have hissues : s.input.issues = [] := by
    refine List.flatMap_eq_nil_iff.mpr fun l hl => ?_
    have hl := List.mem_of_mem_take hl
    rw [htokensRead.stream_eq] at hl
    exact (h.plain l hl).1
  rw [ParseState.diagnostics, hissues, hreports]
  exact List.mergeSort_nil

/-- As many arrays as there may be are read and nothing is reported. -/
theorem parseModule_arrays (levels : Nat) :
    (parseModule (declarationText levels) {}).diagnostics = [] ∧
      ∃ v, ∃ c ∈ (parseModule (declarationText levels) {}).module.children,
        c.kind = .vars .unstated [v] ∧ v.type.depth = levels := by
  have hfaces : Faces (.ofText .default (declarationText levels)) (declarationWords levels) := by
    have h := faces_ofText (legible_spaced (spelled_declarationWords levels)) .default
    rwa [Piece.words_spaced] at h
  obtain ⟨n, v, t, hrun, hkind, hdepth, -, hquiet⟩ := run_bodyAt_define hfaces rfl rfl
  have hbody : ParseState.Flows (.ofText .default (declarationText levels)) t :=
    Flows.of_run inferInstance hrun
  have hparsed : (parseModule (declarationText levels) {}).module.children = [n] ∧
      (parseModule (declarationText levels) {}).diagnostics = t.read.diagnostics := by
    let r := (bodyAt maxNesting (.root .latest) .members).run
      (.ofText .default (declarationText levels))
    change r.1.1 = [n] ∧ r.2.read.diagnostics = t.read.diagnostics
    rw [show r = _ from hrun]
    exact ⟨rfl, rfl⟩
  rw [hparsed.1, hparsed.2]
  exact ⟨hfaces.diagnostics_eq_nil (hbody.later.trans (.read t)) hquiet,
    v, n, List.mem_singleton_self n, hkind, hdepth⟩

-- What the text looks like for two levels.
example : declarationText 2 = "define a dynamic array of dynamic array of int" := by decide

/-- The types of a module nest as deep as the words of its text that open types: they have at most
as many levels, and no number of levels is too many, nor does anything have to be reported about
them. -/
theorem type_depth_unlimited (text : String) (options : ParseOptions) (limit : Nat) :
    (parseModule text options).module.TypesWithin
        ((tokens .default text).countP (·.kind.opensType)) ∧
      ∃ deeper, (parseModule deeper {}).diagnostics = [] ∧
        ¬ (parseModule deeper {}).module.TypesWithin limit := by
  constructor
  · obtain ⟨s, hnodesReadIn, hkind, -⟩ := nodesRead_parseModule text options
    rw [← openers_ofText options.mode text]
    exact hnodesReadIn.typesWithin_module hkind
  · obtain ⟨hquiet, v, c, hc, hkind, hdepth⟩ := parseModule_arrays (limit + 1)
    refine ⟨declarationText (limit + 1), hquiet, fun hwithin => ?_⟩
    have hheld : Declaration.variable v ∈ c.kind.held := by
      rw [hkind]
      exact List.mem_append_left _ (List.mem_singleton_self _)
    have hle : v.type.depth ≤ limit :=
      hwithin _ c (.child .root hc) _ hheld v.type (List.mem_singleton_self _)
    omega

end FourGL
