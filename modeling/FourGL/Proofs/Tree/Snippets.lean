import FourGL.Proofs.Grammar.MirroredBlocks
import FourGL.Proofs.Token.Lines
import FourGL.Proofs.Tree.TypeDepth

/-!
# Statements as they stand in a function

Statements that are parsed without an error as a text by themselves are parsed alike as the body of
a function: its node has the same nodes as children, and the same names in its scope, further to the
right.
-/

namespace FourGL

open FourGL.Parser FourGL.ParseState FourGL.Scanner

variable {k : Nat}

/-! ## The larger text -/

/-- Letters make up a word before whatever does not go on with it. -/
theorem Word.clear_letters {c : Char} {cs r : List Char} {kind : Kind} (hname : startsName c = true)
    (hcs : ∀ d ∈ cs, continuesName d = true) (hr : AtHead (!continuesName ·) r)
    (htrivia : Element.trivia? c (cs ++ r) = none)
    (hword : Element.wordKind (String.ofList (c :: cs)) = kind) :
    Word.Clear ⟨kind, String.ofList (c :: cs)⟩ c cs r where
  text_eq := String.toList_ofList
  trivia_eq := htrivia
  sound := by
    rw [← hword, Element.significant_of_startsName hname]
    exact Element.word_append c hcs hr

theorem Scanner.all_nil (pos : Nat) :
    all ⟨.default, pos, [], false⟩ = [finish pos false []] := by
  rw [all_default, skipTrivia]
  rfl

/-- The word that begins the function, and the last one. -/
theorem clear_function (hr : AtHead (!continuesName ·) r) :
    Word.Clear ⟨.keyword .FUNCTION, "FUNCTION"⟩ 'F' "UNCTION".toList r :=
  Word.clear_letters (by decide) (List.all_eq_true.mp (by decide)) hr rfl (by decide +kernel)

/-- The line that ends the function. -/
def lastLine : List Char := "END FUNCTION".toList

theorem resume_lastLine {t : Skipped} (hrest : t.rest = lastLine) (hbreak : t.sawBreak = true)
    (hissues : Diagnostic.errorCount t.issues = 0) :
    ∃ e w f : Scanned, resume t = [e, w, f] ∧ e.token.kind = .keyword .END ∧
      e.token.lineBreakBefore = true ∧ w.token.kind = .keyword .FUNCTION ∧
      f.token.kind = .endOfFile ∧ ∀ x ∈ [e, w, f], Diagnostic.errorCount x.issues = 0 := by
  have hend : Word.Clear ⟨.keyword .END, "END"⟩ 'E' "ND".toList " FUNCTION".toList :=
    Word.clear_letters (by decide) (List.all_eq_true.mp (by decide)) (.cons (by decide) _) rfl
      (by decide +kernel)
  have hfunction := clear_function (.nil _)
  obtain ⟨e, he, hline, -, -, hresume⟩ := resume_word hend hrest
  obtain ⟨w, hw, -, -, -, hall⟩ := all_word hfunction (t.pos + 3 + 1)
  rw [all_nil] at hall
  have hblank := (all_blank hfunction.trivia_eq (t.pos + 3)).trans hall
  refine ⟨⟨e, t.issues⟩, ⟨w, []⟩, _,
    hresume.trans (congrArg (⟨e, t.issues⟩ :: ·) hblank),
    congrArg Word.kind he, hline.trans hbreak, congrArg Word.kind hw, rfl, ?_⟩
  simp only [List.mem_cons, List.not_mem_nil, or_false, forall_eq_or_imp, forall_eq]
  exact ⟨hissues, rfl, rfl⟩

/-- The tokens of the line that begins the function. -/
structure FirstLine (w n l r : Token) : Prop where
  word : w.kind = .keyword .FUNCTION
  name : n.kind = .identifier
  text_eq : n.text = "f"
  span_eq : n.span = ⟨9, 1⟩
  openParen : l.kind = .mark .openParen
  closeParen : r.kind = .mark .closeParen

/-- The line that begins the function is scanned into its tokens, and the text goes on behind it. -/
theorem all_firstLine (cs : List Char) :
    ∃ w n l r : Token, FirstLine w n l r ∧
      all ⟨.default, 0, "FUNCTION f()\n".toList ++ cs, false⟩ =
        ⟨w, []⟩ :: ⟨n, []⟩ :: ⟨l, []⟩ :: ⟨r, []⟩ :: resume
          (skipTrivia 13 cs true []) := by
  have hmark (m : Mark) (c : Char) (hm : (m = .openParen ∧ c = '(') ∨
    m = .closeParen ∧ c = ')')
      (r : List Char) : Word.Clear ⟨.mark m, String.ofList [c]⟩ c [] r := by
    obtain ⟨rfl, rfl⟩ | ⟨rfl, rfl⟩ := hm <;>
      exact ⟨String.toList_ofList, rfl, by cases r <;> exact ⟨rfl, rfl, rfl⟩⟩
  have hname : Word.Clear ⟨.identifier, "f"⟩ 'f' [] ("()\n".toList ++ cs) :=
    Word.clear_letters (by decide) nofun (.cons (by decide) _) rfl (by decide +kernel)
  have hfunction : Word.Clear _ 'F' "UNCTION".toList (' ' :: 'f' :: ("()\n".toList ++ cs)) :=
    clear_function (.cons (by decide) _)
  obtain ⟨w, hw, -, -, -, hall₁⟩ := all_word hfunction 0
  obtain ⟨n, hn, -, hstart, hstop, hall₂⟩ := all_word hname 9
  obtain ⟨l, hl, -, -, -, hall₃⟩ :=
    all_word (hmark .openParen '(' (by decide) (')' :: '\n' :: cs)) 10
  obtain ⟨r, hr, -, -, -, hall₄⟩ :=
    all_word (hmark .closeParen ')' (by decide) ('\n' :: cs)) 11
  refine ⟨w, n, l, r, ⟨congrArg Word.kind hw, congrArg Word.kind hn, congrArg Word.text hn, ?_,
    congrArg Word.kind hl, congrArg Word.kind hr⟩, ?_⟩
  · rw [Token.span, hstart, hstop]
    rfl
  calc all ⟨.default, 0, "FUNCTION f()\n".toList ++ cs, false⟩
    _ = ⟨w, []⟩ :: all ⟨.default, 8, ' ' :: 'f' :: ("()\n".toList ++ cs), false⟩ := hall₁
    _ = ⟨w, []⟩ :: ⟨n, []⟩ :: all ⟨.default, 10, '(' :: ')' :: '\n' :: cs, false⟩ :=
      congrArg (_ :: ·) ((all_blank hname.trivia_eq 8).trans hall₂)
    _ = ⟨w, []⟩ :: ⟨n, []⟩ :: ⟨l, []⟩ ::
          all ⟨.default, 11, ')' :: '\n' :: cs, false⟩ :=
      congrArg (_ :: _ :: ·) hall₃
    _ = ⟨w, []⟩ :: ⟨n, []⟩ :: ⟨l, []⟩ :: ⟨r, []⟩ ::
          all ⟨.default, 12, '\n' :: cs, false⟩ :=
      congrArg (_ :: _ :: _ :: ·) hall₄
    _ = ⟨w, []⟩ :: ⟨n, []⟩ :: ⟨l, []⟩ :: ⟨r, []⟩ ::
          resume (skipTrivia 13 cs true []) := by
      rw [all_default, skipTrivia_lineFeed]

/-- In the larger text the same element makes the same token further to the right. -/
theorem Element.moved_token {e : Element} {cs : List Char} (hmore : e.more ≤ cs.length)
    (lineBreakBefore lineBreakBefore' : Bool) (pos : Nat) (c : Char) (r : List Char) :
    (e.token lineBreakBefore pos c cs).Moved k
      (e.token lineBreakBefore' (pos + k) c (cs ++ '\n' :: r)) := by
  refine ⟨rfl, rfl, ?_, ?_, rfl⟩
  · simp only [token]
    rw [taken_line hmore, Nat.add_right_comm]
  · simp only [token]
    rw [taken_line hmore]

/-- At the end of the text, the larger one has only its last line left. -/
theorem enclosed_lastLine {b : Bool} {t u : Skipped} {ls ms : List Lexeme} (hrest : t.rest = [])
    (hrest' : u.rest = lastLine) (hbreak : u.sawBreak = true)
    (hissues : Diagnostic.errorCount u.issues = 0) (hls : ls.map Lexeme.scanned = resume t)
    (hms : ms.map Lexeme.scanned = resume u) : Enclosed k b ls ms := by
  obtain ⟨e, w, f, hresume, he, hline, hw, hf, herrors⟩ := resume_lastLine hrest' hbreak hissues
  unfold resume at hls
  rw [hrest] at hls
  rw [hresume] at hms
  obtain ⟨l, rfl, hl⟩ := List.map_eq_singleton_iff.mp hls
  obtain ⟨e', _, rfl, rfl, hbehind⟩ := List.map_eq_cons_iff.mp hms
  obtain ⟨w', _, rfl, rfl, hlast⟩ := List.map_eq_cons_iff.mp hbehind
  obtain ⟨f', rfl, rfl⟩ := List.map_eq_singleton_iff.mp hlast
  exact .close (congrArg (·.token.kind) hl) he hline hw hf fun m hm =>
    herrors m.scanned (List.mem_map_of_mem hm)

theorem errorCount_of_resume {t : Skipped}
    (hclean : ∀ x ∈ resume t, Diagnostic.errorCount x.issues = 0) :
    Diagnostic.errorCount t.issues = 0 := by
  unfold resume at hclean
  split at hclean
  · exact hclean _ (List.mem_singleton_self _)
  · have h := hclean _ (List.mem_cons_self ..)
    rw [Diagnostic.errorCount, List.countP_append] at h
    exact Nat.eq_zero_of_add_eq_zero_right h

/-- What is left of a text that is scanned without an error is enclosed in what is left of the
larger one, where scanning has come to the same place in both. -/
theorem enclosed_resume {b : Bool} {pos : Nat} {cs : List Char} {sawBreak sawBreak' : Bool}
    {issues issues' : List Diagnostic} {ls ms : List Lexeme}
    (hclean : ∀ x ∈ resume (skipTrivia pos cs sawBreak issues),
      Diagnostic.errorCount x.issues = 0)
    (hsame : b = true → sawBreak' = sawBreak) (hclean' : Diagnostic.errorCount issues' = 0)
    (hls : ls.map Lexeme.scanned = resume (skipTrivia pos cs sawBreak issues))
    (hms : ms.map Lexeme.scanned =
      resume (skipTrivia (pos + k) (cs ++ '\n' :: lastLine) sawBreak' issues')) :
    Enclosed k b ls ms := by
  have halike : SkippedAlike k lastLine (b = true) (skipTrivia pos cs sawBreak issues)
      (skipTrivia (pos + k) (cs ++ '\n' :: lastLine) sawBreak' issues') :=
    skipTrivia_line rfl hsame (errorCount_of_resume hclean) hclean'
  have hlength := length_rest_skipTrivia_le pos cs sawBreak issues
  generalize skipTrivia pos cs sawBreak issues = t at *
  generalize skipTrivia (pos + k) (cs ++ '\n' :: lastLine) sawBreak' issues' = u at *
  rcases halike with @⟨c, ds, hrest, hrest', hpos, hbreak, hissues⟩ |
    ⟨hrest, hrest', hbreak, hissues⟩
  · have hmore := Element.more_le_significant c ds
    unfold resume at hclean hls hms
    rw [hrest] at hclean hls
    rw [hrest'] at hms
    dsimp only at hclean hls hms
    obtain ⟨hfirst, hclean⟩ := List.forall_mem_cons.mp hclean
    obtain ⟨l, ls, rfl, hl, hls⟩ := List.map_eq_cons_iff.mp hls
    obtain ⟨m, ms, rfl, hm, hms⟩ := List.map_eq_cons_iff.mp hms
    have hfault : (Element.significant c ds).fault = none := by
      rw [Diagnostic.errorCount, List.countP_append] at hfirst
      exact Element.fault_eq_none (Nat.eq_zero_of_add_eq_zero_left hfirst)
    rw [Element.significant_line, Element.behind_line hmore, Element.taken_line hmore] at hms
    rw [Element.significant_line, Element.issues_eq_nil hfault, List.append_nil] at hm
    obtain ⟨hl, -⟩ := Scanned.mk.inj hl
    obtain ⟨hm, hmissues⟩ := Scanned.mk.inj hm
    rw [hpos] at hm hms
    refine .cons ?_ ?_ (fun h => ?_) (hmissues ▸ hissues) ?_
    · rw [hl]
      exact (Element.isSignificant_significant c ds).2
    · rw [hl, hm]
      exact Element.moved_token hmore ..
    · rw [hl, hm]
      exact hbreak h
    · rw [hrest, List.length_cons] at hlength
      rw [all_default] at hclean hls hms
      rw [Nat.add_right_comm] at hms
      have hlt : ((Element.significant c ds).behind ds).length < cs.length :=
        Nat.lt_of_lt_of_le (Nat.lt_succ_of_le (Element.length_behind_le _ ds)) hlength
      exact enclosed_resume hclean (fun _ => rfl) rfl hls hms
  · exact enclosed_lastLine hrest hrest' hbreak hissues hls hms
termination_by cs.length

/-- The line that begins the function. -/
def firstLine : String := "FUNCTION f()\n"

/-- A function without parameters around statements. -/
def functionOf (text : String) : String := firstLine ++ text ++ "\nEND FUNCTION"

/-- The lexemes of a text that is scanned without an error are enclosed in those of the function. -/
theorem Lexeme.enclosed_ofText {text : String}
    (hclean : ∀ l ∈ ofText .default text, Diagnostic.errorCount l.issues = 0) :
    ∃ w n l r ms, ofText .default (functionOf text) = w :: n :: l :: r :: ms ∧
      FirstLine w.token n.token l.token r.token ∧ (∀ x ∈ [w, n, l, r], x.issues = []) ∧
      Enclosed 13 false (ofText .default text) ms := by
  obtain ⟨w, n, l, r, hfirst, hall⟩ := all_firstLine (text.toList ++ '\n' :: lastLine)
  have hchars : (functionOf text).toList =
      "FUNCTION f()\n".toList ++ (text.toList ++ '\n' :: lastLine) := by
    rw [functionOf, String.toList_append, String.toList_append, List.append_assoc]
    rfl
  have hms := map_scanned_ofText .default (functionOf text)
  rw [scan, Scanner.ofText, hchars, hall] at hms
  obtain ⟨w', _, hlexemes, hw, htail₁⟩ := List.map_eq_cons_iff.mp hms
  obtain ⟨n', _, rfl, hn, htail₂⟩ := List.map_eq_cons_iff.mp htail₁
  obtain ⟨l', _, rfl, hl, htail₃⟩ := List.map_eq_cons_iff.mp htail₂
  obtain ⟨r', ms, rfl, hr, htail⟩ := List.map_eq_cons_iff.mp htail₃
  obtain ⟨⟨rfl, hissues₁⟩, rfl, hissues₂⟩ :=
    And.intro (Scanned.mk.inj hw) (Scanned.mk.inj hn)
  obtain ⟨⟨rfl, hissues₃⟩, rfl, hissues₄⟩ :=
    And.intro (Scanned.mk.inj hl) (Scanned.mk.inj hr)
  have hls : (ofText .default text).map scanned = resume (skipTrivia 0 text.toList false []) := by
    rw [map_scanned_ofText, ← all_default]
    rfl
  refine ⟨w', n', l', r', ms, hlexemes, hfirst,
    by simp [hissues₁, hissues₂, hissues₃, hissues₄], enclosed_resume (fun x hx => ?_)
      (fun h => absurd h Bool.false_ne_true) rfl hls htail⟩
  obtain ⟨l, hl, rfl⟩ := List.mem_map.mp (hls ▸ hx)
  exact hclean l hl

/-! ## The function -/

theorem ParseState.kindAt_of_rest {s : ParseState} {l : Lexeme} (hrest : s.input.rest = l :: ls) :
    s.kindAt 1 = l.token.kind := by
  simp [kindAt, Lookahead.tokenAt, hrest]

/-- A token that is scanned without an error adds none. -/
theorem ParseState.errorCount_read_of_clean {s : ParseState} (hrest : s.input.rest = l :: ls)
    (hclean : Diagnostic.errorCount l.issues = 0) : s.read.errorCount = s.errorCount := by
  rw [errorCount_read hrest, hclean, Nat.add_zero]

/-- Looking at the next token before it is read makes no difference. -/
theorem ParseState.read_peeked (hrest : s.input.rest = l :: ls) :
    (peekKind.run s).2.read = s.read := by
  change { s with input := (s.input.inspect 1).advance } = s.read
  unfold ParseState.read Lookahead.advance Lookahead.inspect
  simp [hrest]

namespace Parser

theorem run_expectName (hrest : s.input.rest = l :: ls) (hname : l.token.kind.canBeName = true) :
    expectName.run s = (some (l.token.text, l.token.span), s.read) := by
  have htoken : s.input.tokenAt 1 = l.token := by simp [Lookahead.tokenAt, hrest]
  rw [← htoken] at hname ⊢
  rw [← read_peeked hrest]
  simp only [expectName, name?, run_bind,
    show (peek.run s).1 = s.input.tokenAt 1 from rfl, if_pos hname]
  rfl

theorem run_nextIs (c : Kind) (s : ParseState) :
    (nextIs c).run s = (s.kindAt 1 == c, (peekKind.run s).2) :=
  rfl

theorem run_expect (hrest : s.input.rest = l :: ls) (hkind : l.token.kind = c) :
    (expect c).run s = (true, s.read) := by
  have hnext : (s.kindAt 1 == c) = true := beq_iff_eq.mpr ((kindAt_of_rest hrest).trans hkind)
  rw [← read_peeked hrest]
  simp only [expect, optional, run_bind, run_nextIs, hnext]
  rfl

/-- There are no parameters in parentheses with nothing between them. -/
theorem run_parameters (hrest : s.input.rest = l :: r :: ls) (hl : l.token.kind = .mark .openParen)
    (hr : r.token.kind = .mark .closeParen) : parameters.run s = ([], s.read.read) := by
  have hrest' : s.read.input.rest = r :: ls := by rw [rest_read_eq, hrest]; rfl
  have hnext : (s.read.kindAt 1 == .mark .closeParen) = true :=
    beq_iff_eq.mpr ((kindAt_of_rest hrest').trans hr)
  have hclose : (expect (.mark .closeParen)).run (peekKind.run s.read).2 = (true, s.read.read) :=
    (run_expect (s := (peekKind.run s.read).2) hrest' hr).trans
      (congrArg (Prod.mk true) (read_peeked hrest'))
  simp only [parameters, run_bind, run_expect hrest hl, if_true, run_nextIs, hnext]
  exact congrArg (Prod.map (fun _ => []) id) hclose

/-- A routine whose body stops at its END is closed by the two words there. -/
theorem run_routineBlock {body : BodyParser} (o : Opening) (header : Nat)
    (kind : Holding → NodeKind)
    (hbody : (body (ctx.routine (.keyword word) returns) { terminator := some (.keyword word) }).run
      { s with names := { s.names with block := {}, loops := [] } } =
      ((children, .terminator), t)) :
    ∃ n, n.kind = kind t.names.block ∧ n.children = children ∧
      (routineBlock body ctx o header word returns kind).run s =
        (n, { t with names :=
            { t.names with block := s.names.block, loops := s.names.loops } }.read.read) := by
  have hinside :
    (insideBlock (statementsUpTo body (ctx.routine (.keyword word) returns) word)).run s =
      (((children, .terminator), t.names.block),
        { t with names := { t.names with block := s.names.block, loops := s.names.loops } }) := by
    let r := (body (ctx.routine (.keyword word) returns) { terminator := some (.keyword word) }).run
      { s with names := { s.names with block := {}, loops := [] } }
    change ((r.1, r.2.names.block),
      { r.2 with names := { r.2.names with block := s.names.block, loops := s.names.loops } }) = _
    rw [show r = _ from hbody]
  unfold routineBlock
  rw [run_bind, hinside]
  exact ⟨_, rfl, rfl, rfl⟩

/-- The first line of the function is read up to its body, which is empty so far. -/
theorem run_functionMember (body : BodyParser) (ctx : Context) (o : Opening)
    (hrest : s.input.rest = n :: l :: r :: ls)
    (hfirst : FirstLine w n.token l.token r.token) (hissues : ∀ x ∈ [n, l, r], x.issues = []) :
    ∃ header t, (functionMember body .FUNCTION ctx o).run s =
        (routineBlock body ctx o header .FUNCTION (some .block) fun held =>
          .function .unstated "f" ⟨9, 1⟩ [] held.scope held.returns).run t ∧
      t.input.rest = ls ∧ t.errorCount = s.errorCount ∧ t.limitReported = s.limitReported := by
  have hrest₁ : s.read.input.rest = l :: r :: ls := by rw [rest_read_eq, hrest]; rfl
  have hrest₂ : s.read.read.input.rest = r :: ls := by rw [rest_read_eq, hrest₁]; rfl
  have hrest₃ : s.read.read.read.input.rest = ls := by rw [rest_read_eq, hrest₂]; rfl
  have hname : expectName.run s = (some ("f", ⟨9, 1⟩), s.read) := by
    rw [run_expectName hrest (by rw [hfirst.name]; rfl), hfirst.text_eq, hfirst.span_eq]
  have hparameters : parameters.run s.read = ([], s.read.read.read) :=
    run_parameters hrest₁ hfirst.openParen hfirst.closeParen
  have hclean : ∀ x ∈ [n, l, r], Diagnostic.errorCount x.issues = 0 := fun x hx => by
    rw [hissues x hx]
    rfl
  let t : ParseState := { s.read.read.read with names := { s.names with
    functions := s.names.functions ++ [⟨"f", ⟨9, 1⟩, .unstated, []⟩] } }
  refine ⟨((headerStop o).run s.read.read.read).1, t, ?_, hrest₃, ?_, rfl⟩
  · unfold functionMember
    rw [run_bind, show (accessOf .FUNCTION).run s = (.unstated, s) from rfl, run_bind, hname]
    simp only [Option.getD_some, Option.isSome_some, if_true]
    rw [run_bind, show (lastStop.run s.read).2 = s.read from rfl, run_bind, hparameters]
    rfl
  · calc s.read.read.read.errorCount
      _ = s.read.read.errorCount := errorCount_read_of_clean hrest₂ (hclean r (by simp))
      _ = s.read.errorCount := errorCount_read_of_clean hrest₁ (hclean l (by simp))
      _ = s.errorCount := errorCount_read_of_clean hrest (hclean n (by simp))

/-- Where FUNCTION comes next, the members of a module go on with a function. -/
theorem run_nestingGuard_function (hlevel : s.nesting.isFull = false)
    (hkind : s.kindAt 1 = .keyword .FUNCTION) :
    ∃ t, Looks s t ∧ (nestingGuard false (.root .latest) .members).run s =
      (.inr (.form .function .FUNCTION, s.errorCount), t) := by
  rw [run_nestingGuard, hlevel, Bool.or_self]
  obtain ⟨stop, t, -, -, hstop⟩ | ⟨choice, t, hchoice, hrun⟩ :=
    bodyGuard_cases false (.root .latest) .members s
  · cases hstop with
    | endOfFile h | terminator h | ancestorEnd h => cases hkind.symm.trans h
    | stopToken hmem => cases hmem
  · obtain ⟨s', t', -, hchoose⟩ := hchoice.choose_run hkind
    obtain rfl : Choice.form .function .FUNCTION = choice := congrArg Prod.fst hchoose
    obtain ⟨hdeep, -⟩ | ⟨-, hrun⟩ := hrun
    · cases hdeep
    · exact ⟨t, hchoice.looks, hrun⟩

/-- What comes behind a statement of a body comes later. -/
theorem later_bodyWith_form (parse : FormParser) (hparse : ∀ f word c o, (parse f word c o).Flows)
    {ctx : Context} {region : Region}
    (hguard : (nestingGuard false ctx region).run s = (.inr (.form f word, errors), u))
    (hrest : u.input.rest ≠ []) :
    Later ((parse f word ctx ⟨u.read.input.last, errors⟩).run
        { u.read with nesting := u.read.nesting.enter }).2
      ((bodyWith (some parse) ctx region).run s).2 := by
  have (p : Progress) (step : Choice × Nat) : (bodyStep (some parse) ctx region p step).Flows :=
    flows_bodyStep (fun _ h => by cases h; exact hparse) ctx region p step
  let rounds : Progress → Parser (Progress × Stop) :=
    loop .endOfFile (fun _ => nestingGuard false ctx region) (bodyStep (some parse) ctx region)
  let r := (bodyStep (some parse) ctx region {} (.form f word, errors)).run u.read
  have hround : (rounds {}).run s = (rounds r.1).run r.2 := run_loop_round hguard hrest
  have hbehind : Later r.2 ((rounds r.1).run r.2).2 :=
    (later_nestingGuard _ _ _ _).trans (later_loop (fun _ => later_nestingGuard _ _ _) _ _)
  have hstep : Later ((parse f word ctx ⟨u.read.input.last, errors⟩).run
      { u.read with nesting := u.read.nesting.enter }).2 r.2 :=
    (Flows.flows (p := checkJump ctx _) inferInstance _).later.trans (looks_nesting _ _).later
  change Later _ ((rounds {}).run s).2
  rw [hround]
  exact hstep.trans hbehind

theorem later_routineBlock {body : BodyParser} {kind : Holding → NodeKind} :
    Later ((body (ctx.routine (.keyword word) returns) { terminator := some (.keyword word) }).run
        { s with names := { s.names with block := {}, loops := [] } }).2
      ((routineBlock body ctx o header word returns kind).run s).2 := by
  let y := (body (ctx.routine (.keyword word) returns) { terminator := some (.keyword word) }).run
    { s with names := { s.names with block := {}, loops := [] } }
  have hrename := ParseState.Flows.rename y.2
      { y.2.names with block := s.names.block, loops := s.names.loops }
  have hclose :
    (do closeBlock o header word y.1.2; closeNode o header (kind y.2.names.block) y.1.1 :
    Parser Node).Flows := inferInstance
  exact hrename.later.trans (hclose.flows _).later

/-- How the body of the function is read. -/
abbrev functionBody : Parser (List Node × Stop) :=
  bodyAt 199 ((Context.root .latest).routine (.keyword .FUNCTION) (some .block))
    { terminator := some (.keyword .FUNCTION) }

/-- The function is the only member of the module, if its body stops at the END in the last line. -/
theorem run_members {s : ParseState} (hlevel : s.nesting.isFull = false)
    (hrest : s.input.rest = w :: n :: l :: r :: ms)
    (hfirst : FirstLine w.token n.token l.token r.token)
    (hissues : ∀ x ∈ [w, n, l, r], x.issues = []) :
    ∃ x : ParseState, x.input.rest = ms ∧ x.errorCount = s.errorCount ∧
      x.limitReported = s.limitReported ∧ x.names.block = {} ∧ x.names.loops = [] ∧
      Later (functionBody.run x).2 ((bodyAt maxNesting (.root .latest) .members).run s).2 ∧
      ∀ {children t e f'} {e' : Lexeme}, functionBody.run x = ((children, .terminator), t) →
        t.input.rest = [e, e', f'] → f'.token.kind = .endOfFile →
        ∃ node u, (bodyAt maxNesting (.root .latest) .members).run s =
          (([node], .endOfFile), u) ∧ node.kind = .function .unstated "f" ⟨9, 1⟩
            [] t.names.block.scope t.names.block.returns ∧
          node.children = children ∧ ∃ names, Looks { t with names }.read.read u := by
  have hkind : s.kindAt 1 = .keyword .FUNCTION := (kindAt_of_rest hrest).trans hfirst.word
  obtain ⟨u, hlook, hguard⟩ := run_nestingGuard_function hlevel hkind
  have hu : u.input.rest = w :: n :: l :: r :: ms := hlook.rest.trans hrest
  have hne : u.input.rest ≠ [] := by simp [hu]
  let v : ParseState := { u.read with nesting := u.read.nesting.enter }
  have hv : v.input.rest = n :: l :: r :: ms := (rest_read_eq u).trans (congrArg List.tail hu)
  have hvErrors : v.errorCount = s.errorCount := by
    refine (errorCount_read_of_clean hu ?_).trans hlook.errorCount
    rw [hissues w (by simp)]
    rfl
  obtain ⟨header, y, hrun, hy, hyErrors, hyLimit⟩ := run_functionMember (bodyAt 199)
    (.root .latest) ⟨u.read.input.last, s.errorCount⟩ hv hfirst fun x hx =>
      hissues x (List.mem_cons_of_mem w hx)
  refine ⟨{ y with names := { y.names with block := {}, loops := [] } }, hy,
    hyErrors.trans hvErrors, hyLimit.trans hlook.errorFree.limitReported_eq, rfl, rfl, ?_,
      fun {children t e f' e'} hbody hend hf => ?_⟩
  · refine .trans ?_ (later_bodyWith_form (formWith 199 (bodyAt 199))
      (fun _ _ _ _ => inferInstance) hguard hne)
    change Later _ ((functionMember _ _ _ _).run v).2
    rw [hrun]
    exact later_routineBlock
  · obtain ⟨node, hkind, hchildren, hclosed⟩ := run_routineBlock (s := y)
      ⟨u.read.input.last, s.errorCount⟩ header
      (fun held => .function .unstated "f" ⟨9, 1⟩ [] held.scope held.returns) hbody
    let z : ParseState :=
      { t with names := { t.names with block := y.names.block, loops := y.names.loops } }.read.read
    have hz : z.input.rest = [f'] := by
      rw [rest_read_eq, rest_read_eq]
      exact congrArg (·.tail.tail) hend
    have hstop : z.kindAt 1 = .endOfFile := (kindAt_of_rest hz).trans hf
    have hguard' := run_bodyGuard_endOfFile (s := { z with nesting := z.nesting.leave }) hstop
      (z.nesting.leave.isFull || false) (.root .latest) .members
    exact ⟨node, _, run_bodyWith_form (formWith 199 (bodyAt 199)) hguard hne
      (hrun.trans hclosed) (by rw [hkind]; rfl) hguard', hkind, hchildren, _,
      (looks_nesting z _).trans (peeks_peekKind _)⟩

/-- Where the statements that stand alone come to the end of their text, the function has its
END. -/
theorem Stops.function {version : Version} (hmirrored : Mirrored k b s u)
    (h : Stops (.snippet version) none s stop) :
    Stops (Context.snippet version).enclosed (some (.keyword .FUNCTION)) u .terminator := by
  obtain ⟨-, hend⟩ := h.at_end rfl rfl
  obtain ⟨-, hne, -⟩ | ⟨hleft, -, hkind, -⟩ := hmirrored.next_token
  · exact absurd hend hne
  · exact .terminator hkind (congrArg some (hmirrored.second_kind_of_end hleft).2.symm)

end Parser

/-- A text is clean if all of it is read without an error. -/
theorem ParseState.clean_of_diagnostics {mode : ScanMode} {p : Parser α} [hp : p.Flows]
    (hrun : p.run (.ofText mode text) = (a, t))
    (hseen : t.input.seenLexemes = Lexeme.ofText mode text)
    (hclean : ∀ d ∈ t.diagnostics, d.isError = false) :
    p.Clean (.ofText mode text) a t ∧
      ∀ l ∈ Lexeme.ofText mode text, Diagnostic.errorCount l.issues = 0 := by
  have hcount : Diagnostic.errorCount t.input.issues + Diagnostic.errorCount t.reports = 0 := by
    rw [← errorCount_diagnostics, Diagnostic.errorCount, List.countP_eq_zero]
    exact fun d hd => by simp [hclean d hd]
  obtain ⟨hissues, hreports⟩ := Nat.add_eq_zero_iff.mp hcount
  rw [Lookahead.issues, hseen, Diagnostic.errorCount, List.countP_eq_zero] at hissues
  refine ⟨⟨hrun, ?_⟩, fun l hl => List.countP_eq_zero.mpr fun d hd =>
    hissues d (List.mem_flatMap.mpr ⟨l, hl, hd⟩)⟩
  obtain ⟨ts, htokensRead⟩ : Later (.ofText mode text) t := (Flows.of_run hp hrun).later
  have herrors : t.input.errors = 0 := by
    rw [((Counted.ofText _ _).tokensRead htokensRead).errors_eq, htokensRead.stream_eq,
      Diagnostic.errorCount, List.countP_eq_zero]
    intro d hd
    obtain ⟨l, hl, hd⟩ := List.mem_flatMap.mp hd
    exact hissues d (List.mem_flatMap.mpr ⟨l, List.mem_of_mem_take hl, hd⟩)
  change Diagnostic.errorCount t.reports + t.input.errors = 0
  rw [hreports, herrors]

/-- Where nothing is left to read, the errors are those of the diagnostics. -/
theorem ParseState.Counted.errorCount_eq (h : Counted s) (hrest : s.input.rest = []) :
    s.errorCount = Diagnostic.errorCount s.diagnostics := by
  rw [errorCount_diagnostics, ← h.errors_eq_issues hrest, Nat.add_comm]
  rfl

/-- The limit of nesting is reached in a text only if a diagnostic says so. -/
theorem ParseState.limitReported_eq_false {mode : ScanMode} (h : Later (.ofText mode text) s)
    (hlimit : ∀ d ∈ s.diagnostics, d.code ≠ Message.nestingTooDeep.code) :
    s.limitReported = false := by
  obtain ⟨ts, htokensRead⟩ := h
  refine Bool.eq_false_iff.mpr fun hreached => ?_
  obtain ⟨d, hd, hcode⟩ := htokensRead.limitTold rfl hreached
  exact hlimit d (s.perm_diagnostics.mem_iff.mpr (List.mem_append_right _ hd)) hcode

/-- If the statements of a text are parsed without an error, and the limit of nesting is not reached
in the function around them, the function is parsed without an error. It is the only member of the
module, and its statements and names are those of the text by itself behind the first line. -/
theorem parseModule_functionOf (text : String)
    (hclean : ∀ d ∈ (parseStatements text {}).diagnostics, d.isError = false)
    (hlimit : ∀ d ∈ (parseModule (functionOf text) {}).diagnostics,
      d.code ≠ Message.nestingTooDeep.code) :
    (∀ d ∈ (parseModule (functionOf text) {}).diagnostics, d.isError = false) ∧
    ∃ f arities, (parseModule (functionOf text) {}).module.children = [f] ∧
      f.kind = .function .unstated "f" ⟨9, 1⟩ []
        ((parseStatements text {}).scope.shift firstLine.length) arities ∧
      f.children = (parseStatements text {}).statements.map (·.shift firstLine.length) := by
  rw [show firstLine.length = 13 from rfl]
  obtain ⟨ns, t, hrun, hend, hseen⟩ := run_snippet .latest .default text
  have hparsed : parseStatements text {} =
      ⟨ns, t.diagnostics, t.input.trivia, t.names.snippet.scope⟩ := by
    change (let r := (bodyAt maxNesting (.snippet .latest) {}).run (.ofText .default text)
      (⟨r.1.1, r.2.diagnostics, r.2.input.trivia, r.2.names.snippet.scope⟩ : SnippetResult)) = _
    rw [hrun]
  rw [hparsed] at hclean ⊢
  obtain ⟨hsnippet, hlexemes⟩ := clean_of_diagnostics hrun hseen hclean
  obtain ⟨w, n, l, r, ms, hstream, hfirst, hissues, henclosed⟩ :=
    Lexeme.enclosed_ofText hlexemes
  obtain ⟨s, stop, hmodule, -, -, -, -, -, hdiagnostics⟩ :=
    derives_parseModule (functionOf text) {}
  replace hmodule : (bodyAt maxNesting (.root .latest) .members).run
    (.ofText .default (functionOf text)) = ((_, stop), s) := hmodule
  have hlater : Later (.ofText .default (functionOf text)) s :=
    (Flows.of_run inferInstance hmodule).later
  rw [show (parseModule (functionOf text) {}).diagnostics = s.read.diagnostics
    from hdiagnostics] at hlimit ⊢
  have hreached : s.limitReported = false :=
    limitReported_eq_false (s := s.read) (hlater.trans (.read s)) hlimit
  -- The body of the function mirrors the text by itself.
  obtain ⟨x, hx, hxErrors, hxLimit, hblock, hloops, hbody, hfunction⟩ :=
    run_members (s := .ofText .default (functionOf text)) rfl hstream hfirst hissues
  have hmirrored : Mirrored 13 false (.ofText .default text) x :=
    { rest := hx ▸ henclosed
      last := nofun
      errors_eq := rfl
      errors_eq' := hxErrors
      limit_eq := rfl
      limit_eq' := hxLimit
      names := ⟨hblock, hloops⟩ }
  have hmirrors : Mirrors 13 false 0 (Prod.map (List.map (·.shift 13)) fun _ => .terminator)
      (bodyAt maxNesting (.snippet .latest) {}) functionBody :=
    mirrors_bodyAt 199 (.snippet .latest) fun hmirrored hstop => hstop.function hmirrored
  rw [hmodule] at hbody
  obtain ⟨hresult, hmirrored'⟩ :=
    hmirrors hmirrored hmirrored.left_pos hsnippet (limitReported_before hbody hreached)
  -- Behind it END FUNCTION is left, and nothing else.
  obtain ⟨e, e', f', hrest, hlast, hclose⟩ := hmirrored'.rest_of_end hend
  obtain ⟨f, u, hmembers, hkind, hchildren, names, hlooks⟩ :=
    hfunction (Prod.ext hresult rfl) hrest hlast
  obtain ⟨hnodes, rfl⟩ := Prod.mk.inj (hmembers.symm.trans hmodule)
  let v : ParseState := { (functionBody.run x).2 with names }
  have hrest₁ : v.read.input.rest = [e', f'] := (rest_read_eq v).trans (congrArg List.tail hrest)
  have hrest₂ : u.input.rest = [f'] :=
    hlooks.rest.trans ((rest_read_eq v.read).trans (congrArg List.tail hrest₁))
  have herrors : u.read.errorCount = 0 :=
    calc u.read.errorCount
      _ = u.errorCount := errorCount_read_of_clean hrest₂ (hclose f' (by simp))
      _ = v.read.read.errorCount := hlooks.errorCount
      _ = v.read.errorCount := errorCount_read_of_clean hrest₁ (hclose e' (by simp))
      _ = v.errorCount := errorCount_read_of_clean hrest (hclose e (by simp))
      _ = 0 := hmirrored'.errors_eq'
  obtain ⟨ts, htokensRead⟩ := hlater.trans (.read u)
  have hdone : u.read.input.rest = [] := (rest_read_eq u).trans (congrArg List.tail hrest₂)
  rw [((Counted.ofText _ _).tokensRead htokensRead).errorCount_eq hdone, Diagnostic.errorCount,
    List.countP_eq_zero] at herrors
  rw [hmirrored'.names.block_eq] at hkind
  exact ⟨fun d hd => Bool.eq_false_iff.mpr (herrors d hd), f, _,
    (Prod.mk.inj hnodes).1.symm, hkind, hchildren⟩

/-- A menu without options is only warned about. -/
theorem parseModule_functionOf_menu :
    ∃ f arities,
      (parseModule (functionOf "DEFINE a INT\nWHILE a\nMENU\nEND MENU\nEND WHILE")
        {}).module.children = [f] ∧
      f.kind = .function .unstated "f" ⟨9, 1⟩ []
        ((parseStatements "DEFINE a INT\nWHILE a\nMENU\nEND MENU\nEND WHILE" {}).scope.shift
          firstLine.length) arities ∧
      f.children = (parseStatements "DEFINE a INT\nWHILE a\nMENU\nEND MENU\nEND WHILE"
        {}).statements.map (·.shift firstLine.length) :=
  (parseModule_functionOf _ (by decide +kernel) (by decide +kernel)).2

end FourGL
