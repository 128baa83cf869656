import FourGL.Proofs.Grammar.Locations
import FourGL.Proofs.Tree.Extents

/-!
# Locations in blocks and bodies

A statement is opened by a token of the text and measures from there: to the end of its header, or
to the token it has come to. Both lie behind the start of the token and inside the text. So whatever
a body says is located in the text, round by round (`locatesBody_of_rounds`), and this holds of a
whole text.
-/

namespace FourGL

open FourGL.Parser FourGL.ParseState

/-! ## Openings -/

namespace Opening

/-- The opening is a token of the text that starts before the position. -/
class Known (text : String) (pos : Nat) (o : Opening) : Prop where
  mem : o.token ∈ tokens .default text
  start_lt : o.token.start < pos

/-- What is opened has a header that ends behind the start of the opening and inside the text. -/
class EndsAt (text : String) (header : Nat) (o : Opening) : Prop where
  start_lt : o.token.start < header
  header_le : header ≤ text.length

theorem Known.start_lt_stop {o : Opening} (h : o.Known text pos) (hpos : pos ≤ text.length) :
    o.token.start < o.token.stop := by
  obtain ⟨-, -, hlt, hend⟩ := bounds_of_mem_tokens h.mem
  have hstart := h.start_lt
  by_cases hkind : o.token.kind = .endOfFile
  · have := hend hkind
    omega
  · exact hlt hkind

end Opening

/-- Where the text goes on, the next token opens what is read behind it. -/
theorem ParseState.Locates.opens (h : Locates text pos s) (hkind : s.kindAt 1 ≠ .endOfFile)
    (hlook : Looks s t) (errors : Nat) :
    Locates text pos t.read ∧ Opening.Known text t.read.place
      ⟨t.read.input.last, errors⟩ := by
  obtain ⟨-, hopens, -⟩ := h.at_text.opens hkind hlook errors
  refine ⟨(h.looks hlook).read, ?_, hopens.start_lt⟩
  obtain ⟨l, ls, hrest⟩ := List.exists_cons_of_ne_nil (rest_ne_nil hkind)
  have hl : l ∈ s.input.rest := by simp [hrest]
  have htoken : t.read.input.last = l.token := by
    rw [last_read, hlook.tokenAt, Lookahead.tokenAt, hrest]
    rfl
  rw [htoken]
  exact h.at_text.mem_tokens hl

namespace Parser

/-! ## What statements say -/

set_option synthInstance.maxSize 512

variable {o : Opening}

theorem has_reportHeader [ho : o.EndsAt text header] (hm : m.isMeasured = true)
    (args : List String) :
    (report m args (.between o.token.start header)).Has (locating text pos) l :=
  has_report (.measured hm ho.start_lt ho.header_le)

instance [o.EndsAt text header] : (closeBlock o header k stop).Has (locating text pos) l := by
  unfold closeBlock
  split
  · infer_instance
  · exact has_reportHeader rfl _

theorem has_checkJump (ctx : Context) {n : Node} (hlt : n.start < n.stop)
    (hstop : n.stop ≤ text.length) : (checkJump ctx n).Has (locating text pos) l := by
  unfold checkJump
  split
  · infer_instance
  next word target _ _ =>
    have : (report .noEnclosingBlock [word, target.text] n.extent.span).Has (locating text pos) l :=
      has_report (.measured rfl hlt hstop)
    infer_instance

instance : (importStatement o).Has (locating text pos) l := by
  have (path : String) : (modifyNames fun n => { n with imports := n.imports ++ [path] }).Has
      (locating text pos) l := locates_modifyNames fun _ => rfl
  unfold importStatement
  refine .bind fun kind => .bind fun name => ?_
  cases name <;> infer_instance

section

variable [ho : o.Known text pos]
include ho

theorem keepsLocated_headerStop : (headerStop o).KeepsLocated text pos (o.EndsAt text) := by
  unfold headerStop
  refine .bind keepsLocated_lastStop fun stop hstop => .pure ⟨?_, ?_⟩
  · have := ho.start_lt
    omega
  · obtain ⟨hle, hstop', -⟩ := bounds_of_mem_tokens ho.mem
    omega

instance : (returnStatement levels ctx o).Has (locating text pos) l := by
  unfold returnStatement
  refine .bind fun values => ?_
  dsimp only
  split
  next owner _ =>
    have : (modifyNames (·.noteReturn owner values.length)).Has (locating text pos) l :=
      locates_modifyNames fun n => Names.loops_set ..
    infer_instance
  next =>
    split
    · infer_instance
    · refine keepsLocated_lastStop.before fun stop hstop => ?_
      have hlt := Nat.lt_of_lt_of_le ho.start_lt hstop.1
      have : (report .returnOutsideFunction [] (.between o.token.start stop)).Has
          (locating text pos) 0 := has_report (.measured rfl hlt hstop.2)
      infer_instance

end

/-! ## Rounds -/

/-- A token that starts nothing is skipped with what is said about it. -/
theorem locates_skipUnexpected (h : Locates text pos s) (hkind : s.kindAt 1 ≠ .endOfFile)
    (hlook : Looks s t) (hm : m.isMeasured = false)
    (hskip : (skipUnexpected m isFirst).run t.read = ((), u)) : Locates text pos u := by
  obtain ⟨hread, hknown⟩ := h.opens hkind hlook 0
  have htoken : t.read.input.last.span.OfToken text := Token.ofToken_span hknown.mem
  obtain ⟨v, hlook', rfl⟩ | ⟨-, v, w, span, hlook', -, rfl, rfl⟩ :=
    skipUnexpected_cases hskip
  · have hv := hread.looks hlook'
    cases isFirst with
    | true => exact hv.report (.token hm htoken)
    | false => exact hv
  · have hv := hread.here.looks hlook'
    refine ((hread.looks hlook').read).report (.measured rfl ?_ hv.read.at_text.place_le)
    exact Nat.lt_of_lt_of_le hknown.start_lt hv.read.pos_le

/-- A run of clauses is located if every clause is. -/
theorem has_clauses {ctx : Context} {starts : Parser Bool} (hstarts : starts.Peeks)
    {clause : List Node → Opening → Parser Node}
    (hclause : ∀ pos before o, o.Known text pos → (clause before o).Has (locating text pos) 0) :
    (clauses ctx k starts clause).Has (locating text pos) l := by
  refine ⟨fun s hs => ?_⟩
  have hround : ∀ a b, ClauseRound ctx k starts clause a b →
      Locates text pos a.2 → Locates text pos b.2 := by
    intro a b hround hlocates
    cases hround with
    | clause hpass hlook hfound hrun =>
      have hlook := hlook.trans (hstarts.of_run hfound)
      obtain ⟨hread, hknown⟩ := hlocates.opens hpass.ne_endOfFile hlook _
      exact ((hclause _ _ _ hknown).of_run hrun hread.here).mono hread.pos_le
    | unexpected hpass hlook hfound _ hlook' hskip =>
      exact locates_skipUnexpected hlocates hpass.ne_endOfFile
        (hlook.trans ((hstarts.of_run hfound).trans hlook')) rfl hskip
  obtain ⟨p, u, hlocates, -, -, hlook⟩ :=
    clauses_keeps hstarts (I := fun _ t => Locates text pos t) hs hround rfl
  exact hlocates.looks hlook

/-! ## Blocks -/

/-- What a body says is located in the text, wherever the body begins. -/
class LocatesBody (text : String) (body : BodyParser) : Prop where
  has : ∀ pos ctx region, region.unexpected.isMeasured = false →
    (body ctx region).Has (locating text pos) 0

section

variable {body : BodyParser} [hbody : LocatesBody text body]
include hbody

instance : (statementsUpTo body ctx k).Has (locating text pos) l :=
  ⟨(hbody.has pos ctx { terminator := _ } rfl).has⟩
instance : (branch body ctx k kind o).Has (locating text pos) l := by unfold branch; infer_instance
instance : (secondBranch body ctx k word kind first).Has (locating text pos) l := by
  unfold secondBranch; infer_instance
instance : (clauseBody body ctx o kind).Has (locating text pos) l := by
  have : (body ctx {}).Has (locating text pos) l := ⟨(hbody.has pos ctx {} rfl).has⟩
  unfold clauseBody
  infer_instance
instance : (menuClause levels body ctx o).Has (locating text pos) l := by
  unfold menuClause; infer_instance

instance {kind : Holding → NodeKind} [o.EndsAt text header] :
    (routineBlock body ctx o header k returns kind).Has (locating text pos) l := by
  unfold routineBlock; infer_instance

section

variable [ho : o.Known text pos]
include ho

instance : (simpleBlock body ctx o k kind).Has (locating text pos) l := by
  unfold simpleBlock
  exact keepsLocated_headerStop.before fun header _ => inferInstance
instance : (branchedBlock body ctx o k word kind branchKind).Has (locating text pos) l := by
  unfold branchedBlock
  exact keepsLocated_headerStop.before fun header _ => inferInstance
instance : (ifStatement levels body ctx o).Has (locating text pos) l := by
  unfold ifStatement; infer_instance
instance : (tryStatement body ctx o).Has (locating text pos) l := by
  unfold tryStatement; infer_instance
instance : (whileStatement levels body ctx o).Has (locating text pos) l := by
  unfold whileStatement; infer_instance
instance : (forStatement levels body ctx o).Has (locating text pos) l := by
  unfold forStatement; dsimp only; infer_instance

instance {kind : List Cursor → NodeKind} :
    (cursorLoop body ctx o cursor kind).Has (locating text pos) l := by
  unfold cursorLoop
  refine keepsLocated_headerStop.before fun header _ =>
    (keepsLocated_insideCursorLoop cursor).before fun r hr => ?_
  have : (reportRedeclared r.2).Has (locating text pos) 0 := has_reportCursors hr
  infer_instance

instance : (foreachStatement levels body ctx o).Has (locating text pos) l := by
  unfold foreachStatement; dsimp only; infer_instance

instance : (caseClause levels body ctx before o).Has (locating text pos) l := by
  refine ⟨fun s hs => ?_⟩
  have hlt := ho.start_lt_stop (Nat.le_trans hs.pos_le hs.at_text.place_le)
  have : (report .secondOtherwise [] o.token.span).Has (locating text pos) l :=
    has_report (.measured rfl hlt (bounds_of_mem_tokens ho.mem).2.1)
  have hclause : (caseClause levels body ctx before o).Has (locating text pos) l := by
    unfold caseClause; dsimp only; infer_instance
  exact hclause.has s hs

omit ho in
instance {within : Context} :
    (clauses within k startsCaseClause (caseClause levels body ctx)).Has (locating text pos) l :=
  has_clauses peeks_startsCaseClause fun _ _ _ _ => inferInstance
omit ho in
instance {within : Context} :
    (clauses within k startsMenuClause fun _ o => menuClause levels body ctx o).Has
      (locating text pos) l :=
  has_clauses peeks_startsMenuClause fun _ _ _ _ => inferInstance

instance : (caseStatement levels body ctx o).Has (locating text pos) l := by
  unfold caseStatement
  exact .bind fun subject => keepsLocated_headerStop.before fun header _ => inferInstance

instance : (menuBlock levels body ctx o title).Has (locating text pos) l := by
  unfold menuBlock
  refine keepsLocated_headerStop.before fun header _ => ?_
  have : (report .emptyMenu [] (.between o.token.start header)).Has (locating text pos) 0 :=
    has_reportHeader rfl _
  dsimp only
  infer_instance
instance : (menuStatement levels body ctx o).Has (locating text pos) l := by
  unfold menuStatement; dsimp only; infer_instance

instance : (globalsBlock body ctx o).Has (locating text pos) l := by
  let members : Region :=
    { productions := Production.globalsMembers, terminator := some (.keyword .GLOBALS) }
  have hinside : (body ctx.insideGlobals members).Has (locating text pos) 0 := hbody.has _ _ _ rfl
  have hmerge (held : Holding) : (modifyNames fun n =>
      { n with globals := n.globals.merge held.scope }).Has (locating text pos) 0 :=
    locates_modifyNames fun _ => rfl
  unfold globalsBlock
  exact keepsLocated_headerStop.before fun header _ => inferInstance
instance : (globalsMember body ctx o).Has (locating text pos) l := by
  unfold globalsMember; infer_instance

instance : (mainMember body word ctx o).Has (locating text pos) l := by
  have (args : List String) :
      (report .misplacedModifier args o.token.span).Has (locating text pos) l :=
    has_report (.token rfl (Token.ofToken_span ho.mem))
  have hnote : (modifyNames fun n => { n with hasMain := true }).Has (locating text pos) 0 :=
    locates_modifyNames fun _ => rfl
  have hmain : Has (locating text pos) l (do
      let header ← headerStop o
      if (← getNames).hasMain then
        report .secondMain [] (.between o.token.start header)
      modifyNames fun n => { n with hasMain := true }
      routineBlock body ctx o header .MAIN none fun held => .main held.scope) := by
    refine keepsLocated_headerStop.before fun header _ => ?_
    have : (report .secondMain [] (.between o.token.start header)).Has (locating text pos) 0 :=
      has_reportHeader rfl _
    infer_instance
  unfold mainMember
  refine .bind fun access => ?_
  dsimp only
  split <;> infer_instance

instance : (functionMember body word ctx o).Has (locating text pos) l := by
  have hnote (signature : Signature) : (modifyNames fun n =>
      { n with functions := n.functions ++ [signature] }).Has (locating text pos) 0 :=
    locates_modifyNames fun _ => rfl
  unfold functionMember
  exact .bind fun access => .bind fun named => .bind fun stop => .bind fun parameters =>
    keepsLocated_headerStop.before fun header _ => inferInstance

instance {form : Form} : (formWith levels body form word ctx o).Has (locating text pos) l := by
  unfold formWith
  split <;> infer_instance

end

end

/-! ## Bodies -/

/-- A statement that is read where the text goes on is located, and so is what is said about its
jump: the node ends where the statement has been read to. -/
theorem locates_statement {ctx : Context} [LocatesBody text (bodyAt levels)]
    (h : Locates text pos s) (hchoice : Chooses false ctx region s (.form f word) t)
    (hrun : (formWith levels (bodyAt levels) f word ctx
      ⟨t.read.input.last, errors⟩).run t.read =
      (n, u)) (hjump : (checkJump ctx n).run u = ((), v)) : Locates text pos v := by
  obtain ⟨hread, hknown⟩ := h.opens hchoice.passes.ne_endOfFile hchoice.looks errors
  have hform : (formWith levels (bodyAt levels) f word ctx ⟨t.read.input.last, errors⟩).Has
      (locating text t.read.place) 0 := inferInstance
  have hu : Locates text t.read.place u := hform.of_run hrun hread.here
  obtain ⟨haccount, -⟩ :=
    (accounts_formWith (accountsBodies levels) ctx _ hchoice.fits).of_run hrun
  obtain ⟨hspans, -⟩ :=
    laidOut_of_derivable haccount.derives hread.at_text ⟨rfl, hknown.start_lt⟩
  have hlt : n.start < n.stop := by
    rw [hspans.start_eq, hspans.stop_eq]
    exact Nat.lt_of_lt_of_le hknown.start_lt hu.pos_le
  have hcheck : (checkJump ctx n).Has (locating text t.read.place) 0 :=
    has_checkJump ctx hlt (hspans.stop_eq ▸ hu.at_text.place_le)
  exact (hcheck.of_run hjump hu).mono hread.pos_le

theorem Skip.locates {atLimit : Bool} {ctx : Context} {region : Region}
    {a b : Progress × ParseState} (hskip : Skip atLimit ctx region a b)
    (hregion : region.unexpected.isMeasured = false) (h : Locates text pos a.2) :
    Locates text pos b.2 := by
  cases hskip with
  | unavailable hchoice hreport =>
    obtain ⟨hread, hknown⟩ := h.opens hchoice.passes.ne_endOfFile hchoice.looks 0
    obtain rfl := (Prod.mk.inj hreport).2
    exact hread.report (.token rfl (Token.ofToken_span hknown.mem))
  | tooDeep hchoice hlimit =>
    have hu := (h.looks hchoice.looks).reportLimit
    rw [hlimit] at hu
    exact hu.read
  | unexpected hchoice hskip =>
    exact locates_skipUnexpected h hchoice.passes.ne_endOfFile hchoice.looks hregion hskip

/-- A body is located if every round of one is. -/
theorem locatesBody_of_rounds {statement : Option FormParser}
    (hround : ∀ {pos ctx region a b}, region.unexpected.isMeasured = false →
      Round statement ctx region a b → Locates text pos a.2 → Locates text pos b.2) :
    LocatesBody text (bodyWith statement) := by
  refine ⟨fun pos ctx region hregion => ⟨fun s hs => ?_⟩⟩
  obtain ⟨p, t, hlocates, -, -, hlook⟩ := bodyWith_keeps (I := fun _ t => Locates text pos t) hs
    (fun _ _ hlast hbefore => hround hregion hlast hbefore) rfl
  exact hlocates.looks hlook

/-- Whatever a body says is located in the text, however deep it is nested. -/
theorem locatesBody_bodyAt (text : String) (levels : Nat) : LocatesBody text (bodyAt levels) := by
  induction levels with
  | zero =>
    refine locatesBody_of_rounds fun hregion hround h => ?_
    cases hround with
    | statement hparse => cases hparse
    | skip hskip => exact hskip.locates hregion h
  | succ levels ih =>
    refine locatesBody_of_rounds fun hregion hround h => ?_
    cases hround with
    | statement hparse hchoice hrun hjump hleave =>
      cases hparse
      exact (locates_statement h hchoice hrun hjump).looks hleave
    | skip hskip => exact hskip.locates hregion h

/-- Whatever is said about a module is located in its text. -/
theorem locates_moduleNode (version : Version) (mode : ScanMode) (text : String) :
    Locates text 0 ((moduleNode version).run (.ofText mode text)).2 := by
  have hbody := (locatesBody_bodyAt text maxNesting).has 0 (.root version) .members rfl
  exact (hbody.has _ (locates_ofText mode text)).read

theorem locates_snippet (version : Version) (mode : ScanMode) (text : String) :
    Locates text 0 ((snippet version).run (.ofText mode text)).2 :=
  ((locatesBody_bodyAt text maxNesting).has 0 (.snippet version) {} rfl).has _
    (locates_ofText mode text)

end Parser

end FourGL
