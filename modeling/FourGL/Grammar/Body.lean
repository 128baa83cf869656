import FourGL.Grammar.Context
import FourGL.Grammar.Parser

/-!
# Bodies of blocks

A body is a run of statements. It stops before the END of its own block or of an enclosing one,
before a token of the context, or at the end of the text, and reads none of these. A token that no
statement starts with is skipped and reported, only the first of several in a row.
-/

namespace FourGL

/-- Why a body stopped. -/
inductive Stop where
  /-- The END of the block itself comes next. -/
  | terminator
  /-- The END of an enclosing block comes next. -/
  | ancestorEnd
  | stopToken (k : Kind)
  | endOfFile
deriving DecidableEq

/-- What a node begins with: its first token, and how many errors there were before it. -/
structure Opening where
  token : Token
  errors : Nat

namespace Parser

/-! ## Nodes -/

/-- The node of a statement that is all header. -/
def closeStatement (o : Opening) (kind : NodeKind) : Parser Node := do
  let stop := max (← lastStop) o.token.start
  let isComplete := (← errorCount) == o.errors
  return ⟨⟨o.token.start, stop, stop, isComplete⟩, kind, []⟩

/-- Where a header ends that has been read up to here. -/
def headerStop (o : Opening) : Parser Nat := do return max (← lastStop) o.token.start

/-- The node of a block or clause that ends here. -/
def closeNode (o : Opening) (headerStop : Nat) (kind : NodeKind) (children : List Node) :
    Parser Node := do
  let stop := max (← lastStop) headerStop
  let isComplete := (← errorCount) == o.errors
  return ⟨⟨o.token.start, stop, headerStop, isComplete⟩, kind, children⟩

/-- Reads the END of a block, or reports that it is missing. -/
def closeBlock (o : Opening) (headerStop : Nat) (keyword : Keyword) (stop : Stop) :
    Parser Unit := do
  if stop = .terminator then
    let _ ← next
    let _ ← next
  else
    report .unterminatedBlock [keyword.text, "end " ++ keyword.text]
      (.between o.token.start headerStop)

/-! ## Stopping -/

/-- Whether the text or a block ends here. -/
def stopAtEnd? (ctx : Context) (terminator : Option Kind) : Parser (Option Stop) := do
  match ← peekKind with
  | .endOfFile => return some .endOfFile
  | .keyword .END =>
    let word := (← peekAt 2).kind
    if terminator = some word then return some .terminator
    else if word ∈ ctx.ends then return some .ancestorEnd
    else return none
  | _ => return none

/-- Whether a token stands here at which the body stops. -/
def stopAtToken? (ctx : Context) : Parser (Option Stop) := do
  let k ← peekKind
  if k ∈ ctx.stops then return some (.stopToken k) else return none

/-! ## Choosing a statement -/

/-- What is to be done with the next token. -/
inductive Choice where
  /-- It is a word that starts a statement. -/
  | form (f : Form) (word : Keyword)
  /-- It starts a statement that the version does not have. -/
  | unavailable (f : Form)
  /-- It starts a statement, but that would nest too deep. -/
  | tooDeep
  /-- It starts nothing. -/
  | unexpected

/-- Whether a form applies behind one of its leading words, as the token behind that shows. -/
def applies (f : Form) (first : Keyword) : Parser Bool :=
  match f with
  | .menuControl => secondIs (.keyword .OPTION)
  | f =>
    match f.modifiable? with
    | some word => if first = word then pure true else secondIs (.keyword word)
    | none => pure true

/-- The first production that takes the next token, which is the word `first`. A word that several
forms start with does not decide for one that the version lacks. -/
def choose (version : Version) (atLimit : Bool) (first : Keyword) :
    List Production → Parser Choice
  | [] => return .unexpected
  | p :: ps => do
    if !p.startsWith first then choose version atLimit first ps
    else if !p.form.version.availableIn version then
      if p.isOwnWord first then return .unavailable p.form else choose version atLimit first ps
    else if atLimit then return .tooDeep
    else if ← applies p.form first then return .form p.form first
    else choose version atLimit first ps

/-- What is to be done with the next token, where the given productions can stand. -/
def chooseNext (version : Version) (atLimit : Bool) (ps : List Production) : Parser Choice := do
  match ← peekKind with
  | .keyword first => choose version atLimit first ps
  | _ => return .unexpected

/-! ## Skipping -/

/-- Skips the token read last, which starts nothing. An END with a keyword on the same line is
skipped together with it and always reported. -/
def skipUnexpected (unexpected : Message) (isFirst : Bool) : Parser Unit := do
  let t ← last
  let alone : Parser Unit := if isFirst then report unexpected [t.text] t.span else pure ()
  if t.kind = .keyword .END then
    let word ← peek
    if word.kind.isKeyword && !word.lineBreakBefore then
      let _ ← next
      report .unexpectedEnd [word.kind.text] (.between t.start (← lastStop))
    else alone
  else alone

/-! ## Bodies -/

/-- The nodes of a body so far, and whether the token before was skipped. -/
structure Progress where
  nodes : List Node := []
  skipping : Bool := false

/-- What a body consists of. -/
structure Region where
  productions : List Production := Production.statements
  /-- The word that closes the block behind END. -/
  terminator : Option Kind := none
  /-- What is said about a token that starts nothing. -/
  unexpected : Message := .unexpectedToken

/-- Reads the statement of a form behind its first word. -/
abbrev FormParser := Form → Keyword → Context → Opening → Parser Node

/-- Reads a body. -/
abbrev BodyParser := Context → Region → Parser (List Node × Stop)

/-- The block that a node wants to leave or repeat, with the word that says so and whether it may:
no CONTINUE repeats a CASE or a DISPLAY. -/
def jump? : NodeKind → Option (String × Keyword × Bool)
  | .exit (some target) _ => if target = .PROGRAM then none else some ("exit", target, true)
  | .continueLoop (some target) => some ("continue", target, target != .CASE && target != .DISPLAY)
  | _ => none

/-- Reports a jump to a block that does not enclose it. -/
def checkJump (ctx : Context) (n : Node) : Parser Unit :=
  match jump? n.kind with
  | none => pure ()
  | some (word, target, possible) =>
    if possible && ctx.exits.contains (.keyword target) then pure ()
    else report .noEnclosingBlock [word, target.text] n.extent.span

/-- Reads one statement, or skips what starts none; the first token is read. -/
def bodyStep (statement : Option FormParser) (ctx : Context) (region : Region) (p : Progress)
    (step : Choice × Nat) : Parser Progress := do
  let t ← last
  match step.1, statement with
  | .form f word, some statement =>
    let n ← nested do
      let n ← statement f word ctx ⟨t, step.2⟩
      checkJump ctx n
      return n
    return { nodes := n.insert p.nodes, skipping := false }
  | .unavailable f, _ =>
    report .requiresVersion [f.name, f.version.render] t.span
    return p
  | .unexpected, _ =>
    skipUnexpected region.unexpected (!p.skipping)
    return { p with skipping := true }
  | _, _ => return p

/-- Decides whether the body stops, and if not, what to do with the next token. -/
def bodyGuard (atLimit : Bool) (ctx : Context) (region : Region) :
    Parser (Stop ⊕ (Choice × Nat)) := do
  match ← stopAtEnd? ctx region.terminator with
  | some stop => return .inl stop
  | none =>
    match ← stopAtToken? ctx with
    | some stop => return .inl stop
    | none =>
      let errors ← errorCount
      let choice ← chooseNext ctx.version atLimit (ctx.extra ++ region.productions)
      if choice matches .tooDeep then
        reportLimit
      return .inr (choice, errors)

/-- As `bodyGuard`, by the counter of nesting: where no level is left, nothing more is nested. Nor
is it at the `bottom` of the recursion, where nothing reads a statement. -/
def nestingGuard (bottom : Bool) (ctx : Context) (region : Region) :
    Parser (Stop ⊕ (Choice × Nat)) := do
  bodyGuard ((← limitReached) || bottom) ctx region

/-- Reads a body whose statements `statement` reads; without it they all nest too deep. -/
def bodyWith (statement : Option FormParser) : BodyParser := fun ctx region => do
  let (p, stop) ← loop .endOfFile (fun _ => nestingGuard statement.isNone ctx region)
    (bodyStep statement ctx region) {}
  return (p.nodes, stop)

/-! ## Lists of clauses -/

/-- Decides whether a list of clauses stops, and if not, whether a clause starts at the next token,
as `starts` says. -/
def clauseGuard (ctx : Context) (terminator : Kind) (starts : Parser Bool) :
    Parser (Stop ⊕ (Bool × Nat)) := do
  match ← stopAtEnd? ctx (some terminator) with
  | some stop => return .inl stop
  | none =>
    let errors ← errorCount
    if ← starts then return .inr (true, errors)
    else
      match ← stopAtToken? ctx with
      | some stop => return .inl stop
      | none => return .inr (false, errors)

/-- Reads one clause, or skips what starts none; the first token is read. -/
def clauseStep (clause : List Node → Opening → Parser Node) (p : Progress)
    (found : Bool × Nat) : Parser Progress := do
  if found.1 then
    let n ← clause p.nodes ⟨← last, found.2⟩
    return { nodes := n.insert p.nodes, skipping := false }
  else
    skipUnexpected .unexpectedToken (!p.skipping)
    return { p with skipping := true }

/-- Reads clauses up to the END of their block. `starts` says whether a clause starts at the next
token, `clause` reads one behind its first token and knows the clauses before it. -/
def clauses (ctx : Context) (terminator : Kind) (starts : Parser Bool)
    (clause : List Node → Opening → Parser Node) : Parser (List Node × Stop) := do
  let (p, stop) ← loop .endOfFile (fun _ => clauseGuard ctx terminator starts)
    (clauseStep clause) {}
  return (p.nodes, stop)

end Parser

end FourGL
