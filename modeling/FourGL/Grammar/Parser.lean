import FourGL.Grammar.State

/-!
# Parsers

A parser takes a state to a result and a new state in which no more of the text is left than before.
Parsers never fail: where something is missing they report it and go on. Loops read a token in each
round, so that they end.
-/

namespace FourGL

structure Parser (α : Type) where
  run : ParseState → α × ParseState
  /-- No token is given back. -/
  left_le : ∀ s, (run s).2.left ≤ s.left

namespace Parser

instance : Monad Parser where
  pure a := ⟨fun s => (a, s), fun _ => Nat.le_refl _⟩
  bind p f :=
    ⟨fun s =>
      match p.run s with
      | (a, t) => (f a).run t,
      fun s => Nat.le_trans ((f (p.run s).1).left_le _) (p.left_le s)⟩

@[simp] theorem run_pure (a : α) (s : ParseState) : (pure a : Parser α).run s = (a, s) := rfl

@[simp] theorem run_bind (p : Parser α) (f : α → Parser β) (s : ParseState) :
    (p >>= f).run s = (f (p.run s).1).run (p.run s).2 := rfl

/-- A value read off the state. -/
def ask (f : ParseState → α) : Parser α := ⟨fun s => (f s, s), fun _ => Nat.le_refl _⟩

/-! ## Reading -/

/-- The token at a depth, where the next one has depth 1. -/
def peekAt (depth : Nat) : Parser Token :=
  ⟨fun s => (s.input.tokenAt depth, { s with input := s.input.inspect depth }),
    fun _ => Nat.le_refl _⟩

def peek : Parser Token := peekAt 1

def peekKind : Parser Kind := do return (← peek).kind

def nextIs (k : Kind) : Parser Bool := do return (← peekKind) == k

/-- Whether the token behind the next one is of a kind. -/
def secondIs (k : Kind) : Parser Bool := do return (← peekAt 2).kind == k

/-- Whether two conditions hold; the second is looked at only if the first one does. -/
def both (p q : Parser Bool) : Parser Bool := do
  if ← p then q else return false

/-- Whether the next token is of a kind and a name follows it. -/
def nextBeforeName (k : Kind) : Parser Bool :=
  both (nextIs k) (do return (← peekAt 2).kind.canBeName)

/-- Whether tokens of the kinds `k` and `l` come next. -/
def nextAre (k l : Kind) : Parser Bool := both (nextIs k) (secondIs l)

/-- Reads the next token. -/
def next : Parser Token :=
  ⟨fun s => (s.input.advance.last, { s with input := s.input.advance }),
    fun s => s.input.length_rest_advance_le⟩

/-- The token read last. -/
def last : Parser Token := ask (·.input.last)

/-- Where the token read last ends. -/
def lastStop : Parser Nat := do return (← last).stop

/-- Where the next token starts. -/
def nextStart : Parser Nat := do return (← peek).start

/-- The stretch from `start` to the end of the token read last. -/
def spanFrom (start : Nat) : Parser Span := do return .between start (max (← lastStop) start)

/-! ## Reporting -/

def report (m : Message) (args : List String) (span : Span) : Parser Unit :=
  ⟨fun s => ((), { s with reports := .of m args (some span) :: s.reports }),
    fun _ => Nat.le_refl _⟩

/-- Reports about the next token. -/
def reportNext (m : Message) (args : List String) : Parser Unit := do
  report m args (← peek).span

def errorCount : Parser Nat := ask (·.errorCount)

/-- Reports that the next token nests too deep, only the first time. -/
def reportLimit : Parser Unit := do
  unless ← ask (·.limitReported) do
    reportNext .nestingTooDeep []
  ⟨fun s => ((), { s with limitReported := true }), fun _ => Nat.le_refl _⟩

/-! ## Nesting -/

def modifyNesting (f : Nesting → Nesting) : Parser Unit :=
  ⟨fun s => ((), { s with nesting := f s.nesting }), fun _ => Nat.le_refl _⟩

/-- Whether no level of nesting is left. -/
def limitReached : Parser Bool := ask (·.nesting.isFull)

/-- Goes one level deeper; answers whether it did. Where no level is left, this is reported. -/
def enter : Parser Bool := do
  if ← limitReached then
    reportLimit
    return false
  else
    modifyNesting .enter
    return true

def leave : Parser Unit := modifyNesting .leave

/-- Reads something one level deeper, where a level has been found to be left. -/
def nested (p : Parser α) : Parser α := do
  modifyNesting .enter
  let a ← p
  leave
  return a

/-- Reads something one level deeper, or what `tooDeep` reads where no level is left. -/
def nestedOr (tooDeep p : Parser α) : Parser α := do
  if ← enter then
    let a ← p
    leave
    return a
  else tooDeep

theorem run_nestedOr (tooDeep p : Parser α) (s : ParseState) :
    (nestedOr tooDeep p).run s =
      if s.nesting.isFull then (do reportLimit; tooDeep : Parser α).run s
        else (nested p).run s := by
  have hlimit : limitReached.run s = (s.nesting.isFull, s) := rfl
  rw [nestedOr, enter, run_bind, run_bind, hlimit]
  cases s.nesting.isFull <;> rfl

/-- What is read one level deeper or not at all, by whether the limit is reached. -/
theorem nestedOr_cases {tooDeep p : Parser α} {P : ParseState → α × ParseState → Prop}
    (hdeep : ∀ s, s.nesting.isFull = true → P s ((do reportLimit; tooDeep : Parser α).run s))
    (hp : ∀ s, s.nesting.isFull = false → P s ((nested p).run s)) (s : ParseState) :
    P s ((nestedOr tooDeep p).run s) := by
  rw [run_nestedOr]
  split
  next h => exact hdeep s h
  next h => exact hp s (Bool.eq_false_iff.mpr h)

/-! ## Tokens that may or must follow -/

/-- Reads the next token if it is of a kind. -/
def optional (k : Kind) : Parser Bool := do
  if ← nextIs k then
    let _ ← next
    return true
  else
    return false

/-- Reads the next token if it is of a kind, else reports that it should be. -/
def expect (k : Kind) : Parser Bool := do
  if ← optional k then
    return true
  else
    reportNext .expected [k.text]
    return false

/-- Reads a name, if one follows. -/
def name? : Parser (Option (String × Span)) := do
  let t ← peek
  if t.kind.canBeName then
    let _ ← next
    return some (t.text, t.span)
  else
    return none

/-- Reads a name or reports that one should follow. -/
def expectName : Parser (Option (String × Span)) := do
  match ← name? with
  | some name => return some name
  | none =>
    reportNext .identifierExpected []
    return none

/-- Reads a name or reports that one should follow; only its text counts. -/
def expectNameText : Parser (Option String) := do return (← expectName).map (·.1)

/-! ## Names -/

def getNames : Parser Names := ask (·.names)

def setNames (names : Names) : Parser Unit :=
  ⟨fun s => ((), { s with names }), fun _ => Nat.le_refl _⟩

def modifyNames (f : Names → Names) : Parser Unit := do setNames (f (← getNames))

/-! ## Loops -/

/-- Runs rounds from the value `a` on. A round starts with `guard`, which looks ahead and says what
to do, or stops the loop; then it reads one token and runs `body`. Where nothing is left to read,
the loop stops with `atEnd`. -/
def loopFrom (atEnd : β) (guard : σ → Parser (β ⊕ γ))
    (body : σ → γ → Parser σ) (a : σ) (s : ParseState) : (σ × β) × ParseState :=
  match _h : (guard a).run s with
  | (.inl b, t) => ((a, b), t)
  | (.inr g, t) =>
    match _hrest : t.input.rest with
    | [] => ((a, atEnd), t)
    | _ :: _ =>
      let r := (body a g).run { t with input := t.input.advance }
      loopFrom atEnd guard body r.1 r.2
termination_by s.left
decreasing_by
  have hguard := (guard a).left_le s
  have hbody := (body a g).left_le { t with input := t.input.advance }
  rw [‹(guard a).run s = _›] at hguard
  have hnext : t.input.advance.rest.length < t.input.rest.length :=
    Lookahead.length_rest_advance_lt (by simp [*])
  exact Nat.lt_of_le_of_lt hbody (Nat.lt_of_lt_of_le hnext hguard)

theorem left_loopFrom_le (atEnd : β) (guard : σ → Parser (β ⊕ γ))
    (body : σ → γ → Parser σ) (a : σ)
    (s : ParseState) : (loopFrom atEnd guard body a s).2.left ≤ s.left := by
  fun_induction loopFrom atEnd guard body a s with
  | case1 a s b t h => simpa [h] using (guard a).left_le s
  | case2 a s g t h _ => simpa [h] using (guard a).left_le s
  | case3 a s g t h _ _ _ r ih =>
    have hguard := (guard a).left_le s
    rw [h] at hguard
    exact Nat.le_trans ih (Nat.le_trans ((body a g).left_le _)
      (Nat.le_trans t.input.length_rest_advance_le hguard))

/-- The loop as a parser of the last value and the reason to stop. -/
def loop (atEnd : β) (guard : σ → Parser (β ⊕ γ)) (body : σ → γ → Parser σ) (a : σ) :
    Parser (σ × β) :=
  ⟨loopFrom atEnd guard body a, left_loopFrom_le atEnd guard body a⟩

/-- As long as `guard` finds something to do, reads one token and does it. -/
def whileNext (guard : σ → Parser (Option γ)) (body : σ → γ → Parser σ) (a : σ) :
    Parser σ := do
  let stopping (g : Option γ) : Unit ⊕ γ := g.elim (.inl ()) .inr
  return (← loop () (fun a => do return stopping (← guard a)) body a).1

/-- Something to do if a condition holds. -/
def when (condition : Parser Bool) : Parser (Option Unit) := do
  if ← condition then return some () else return none

/-- Whether a comma follows the items so far, the last of which could be read. -/
def commaFollows (state : List α × Bool) : Parser (Option Unit) :=
  if state.2 then when (nextIs (.mark .comma)) else pure none

/-- Behind the items `as`: more of them, each behind a comma, up to the first that cannot be
read. -/
def commaTail (item : Parser (Option α)) (as : List α) : Parser (List α) := do
  let another : List α × Bool → Unit → Parser (List α × Bool) := fun (as, _) _ => do
    match ← item with
    | some a => return (as ++ [a], true)
    | none => return (as, false)
  return (← whileNext commaFollows another (as, true)).1

/-- Items with commas between them, up to the first that cannot be read. -/
def commaList (item : Parser (Option α)) : Parser (List α) := do
  match ← item with
  | some a => commaTail item [a]
  | none => return []

end Parser

end FourGL
