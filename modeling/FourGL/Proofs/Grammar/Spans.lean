import FourGL.Proofs.Grammar.Precedence

/-!
# Where expressions stand

The operands, arguments and indices of an expression stand inside it, one behind the other; only
placeholders of no characters can stand elsewhere. The stretch of an expression is measured from a
place that was remembered when it began up to the token that was read last, so what has to be known
of a parser is where it begins: everything that it leaves stands between the next token and the
place where it stops (`YieldsRow`). Behind the first token of an expression or a statement the
expressions in it are then laid out one after the other (`BehindRow`).
-/

namespace FourGL

open FourGL.Parser FourGL.ParseState

/-! ## Expressions in a row -/

namespace Expression

/-- The expressions that are not empty stand one behind the other between two places. -/
structure Aligned (lo hi : Nat) (es : List Expression) : Prop where
  inside : ∀ e ∈ es, e.span.length ≠ 0 → lo ≤ e.span.start ∧ e.span.stop ≤ hi
  apart : es.Pairwise fun a b =>
    a.span.length ≠ 0 → b.span.length ≠ 0 → a.span.stop ≤ b.span.start

/-- The parts of the expression stand inside it, one behind the other, and if it is empty, it is a
placeholder. -/
structure Nests (e : Expression) : Prop where
  aligned : Aligned e.span.start e.span.stop e.parts
  placeholder : e.span.length = 0 → ∃ pos, e = .missing (.empty pos)

/-- The expressions stand one behind the other between two places, and so do their parts inside
them, however deep. -/
structure Row (lo hi : Nat) (es : List Expression) : Prop extends Aligned lo hi es where
  nests : ∀ e ∈ es, ∀ d : Expression, d.Within e → d.Nests

namespace Row

variable {e : Expression} {es fs : List Expression} {lo hi mid mid' lo' hi' : Nat}

theorem nil (lo hi : Nat) : Row lo hi [] := ⟨⟨nofun, .nil⟩, nofun⟩

theorem mono (h : Row lo hi es) (hlo : lo' ≤ lo) (hhi : hi ≤ hi') : Row lo' hi' es := by
  refine ⟨⟨fun e he hne => ?_, h.apart⟩, h.nests⟩
  obtain ⟨hstart, hstop⟩ := h.inside e he hne
  exact ⟨Nat.le_trans hlo hstart, Nat.le_trans hstop hhi⟩

/-- One row behind another. -/
theorem append (hes : Row lo mid es) (hfs : Row mid' hi fs) (hlo : lo ≤ mid')
    (hmid : mid ≤ mid') (hhi : mid ≤ hi) : Row lo hi (es ++ fs) := by
  refine ⟨⟨?_, ?_⟩, List.forall_mem_append.mpr ⟨hes.nests, hfs.nests⟩⟩
  · exact List.forall_mem_append.mpr
      ⟨(hes.mono (Nat.le_refl _) hhi).inside, (hfs.mono hlo (Nat.le_refl _)).inside⟩
  · refine List.pairwise_append.mpr ⟨hes.apart, hfs.apart, fun a ha b hb hane hbne => ?_⟩
    exact Nat.le_trans (hes.inside a ha hane).2 (Nat.le_trans hmid (hfs.inside b hb hbne).1)

/-- An expression that encloses its parts. -/
theorem enclose (h : Row lo hi e.parts) (hspan : e.span = .between lo hi) (hlt : lo < hi) :
    Row lo hi [e] := by
  have hstop : e.span.stop = hi := hspan ▸ Span.stop_between (Nat.le_of_lt hlt)
  have hstart : e.span.start = lo := congrArg Span.start hspan
  have hlength : e.span.length = hi - lo := congrArg Span.length hspan
  have hnests : e.Nests := ⟨by rw [hstart, hstop]; exact h.toAligned, fun hempty => by omega⟩
  refine ⟨⟨?_, List.pairwise_singleton _ _⟩, ?_⟩
  · exact List.forall_mem_singleton.mpr fun _ => ⟨hstart.ge, hstop.le⟩
  · exact List.forall_mem_singleton.mpr (Within.forall_of_parts hnests h.nests)

/-- A placeholder of no characters can stand anywhere. -/
theorem missing (pos : Nat) : Row lo hi [.missing (.empty pos)] := by
  have hnests : (Expression.missing (.empty pos)).Nests :=
    ⟨⟨nofun, .nil⟩, fun _ => ⟨pos, rfl⟩⟩
  refine ⟨⟨?_, List.pairwise_singleton _ _⟩, ?_⟩
  · exact List.forall_mem_singleton.mpr fun hne => absurd rfl hne
  · exact List.forall_mem_singleton.mpr (Within.forall_of_parts hnests nofun)

end Row

end Expression

/-! ## The next token -/

namespace ParseState

/-- Where the next token starts. -/
def front (s : ParseState) : Nat := (s.input.tokenAt 1).start

theorem Looks.front (h : Looks s t) : t.front = s.front := congrArg Token.start (h.tokenAt 1)

namespace At

theorem tokenAt_cases (h : At text s) :
    s.input.tokenAt 1 = .endOfFile text.length ∨
      ∃ l ∈ s.input.rest, s.input.tokenAt 1 = l.token := by
  cases hrest : s.input.rest with
  | nil => exact .inl (by simp [Lookahead.tokenAt, hrest, h.length_eq])
  | cons l ls => exact .inr ⟨l, List.mem_cons_self, by simp [Lookahead.tokenAt, hrest]⟩

theorem place_le_front (h : At text s) : s.place ≤ s.front := by
  unfold front
  rcases h.tokenAt_cases with htoken | ⟨l, hl, htoken⟩ <;> rw [htoken]
  · exact h.place_le
  · exact h.le_start l hl

theorem front_le_read (h : At text s) : s.front ≤ s.read.place := by
  unfold front place
  rw [last_read]
  rcases h.tokenAt_cases with htoken | ⟨l, hl, htoken⟩ <;> rw [htoken]
  · exact Nat.le_refl _
  · exact (bounds_of_mem_tokens (h.mem_tokens hl)).1

theorem front_lt_read (h : At text s) (hkind : s.kindAt 1 ≠ .endOfFile) :
    s.front < s.read.place := by
  have hlt := (h.read_token hkind).2
  rwa [last_read] at hlt

/-- The next token of a later state does not stand before that of an earlier one. -/
theorem front_le (h : At text s) (hlater : Later s t) : s.front ≤ t.front := by
  obtain ⟨ts, htokensRead⟩ := hlater
  induction htokensRead with
  | refl => exact Nat.le_refl _
  | look _ hlook ih => exact hlook.front ▸ ih
  | read htokensRead ih =>
    have hat := (htokensRead.onward h).1
    exact Nat.le_trans ih (Nat.le_trans hat.front_le_read hat.read.1.place_le_front)
  | report _ _ _ _ ih | limit _ _ ih | rename _ _ ih => exact ih

end At

end ParseState

namespace Parser

open Expression (Row)

variable {text : String} {lo : Nat} {es fs : List Expression}

/-! ## What a parser leaves behind it -/

/-- From the state on, all expressions in the result stand between the next token and the place
where the parser stops. -/
def YieldsRowFrom (es : α → List Expression) (p : Parser α) (s : ParseState) : Prop :=
  Row s.front (p.run s).2.place (es (p.run s).1)

/-- All expressions in the result stand where the parser has read. -/
def YieldsRow (text : String) (es : α → List Expression) (p : Parser α) : Prop :=
  ∀ s, At text s → p.YieldsRowFrom es s

/-- Behind a token at `lo`, where the expressions `es` stand in a row up to the place, `Q` holds of
the result and of the place behind it. -/
structure BehindRow (text : String) (lo : Nat) (es : List Expression) (Q : α → Nat → Prop)
    (p : Parser α) : Prop where
  result : ∀ s, At text s → lo < s.place → Row lo s.place es →
    Q (p.run s).1 (p.run s).2.place

namespace BehindRow

variable {Q : β → Nat → Prop} {p : Parser α} {f : α → Parser β}

theorem bind {fs : α → List Expression} [hflows : p.Flows]
    (hp : p.BehindRow text lo es fun a hi => Row lo hi (fs a))
    (hf : ∀ a, (f a).BehindRow text lo (fs a) Q) : (p >>= f).BehindRow text lo es Q := by
  constructor
  intro s hat hlt hrow
  obtain ⟨hat', hle⟩ := (hflows.flows s).later.onward hat
  exact (hf _).result _ hat' (Nat.lt_of_lt_of_le hlt hle) (hp.result s hat hlt hrow)

/-- What the first part leaves is put behind the row. -/
theorem leave {fs : α → List Expression} [hflows : p.Flows] (hp : p.YieldsRow text fs)
    (hf : ∀ a, (f a).BehindRow text lo (es ++ fs a) Q) : (p >>= f).BehindRow text lo es Q := by
  refine bind ⟨fun s hat hlt hrow => ?_⟩ hf
  have hfront := hat.place_le_front
  have hle := ((hflows.flows s).later.onward hat).2
  exact hrow.append (hp s hat) (Nat.le_of_lt (Nat.lt_of_lt_of_le hlt hfront)) hfront hle

/-- Where it does not matter what the first part yields. -/
theorem behind [hflows : p.Flows] (hf : ∀ a, (f a).BehindRow text lo es Q) :
    (p >>= f).BehindRow text lo es Q := by
  have hp : p.BehindRow text lo es fun _ hi => Row lo hi es :=
    ⟨fun s hat _ hrow => hrow.mono (Nat.le_refl _) ((hflows.flows s).later.onward hat).2⟩
  exact bind hp hf

theorem pure {Q : α → Nat → Prop} {a : α} (h : ∀ hi, lo < hi → Row lo hi es → Q a hi) :
    (pure a : Parser α).BehindRow text lo es Q :=
  ⟨fun s _ hlt hrow => h s.place hlt hrow⟩

theorem ite {Q : α → Nat → Prop} {c : Prop} [Decidable c] {q : Parser α}
    (hp : p.BehindRow text lo es Q)
    (hq : q.BehindRow text lo es Q) : (if c then p else q).BehindRow text lo es Q := by
  split
  · exact hp
  · exact hq

/-- The stretch from the token up to here encloses what stands in the row. -/
theorem spanFrom {make : Span → Expression} (hspan : ∀ span, (make span).span = span)
    (hparts : ∀ span, (make span).parts = es) :
    (do return make (← spanFrom lo) : Parser Expression).BehindRow text lo es
      fun e hi => Row lo hi [e] := by
  constructor
  intro s _ hlt hrow
  have hmax : max s.place lo = s.place := Nat.max_eq_left (Nat.le_of_lt hlt)
  change Row lo s.place [make (.between lo (max s.place lo))]
  rw [hmax]
  exact .enclose (by rwa [hparts]) (hspan _) hlt

end BehindRow

/-! ## Loops and lists -/

section

variable {guard : σ → Parser (β ⊕ γ)} {body : σ → γ → Parser σ}
    {es : σ → List Expression}

/-- The rounds of a loop lay out one expression after the other. -/
theorem row_loop [hguards : ∀ a, (guard a).Flows]
    [hbodies : ∀ a g, (body a g).Flows] {atEnd : β}
    (hfound : ∀ {a s g t}, (guard a).run s = (.inr g, t) → t.kindAt 1 ≠ .endOfFile)
    (hbody : ∀ a g, (body a g).BehindRow text lo (es a) fun b hi => Row lo hi (es b))
    (hat : At text s)
    (hlo : lo ≤ s.front) (hrow : Row lo s.place (es a)) :
    Row lo ((loop atEnd guard body a).run s).2.place
      (es ((loop atEnd guard body a).run s).1.1) := by
  change Row lo (loopFrom atEnd guard body a s).2.place (es (loopFrom atEnd guard body a s).1.1)
  fun_induction loopFrom atEnd guard body a s with
  | case1 a s _ t h | case2 a s _ t h _ =>
    exact hrow.mono (Nat.le_refl _) (((hguards a).of_run h).later.onward hat).2
  | case3 a s g t h _ _ _ r ih =>
    have hlater := ((hguards a).of_run h).later
    obtain ⟨hat', hle⟩ := hlater.onward hat
    obtain ⟨hread, hle'⟩ := hat'.read
    have hlt : lo < t.read.place :=
      Nat.lt_of_le_of_lt (Nat.le_trans hlo (hat.front_le hlater)) (hat'.front_lt_read (hfound h))
    have hrow' := (hbody a g).result t.read hread hlt
      (hrow.mono (Nat.le_refl _) (Nat.le_trans hle hle'))
    obtain ⟨hend, hle''⟩ := ((hbodies a g).flows t.read).later.onward hread
    exact ih hend (Nat.le_trans (Nat.le_of_lt (Nat.lt_of_lt_of_le hlt hle''))
      hend.place_le_front) hrow'

end

section

variable {guard : σ → Parser (Option γ)} {body : σ → γ → Parser σ}
    (es : σ → List Expression)

theorem row_whileNext [∀ a, (guard a).Flows] [∀ a g, (body a g).Flows]
    (hfound : ∀ {a s g t}, (guard a).run s = (some g, t) → t.kindAt 1 ≠ .endOfFile)
    (hbody : ∀ a g, (body a g).BehindRow text lo (es a) fun b hi => Row lo hi (es b))
    (hat : At text s)
    (hlo : lo ≤ s.front) (hrow : Row lo s.place (es a)) :
    Row lo ((whileNext guard body a).run s).2.place (es ((whileNext guard body a).run s).1) := by
  refine row_loop (fun {a s g t} h => ?_) hbody hat hlo hrow
  obtain ⟨found, u, hrun, hresult⟩ := run_of_bind h
  obtain ⟨hsome, rfl⟩ := Prod.mk.inj hresult
  cases found with
  | none => cases hsome
  | some g => exact hfound hrun

end

/-- What the items of a list leave stands in a row. -/
theorem yieldsRow_commaList {item : Parser (Option α)} [hflows : item.Flows]
    {es : α → List Expression} (hitem : item.YieldsRow text fun found =>
      found.toList.flatMap es) :
    (commaList item).YieldsRow text (·.flatMap es) := by
  intro s hat
  have hlater := (hflows.flows s).later
  have hfirst := hitem s hat
  unfold YieldsRowFrom at hfirst ⊢
  rw [commaList, run_bind]
  cases hfound : (item.run s).1 with
  | none => exact .nil _ _
  | some a =>
    rw [hfound] at hfirst
    refine row_whileNext (fun state : List α × Bool => state.1.flatMap es)
      (fun h => by rw [commaFollows_found h]; exact Kind.noConfusion) (fun state _ => ?_)
      (hlater.onward hat).1 (hat.front_le hlater) hfirst
    refine .leave hitem fun found => ?_
    cases found with
    | none => exact .pure fun hi _ hrow => by simpa using hrow
    | some a => exact .pure fun hi _ hrow => by simpa using hrow

/-! ## Where phrases begin -/

section

variable {p : Parser α} {f : α → Parser β} {es : β → List Expression}

theorem yieldsRowFrom_look (hp : p.Peeks)
    (hf : ∀ t, Looks s t → (f (p.run s).1).YieldsRowFrom es t) :
    (p >>= f).YieldsRowFrom es s := by
  have hrest := hf _ (hp s)
  unfold YieldsRowFrom at hrest ⊢
  rwa [(hp s).front] at hrest

/-- Where the first token is read, the row begins there. -/
theorem yieldsRowFrom_next {f : Token → Parser β} (hat : At text s)
    (hkind : s.kindAt 1 ≠ .endOfFile) (hlo : s.front = lo)
    (hf : ∀ t, (f t).BehindRow text lo [] fun b hi => Row lo hi (es b)) :
    (next >>= f).YieldsRowFrom es s := by
  subst hlo
  exact (hf _).result s.read hat.read.1 (hat.front_lt_read hkind) (.nil _ _)

namespace YieldsRow

theorem map {fs : α → List Expression} {g : α → β} (hp : p.YieldsRow text fs)
    (hg : ∀ a, es (g a) = fs a) : (do return g (← p)).YieldsRow text es := by
  intro s hat
  change Row s.front (p.run s).2.place (es (g (p.run s).1))
  rw [hg]
  exact hp s hat

theorem pure {b : β} (h : es b = []) : (pure b : Parser β).YieldsRow text es := by
  intro s _
  change Row s.front s.place (es b)
  rw [h]
  exact .nil _ _

theorem ite {c : Prop} [Decidable c] {p q : Parser β} (hp : p.YieldsRow text es)
    (hq : q.YieldsRow text es) : (if c then p else q).YieldsRow text es := by
  split
  · exact hp
  · exact hq

/-- Where the first part leaves nothing. -/
theorem behind [hflows : p.Flows] (hf : ∀ a, (f a).YieldsRow text es) :
    (p >>= f).YieldsRow text es := by
  intro s hat
  have hlater := (hflows.flows s).later
  exact (hf _ _ (hlater.onward hat).1).mono (hat.front_le hlater) (Nat.le_refl _)

/-- Where the second part only goes on. -/
theorem before {fs : α → List Expression} [hflows : p.Flows] [hrest : ∀ a, (f a).Flows]
    (hp : p.YieldsRow text fs) (hf : ∀ a s, es ((f a).run s).1 = fs a) :
    (p >>= f).YieldsRow text es := by
  intro s hat
  have hat' := ((hflows.flows s).later.onward hat).1
  have hle := (((hrest (p.run s).1).flows (p.run s).2).later.onward hat').2
  unfold YieldsRowFrom
  rw [run_bind, hf]
  exact (hp s hat).mono (Nat.le_refl _) hle

end YieldsRow

end

theorem yieldsRow_missingExpression : missingExpression.YieldsRow text ([·]) :=
  fun _ _ => .missing _

theorem optional_cases (k : Kind) (s : ParseState) :
    ∃ t, Looks s t ∧ ((optional k).run s = (true, t.read) ∧ t.kindAt 1 = k ∨
      (optional k).run s = (false, t)) := by
  obtain ⟨found, t, hrun⟩ : ∃ found t, (nextIs k).run s = (found, t) := ⟨_, _, rfl⟩
  have hlook : Looks s t := Peeks.of_run (.bind peeks_peekKind fun _ => .pure _) hrun
  refine ⟨t, hlook, ?_⟩
  rw [optional, run_bind, hrun]
  cases found with
  | true => exact .inl ⟨rfl, kindAt_of_nextIs hrun⟩
  | false => exact .inr rfl

theorem name?_found {name : String × Span} (h : name?.run s = (some name, t)) :
    ∃ u, Looks s u ∧ t = u.read ∧ s.kindAt 1 ≠ .endOfFile ∧ name.2.start = s.front := by
  obtain ⟨token, u, hpeek, h⟩ := run_of_bind h
  have hlook : Looks s u := (peeks_peekAt 1).of_run hpeek
  have htoken : s.input.tokenAt 1 = token := (hlook.tokenAt 1).symm.trans (tokenAt_of_peekAt hpeek)
  split at h
  next hname =>
    cases h
    rw [ParseState.kindAt, ParseState.front, htoken]
    exact ⟨u, hlook, rfl, (ne_of_canBeName hname).2, rfl⟩
  next => cases h

/-! ## Expressions -/

section

variable {deeper : Nat → Parser Expression} [hflows : ∀ rank, (deeper rank).Flows]
  (hdeeper : ∀ rank, (deeper rank).YieldsRow text ([·]))
include hdeeper

omit hflows in
theorem yieldsRow_expressionWith? : (expressionWith? deeper).YieldsRow text Option.toList := by
  unfold expressionWith?
  exact .behind fun _ => .ite (.map (hdeeper _) fun _ => rfl) (.pure rfl)

omit hflows in
theorem yieldsRow_expectExpressionWith : (expectExpressionWith deeper).YieldsRow text ([·]) := by
  intro s hat
  have hfound := yieldsRow_expressionWith? hdeeper s hat
  unfold YieldsRowFrom at hfound ⊢
  rw [expectExpressionWith, run_bind]
  cases h : ((expressionWith? deeper).run s).1 with
  | none => exact .missing _
  | some e =>
    rw [h] at hfound
    exact hfound

theorem yieldsRow_expressionListWith : (expressionListWith deeper).YieldsRow text fun es => es := by
  have hlist : (expressionListWith deeper).YieldsRow text (·.flatMap ([·])) :=
    yieldsRow_commaList ((yieldsRow_expectExpressionWith hdeeper).map fun _ => rfl)
  simpa only [List.flatMap_singleton'] using hlist

theorem behindRow_accessor (selection : Selection) :
    (accessor deeper selection).BehindRow text lo es fun a hi => Row lo hi (es ++ a.parts) := by
  cases selection with
  | member =>
    exact .behind fun _ => .pure fun hi _ hrow => by rwa [Accessor.parts, List.append_nil]
  | allMembers =>
    exact .behind fun _ => .pure fun hi _ hrow => by rwa [Accessor.parts, List.append_nil]
  | index =>
    exact .leave (yieldsRow_expressionListWith hdeeper) fun _ => .behind fun _ =>
      .pure fun _ _ => id

/-- The indices of a name stand in it, and its stretch is where it is read. -/
theorem designatorWith?_found (hat : At text s) (h : (designatorWith? deeper).run s = (some d, t)) :
    s.front < t.place ∧ d.span = .between s.front t.place ∧ Row s.front t.place d.parts := by
  obtain ⟨found, u, hname, h⟩ := run_of_bind h
  cases found with
  | none => cases h
  | some name =>
    obtain ⟨v, hlook, rfl, hkind, hstart⟩ := name?_found hname
    have hat' := (hat.looks hlook).1
    have hlt : s.front < v.read.place :=
      hlook.front ▸ hat'.front_lt_read (hlook.kindAt 1 ▸ hkind)
    let guard (_ : List Accessor) : Parser (Option Selection) := selection?
    have hfound {as s g t} (h : (guard as).run s = (some g, t)) : t.kindAt 1 ≠ .endOfFile := by
      rcases (selection?_found h).1 with hkind | hkind <;> rw [hkind] <;> exact Kind.noConfusion
    let step (as : List Accessor) (selection : Selection) : Parser (List Accessor) := do
      return as ++ [← accessor deeper selection]
    have hstep (as : List Accessor) (selection : Selection) :
        (step as selection).BehindRow text s.front (as.flatMap Accessor.parts)
          fun as hi => Row s.front hi (as.flatMap Accessor.parts) :=
      (behindRow_accessor hdeeper selection).bind fun a => .pure fun hi _ hrow => by
        simpa using hrow
    obtain ⟨accessors, w, hloop, h⟩ := run_of_bind h
    have hrow := row_whileNext (a := [])
      (fun as => as.flatMap Accessor.parts) @hfound hstep hat'.read.1
      (Nat.le_of_lt (Nat.lt_of_lt_of_le hlt hat'.read.1.place_le_front)) (.nil _ _)
    have hplace : v.read.place ≤ w.place :=
      ((Flows.of_run inferInstance hloop).later.onward hat'.read.1).2
    have hmax : max w.place name.2.start = w.place := by rw [hstart]; omega
    rw [hloop] at hrow
    cases h
    refine ⟨Nat.lt_of_lt_of_le hlt hplace, ?_, hrow⟩
    exact (congrArg (Span.between name.2.start) hmax).trans (congrArg (Span.between · _) hstart)

theorem behindRow_callWith (callee : Designator) :
    (callWith deeper callee).BehindRow text callee.span.start callee.parts
      fun e hi => Row callee.span.start hi [e] := by
  have hrest (arguments : List Expression) :
      BehindRow text callee.span.start (callee.parts ++ arguments)
        (fun e hi => Row callee.span.start hi [e]) (do
          let _ ← expect (.mark .closeParen)
          return Expression.call (← spanFrom callee.span.start) callee arguments) :=
    .behind fun _ => .spanFrom (fun _ => rfl) fun _ => rfl
  unfold callWith
  dsimp only
  refine .behind fun _ => .behind fun _ => .ite ?_ ?_
  · exact .bind (.pure fun hi _ hrow => by simpa using hrow) hrest
  · exact .leave (yieldsRow_expressionListWith hdeeper) hrest

theorem yieldsRow_nameOrCall : YieldsRow text ([·]) (do
    match ← designatorWith? deeper with
    | none => missingExpression
    | some d => if ← nextIs (.mark .openParen) then callWith deeper d else return .name d) := by
  intro s hat
  obtain ⟨found, t, hrun⟩ : ∃ found t, (designatorWith? deeper).run s =
      (found, t) := ⟨_, _, rfl⟩
  unfold YieldsRowFrom
  rw [run_bind, hrun]
  cases found with
  | none => exact .missing _
  | some d =>
    obtain ⟨hlt, hspan, hrow⟩ := designatorWith?_found hdeeper hat hrun
    have hat' := ((Flows.of_run inferInstance hrun).later.onward hat).1
    obtain ⟨isCall, u, hnext⟩ : ∃ isCall u, (nextIs (.mark .openParen)).run t = (isCall, u) :=
      ⟨_, _, rfl⟩
    have hlook : Looks t u := Peeks.of_run (.bind peeks_peekKind fun _ => .pure _) hnext
    dsimp only
    rw [run_bind, hnext]
    rw [← hlook.place] at hlt hspan hrow
    cases isCall with
    | true =>
      have hcall := (behindRow_callWith hdeeper d).result u (hat'.looks hlook).1
      rw [show d.span.start = s.front from congrArg Span.start hspan] at hcall
      exact hcall hlt hrow
    | false => exact .enclose hrow hspan hlt

theorem yieldsRow_primaryWith : (primaryWith deeper).YieldsRow text ([·]) := by
  intro s hat
  refine yieldsRowFrom_look (peeks_peekAt 1) fun t hlook => ?_
  have hat' := (hat.looks hlook).1
  split
  next kind hkind =>
    have hne : t.kindAt 1 ≠ .endOfFile := by
      rw [hlook.kindAt 1]
      intro hend
      change literalKind? (s.kindAt 1) = some kind at hkind
      rw [hend] at hkind
      cases hkind
    refine yieldsRowFrom_next hat' hne hlook.front fun _ => ?_
    exact .spanFrom (fun _ => rfl) fun _ => rfl
  next =>
    obtain ⟨u, hlook', ⟨hrun, hkind⟩ | hrun⟩ := optional_cases (.mark .openParen) t
    · have hat'' := (hat'.looks hlook').1
      have hinner : BehindRow text s.front [] (fun e hi => Row s.front hi [e]) (do
          let inner ← expectExpressionWith deeper
          let _ ← expect (.mark .closeParen)
          return Expression.parenthesized (← spanFrom s.front) inner) :=
        .leave (yieldsRow_expectExpressionWith hdeeper) fun _ => .behind fun _ =>
          .spanFrom (fun _ => rfl) fun _ => rfl
      unfold YieldsRowFrom
      rw [run_bind, hrun, hlook.front]
      have hlt := hat''.front_lt_read (by rw [hkind]; exact Kind.noConfusion)
      rw [hlook'.front, hlook.front] at hlt
      exact hinner.result u.read hat''.read.1 hlt (.nil _ _)
    · have hname := yieldsRow_nameOrCall hdeeper u (hat'.looks hlook').1
      unfold YieldsRowFrom at hname ⊢
      rw [run_bind, hrun, ← hlook'.front]
      exact hname

theorem yieldsRow_unaryWith : (unaryWith deeper).YieldsRow text ([·]) := by
  intro s hat
  refine yieldsRowFrom_look (peeks_peekAt 1) fun t hlook => ?_
  have hat' := (hat.looks hlook).1
  split
  next => exact yieldsRow_primaryWith hdeeper t hat'
  next rank hrank =>
    have hne : t.kindAt 1 ≠ .endOfFile := by
      rw [hlook.kindAt 1]
      intro hend
      change operandRank? (s.kindAt 1) = some rank at hrank
      rw [hend] at hrank
      cases hrank
    have hrest (kind : Kind) (operand : Expression) :
        BehindRow text s.front [operand] (fun e hi => Row s.front hi [e]) (do
          return Expression.unary (← spanFrom s.front) kind operand) :=
      .spanFrom (fun _ => rfl) fun _ => rfl
    refine yieldsRowFrom_next hat' hne hlook.front fun _ => .behind fun _ => .ite ?_ ?_
    · exact .leave (hdeeper _) (hrest _)
    · exact .leave yieldsRow_missingExpression (hrest _)

theorem behindRow_continueWith (left : Expression) (continuation : Continuation) :
    (continueWith deeper lo left continuation).BehindRow text lo [left] fun e hi =>
    Row lo hi [e] := by
  unfold continueWith
  cases continuation with
  | isNull => exact .behind fun _ => .behind fun _ => .spanFrom (fun _ => rfl) fun _ => rfl
  | clipped => exact .spanFrom (fun _ => rfl) fun _ => rfl
  | binary operator negated level =>
    have hrest : BehindRow text lo [left] (fun e hi => Row lo hi [e]) (do
        let right ← deeper (rightRank operator level)
        return Expression.binary (← spanFrom lo) left operator negated right) :=
      .leave (hdeeper _) fun _ => .spanFrom (fun _ => rfl) fun _ => rfl
    exact .ite (.behind fun _ => hrest) hrest

end

theorem front_reportLimit (s : ParseState) : (reportLimit.run s).2.front = s.front := by
  rcases reportLimit_cases s with ⟨-, hrun⟩ | ⟨t, hlook, hrun⟩ <;> rw [hrun]
  exact hlook.front

/-- Where no level of nesting is left, the token that is given up is the placeholder. -/
theorem yieldsRow_giveUp (least : Nat) : (operandAt 0 least).YieldsRow text ([·]) := by
  intro s hat
  obtain ⟨t, hlater, hfront, hrun⟩ : ∃ t, Later s t ∧ t.front = s.front ∧
      reportLimit.run s = ((), t) :=
    ⟨_, (careful_reportLimit (M := phraseMessages) .rfl s).later rfl, front_reportLimit s, rfl⟩
  obtain ⟨u, hlook, hnext⟩ : ∃ u, Looks t u ∧ nextStart.run t = (t.front, u) :=
    ⟨_, looks_inspect t 1, rfl⟩
  have hat' := ((hlater.onward hat).1.looks hlook).1
  have hle : t.front ≤ u.read.place := hlook.front ▸ hat'.front_le_read
  have hmissing : Row t.front u.read.place [.missing (.between t.front u.read.place)] := by
    rcases Nat.lt_or_eq_of_le hle with hlt | heq
    · exact .enclose (.nil _ _) rfl hlt
    · rw [← heq, show Span.between t.front t.front = .empty t.front by
        simp [Span.between, Span.empty]]
      exact .missing _
  rw [YieldsRowFrom, operandAt, run_bind, hrun, giveUp, run_bind, hnext, ← hfront]
  change Row t.front u.read.place [.missing (.between t.front (max u.read.place t.front))]
  rwa [Nat.max_eq_left hle]

/-- Everything that is read of an expression stands between its first token and its last one. -/
theorem yieldsRow_operandAt (levels least : Nat) :
    (operandAt levels least).YieldsRow text ([·]) := by
  induction levels generalizing least with
  | zero => exact yieldsRow_giveUp least
  | succ levels ih =>
    intro s hat
    obtain hdeep | ⟨-, _, ⟨⟩, hread⟩ := run_operandAt (levels + 1) least s
    · unfold YieldsRowFrom
      rw [hdeep]
      exact yieldsRow_giveUp least s hat
    unfold YieldsRowFrom
    rw [hread]
    have hlook := looks_nesting s s.nesting.enter
    have hat' := (hat.looks hlook).1
    generalize hu : { s with nesting := s.nesting.enter } = u at hlook hat'
    have hbody : YieldsRowFrom ([·]) (operandWith (operandAt levels) least) u := by
      refine yieldsRowFrom_look (.bind (peeks_peekAt 1) fun _ => .pure _) fun t hlook => ?_
      have hat := (hat'.looks hlook).1
      have hlater : Later t ((unaryWith (operandAt levels)).run t).2 :=
        (Flows.flows inferInstance t).later
      have hfirst := yieldsRow_unaryWith ih t hat
      unfold YieldsRowFrom at hfirst ⊢
      rw [run_bind]
      rw [hlook.front] at hfirst ⊢
      refine row_whileNext ([·]) (fun h => (continuation?_found h).1.2)
        (fun left continuation => behindRow_continueWith ih left continuation) (hlater.onward hat).1
        (hlook.front ▸ hat.front_le hlater) hfirst
    subst hu
    exact hbody

/-! ## Phrases where some levels of nesting are left -/

section

variable (levels : Nat)

theorem yieldsRow_expression? : (expression? levels).YieldsRow text Option.toList :=
  yieldsRow_expressionWith? (yieldsRow_operandAt levels)

theorem yieldsRow_expectExpression : (expectExpression levels).YieldsRow text ([·]) :=
  yieldsRow_expectExpressionWith (yieldsRow_operandAt levels)

theorem yieldsRow_expressionList : (expressionList levels).YieldsRow text fun es => es :=
  yieldsRow_expressionListWith (yieldsRow_operandAt levels)

theorem yieldsRow_optionalList : (optionalList levels).YieldsRow text fun es => es :=
  .behind fun _ => .ite (yieldsRow_expressionList levels) (.pure rfl)

theorem yieldsRow_listBehind (k : Keyword) : (listBehind levels k).YieldsRow text fun es => es :=
  .behind fun _ => .ite (yieldsRow_expressionList levels) (.pure rfl)

theorem yieldsRow_expressionOnLine? : (expressionOnLine? levels).YieldsRow text Option.toList :=
  .behind fun _ => .ite (yieldsRow_expression? levels) (.pure rfl)

theorem yieldsRow_someExpression :
    (some <$> expectExpression levels).YieldsRow text Option.toList :=
  .map (yieldsRow_expectExpression levels) fun _ => rfl

theorem yieldsRow_expressionBehind {follows : Parser Bool} [follows.Flows] :
    (expressionBehind levels follows).YieldsRow text Option.toList :=
  .behind fun _ => .ite (yieldsRow_someExpression levels) (.pure rfl)

theorem yieldsRow_cursorSource : (cursorSource levels).YieldsRow text (·.2.toList) := by
  refine .behind fun _ => .ite (.behind fun _ => .pure rfl) (.behind fun _ => .ite ?_ ?_)
  · exact .map (yieldsRow_expectExpression levels) fun _ => rfl
  · exact .behind fun _ => .pure rfl

end

end Parser

end FourGL
