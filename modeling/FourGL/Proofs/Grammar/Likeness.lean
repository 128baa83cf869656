import FourGL.Proofs.Grammar.Flow
import Mathlib.Data.List.Forall2

/-!
# Likeness

Two texts are read side by side. A `Likeness` says how far what is read from them may differ: which
words count as the same, and which offsets of the one text answer to which of the other. Under an
exact likeness nothing differs at all. From this follows what is alike among tokens, names, nodes
and states, and the steps that parsing takes lead from like to like.
-/

namespace FourGL

open FourGL.Parser FourGL.ParseState

/-- How far what is read from two texts may differ. -/
structure Likeness where
  left : String
  right : String
  /-- Nothing may differ. -/
  exact : Prop
  /-- Words that count as the same. -/
  text : String → String → Prop
  /-- Offsets at which corresponding tokens start. -/
  start : Nat → Nat → Prop
  /-- Offsets at which corresponding tokens end. -/
  stop : Nat → Nat → Prop
  text_refl : ∀ x, text x x
  text_exact : ∀ {x y}, exact → text x y → x = y
  sameName_eq : ∀ {x x' y y'}, text x x' → text y y' → sameName x y = sameName x' y'
  start_lt_iff : ∀ {p p' q q'}, start p p' → start q q' → (p < q ↔ p' < q')

namespace Likeness

/-- Values that are equal where nothing may differ. -/
def Same (L : Likeness) (x y : α) : Prop := L.exact → x = y

variable {L : Likeness}

theorem Same.rfl {x : α} : L.Same x x := fun _ => Eq.refl x

theorem Same.map {x y : α} (h : L.Same x y) (f : α → β) : L.Same (f x) (f y) :=
  fun hexact => congrArg f (h hexact)

theorem Same.map₂ {x x' : α} {y y' : β} (hx : L.Same x x') (hy : L.Same y y')
    (f : α → β → γ) :
    L.Same (f x y) (f x' y') := fun hexact => congr (congrArg f (hx hexact)) (hy hexact)

theorem same_of_text (h : L.text x y) : L.Same x y := fun hexact => L.text_exact hexact h

theorem start_le_iff (hp : L.start p p') (hq : L.start q q') : p ≤ q ↔ p' ≤ q' := by
  have := L.start_lt_iff hq hp
  omega

theorem start_eq_iff (hp : L.start p p') (hq : L.start q q') : p = q ↔ p' = q' := by
  have := L.start_le_iff hp hq
  have := L.start_le_iff hq hp
  omega

theorem same_of_forall₂ {R : α → α → Prop} (hR : ∀ x y, R x y → L.Same x y)
    {xs ys : List α} (h : List.Forall₂ R xs ys) : L.Same xs ys := by
  intro hexact
  have heq := h.imp fun x y hxy => hR x y hxy hexact
  rwa [List.forall₂_eq_eq_eq] at heq

theorem same_of_rel {R : α → α → Prop} (hR : ∀ x y, R x y → L.Same x y) {x y : Option α}
    (h : Option.Rel R x y) : L.Same x y := by
  cases h with
  | none => exact Same.rfl
  | some h => exact (hR _ _ h).map some

end Likeness

theorem isSome_eq_of_rel {R : α → β → Prop} (h : Option.Rel R x y) : x.isSome = y.isSome := by
  cases h <;> rfl

theorem any_eq_of_forall₂ {R : α → β → Prop} {p : α → Bool}
    {q : β → Bool} {xs : List α}
    {ys : List β} (h : List.Forall₂ R xs ys) (hpq : ∀ x y, R x y → p x = q y) :
    xs.any p = ys.any q := by
  induction h with
  | nil => rfl
  | cons hxy _ ih => rw [List.any_cons, List.any_cons, hpq _ _ hxy, ih]

variable {L : Likeness}

/-! ## Tokens and diagnostics -/

structure Token.Like (L : Likeness) (t u : Token) : Prop where
  same : L.Same t u
  kind_eq : t.kind = u.kind
  flags_eq : t.flags = u.flags
  text : L.text t.text u.text
  start : L.start t.start u.start
  stop : L.stop t.stop u.stop

theorem Token.Like.same_span (h : Token.Like L t u) : L.Same t.span u.span := h.same.map Token.span

/-- Words with the stretches where they stand. -/
structure Named (L : Likeness) (x y : String × Span) : Prop where
  same : L.Same x y
  text : L.text x.1 y.1
  start : L.start x.2.start y.2.start

theorem Token.Like.named (h : Token.Like L t u) : Named L (t.text, t.span) (u.text, u.span) where
  same := h.same.map fun t => (t.text, t.span)
  text := h.text
  start := h.start

structure Diagnostic.Like (L : Likeness) (d e : Diagnostic) : Prop where
  same : L.Same d e
  file_eq : d.file = e.file
  code_eq : d.code = e.code
  severity_eq : d.severity = e.severity
  start : L.start d.start e.start

namespace Diagnostic

theorem like_of (m : Message) {args args' : List String} (hargs : L.Same args args')
    {span span' : Span} (hspan : L.Same span span') (hstart : L.start span.start span'.start) :
    Like L (.of m args (some span)) (.of m args' (some span')) where
  same := hargs.map₂ hspan fun args span => Diagnostic.of m args (some span)
  file_eq := rfl
  code_eq := rfl
  severity_eq := rfl
  start := hstart

theorem errorCount_eq (h : List.Forall₂ (Like L) ds es) : errorCount ds = errorCount es := by
  induction h with
  | nil => rfl
  | cons hde _ ih =>
    unfold errorCount at *
    rw [List.countP_cons, List.countP_cons, ih, isError, isError, hde.severity_eq]

theorem notAfter_eq (hd : Like L d e) (hd' : Like L d' e') : notAfter d d' = notAfter e e' := by
  unfold notAfter
  rw [hd.file_eq, hd'.file_eq]
  simp only [L.start_le_iff hd.start hd'.start]

/-- Sorting keeps what is alike together. -/
theorem forall₂_sorted (h : List.Forall₂ (Like L) ds es) :
    List.Forall₂ (Like L) (sorted ds) (sorted es) := by
  obtain ⟨hlength, hzip⟩ := List.forall₂_iff_zip.mp h
  -- Both sort the list of pairs, each by its own side.
  have hds := List.map_fst_zip (Nat.le_of_eq hlength)
  have hes := List.map_snd_zip (Nat.le_of_eq hlength.symm)
  have hleft := List.map_mergeSort (f := Prod.fst) (l := ds.zip es)
    (r := fun x y => notAfter x.1 y.1) (s := notAfter) fun _ _ _ _ => rfl
  have hright := List.map_mergeSort (f := Prod.snd) (l := ds.zip es)
    (r := fun x y => notAfter x.1 y.1) (s := notAfter)
    fun x hx y hy => notAfter_eq (hzip hx) (hzip hy)
  rw [hds] at hleft
  rw [hes] at hright
  rw [sorted, sorted, ← hleft, ← hright, List.forall₂_map_left_iff,
    List.forall₂_map_right_iff, List.forall₂_same]
  intro x hx
  exact hzip (List.mem_mergeSort.mp hx)

end Diagnostic

structure Lexeme.Like (L : Likeness) (l m : Lexeme) : Prop where
  token : Token.Like L l.token m.token
  issues : List.Forall₂ (Diagnostic.Like L) l.issues m.issues

/-! ## Expressions and declarations -/

/-- A call of a function. -/
def Expression.isCall : Expression → Bool
  | call .. => true
  | _ => false

structure Expression.Like (L : Likeness) (e f : Expression) : Prop where
  same : L.Same e f
  isCall_eq : e.isCall = f.isCall

structure Variable.Like (L : Likeness) (v w : Variable) : Prop where
  same : L.Same v w
  named : Named L (v.name, v.span) (w.name, w.span)

structure Cursor.Like (L : Likeness) (c d : Cursor) : Prop where
  same : L.Same c d
  named : Named L (c.name, c.span) (d.name, d.span)

/-- Declarations of the same sort under the same name. -/
inductive Declaration.Like (L : Likeness) : Declaration → Declaration → Prop where
  | vars : L.text v.name w.name → Like L (.variable v) (.variable w)
  | constants : L.text c.name d.name → Like L (.constant c) (.constant d)
  | types : L.text t.name u.name → Like L (.type t) (.type u)

theorem Declaration.Like.text (h : Declaration.Like L d e) : L.text d.name e.name := by
  cases h <;> assumption

/-- The same names are declared, each in its place. -/
structure Scope.Like (L : Likeness) (s t : Scope) : Prop where
  vars : List.Forall₂ (fun v w => L.text v.name w.name) s.vars t.vars
  constants : List.Forall₂ (fun c d => L.text c.name d.name) s.constants t.constants
  types : List.Forall₂ (fun t u => L.text t.name u.name) s.types t.types
  cursors : List.Forall₂ (fun c d => L.text c.name d.name) s.cursors t.cursors

namespace Scope

theorem like_empty : Like L {} {} := ⟨.nil, .nil, .nil, .nil⟩

namespace Like

variable {s t : Scope}

theorem declares_eq (h : Like L s t) (htext : L.text x y) : s.declares x = t.declares y := by
  unfold declares
  rw [any_eq_of_forall₂ h.vars fun _ _ hn => L.sameName_eq hn htext,
    any_eq_of_forall₂ h.constants fun _ _ hn => L.sameName_eq hn htext,
    any_eq_of_forall₂ h.types fun _ _ hn => L.sameName_eq hn htext]

theorem declare? (h : Like L s t) (hd : Declaration.Like L d e) :
    Option.Rel (Like L) (s.declare? d) (t.declare? e) := by
  unfold Scope.declare?
  rw [h.declares_eq hd.text]
  split
  · exact .none
  · cases hd with
    | vars hn => exact .some { h with vars := List.rel_append h.vars (.cons hn .nil) }
    | constants hn =>
      exact .some { h with constants := List.rel_append h.constants (.cons hn .nil) }
    | types hn => exact .some { h with types := List.rel_append h.types (.cons hn .nil) }

theorem bindCursor (h : Like L s t) (hc : L.text c.name d.name) :
    Like L (s.bindCursor c) (t.bindCursor d) := by
  have hplace (cs ds : List Cursor) (hcs : List.Forall₂ (fun c d => L.text c.name d.name) cs ds) :
      List.Forall₂ (fun c d => L.text c.name d.name) (placeCursor c cs) (placeCursor d ds) := by
    induction hcs with
    | nil => exact .cons hc .nil
    | cons hn htail ih =>
      unfold placeCursor
      rw [L.sameName_eq hn hc]
      split
      · exact .cons hc htail
      · exact .cons hn ih
  exact { h with cursors := hplace _ _ h.cursors }

theorem declarations (h : Like L s t) :
    List.Forall₂ (Declaration.Like L) s.declarations t.declarations := by
  refine List.rel_append (List.rel_append ?_ ?_) ?_
  · exact List.rel_map (fun _ _ hn => .vars hn) h.vars
  · exact List.rel_map (fun _ _ hn => .constants hn) h.constants
  · exact List.rel_map (fun _ _ hn => .types hn) h.types

theorem merge (h : Like L s t) (hother : Like L s' t') : Like L (s.merge s') (t.merge t') := by
  refine List.rel_foldl (fun s t hst d e hde => ?_) h hother.declarations
  have hrel := hst.declare? hde
  generalize s.declare? d = x at *
  generalize t.declare? e = y at *
  cases hrel with
  | none => exact hst
  | some hst' => exact hst'

end Like

end Scope

/-! ## Names -/

structure LoopCursor.Like (L : Likeness) (l m : LoopCursor) : Prop where
  text : L.text l.name m.name
  redeclared : List.Forall₂ (Cursor.Like L) l.redeclared m.redeclared

structure Names.Like (L : Likeness) (n m : Names) : Prop where
  same : L.Same n m
  scope : ∀ o, Scope.Like L (n.get o).scope (m.get o).scope
  loops : List.Forall₂ (LoopCursor.Like L) n.loops m.loops
  globals : Scope.Like L n.globals m.globals
  hasMain_eq : n.hasMain = m.hasMain

namespace Names

theorem like_empty : Like L {} {} where
  same := Likeness.Same.rfl
  scope o := by cases o <;> exact Scope.like_empty
  loops := .nil
  globals := Scope.like_empty
  hasMain_eq := rfl

namespace Like

variable {n m : Names}

theorem set (h : Like L n m) (o : Owner) (hsame : L.Same g k)
    (hscope : Scope.Like L g.scope k.scope) :
    Like L (n.set g o) (m.set k o) where
  same := h.same.map₂ hsame fun n g => n.set g o
  scope o' := by
    rw [get_set, get_set]
    split
    · exact hscope
    · exact h.scope o'
  loops := by cases o <;> exact h.loops
  globals := by cases o <;> exact h.globals
  hasMain_eq := by cases o <;> exact h.hasMain_eq

theorem declare? (h : Like L n m) (o : Owner) (hsame : L.Same d e) (hd : Declaration.Like L d e) :
    Option.Rel (Like L) (n.declare? o d) (m.declare? o e) := by
  have hscopes : L.Same ((n.get o).scope.declare? d) ((m.get o).scope.declare? e) :=
    h.same.map₂ hsame fun n d => (n.get o).scope.declare? d
  have hrel := (h.scope o).declare? hd
  unfold Names.declare?
  revert hscopes hrel
  generalize (n.get o).scope.declare? d = x
  generalize (m.get o).scope.declare? e = y
  intro hscopes hrel
  cases hrel with
  | none => exact .none
  | @some s t hscope =>
    have hst : L.Same s t := fun hexact => Option.some.inj (hscopes hexact)
    refine .some (h.set o ?_ hscope)
    exact h.same.map₂ hst fun n scope => { n.get o with scope }

theorem claim? (hc : Cursor.Like L c d) (h : List.Forall₂ (LoopCursor.Like L) ls ms) :
    Option.Rel (List.Forall₂ (LoopCursor.Like L)) (claim? c ls) (claim? d ms) := by
  induction h with
  | nil => exact .none
  | @cons l m ls ms hl hls ih =>
    unfold Names.claim?
    rw [L.sameName_eq hc.named.text hl.text]
    split
    · exact .some (.cons ⟨hl.text, List.rel_append hl.redeclared (.cons hc .nil)⟩ hls)
    · generalize Names.claim? c ls = x at *
      generalize Names.claim? d ms = y at *
      cases ih with
      | none => exact .none
      | some hls' => exact .some (.cons hl hls')

theorem bindCursor? (h : Like L n m) (o : Option Owner) (hc : Cursor.Like L c d) :
    Option.Rel (Like L) (n.bindCursor? o c) (m.bindCursor? o d) := by
  have hsame : L.Same (n.bindCursor? o c) (m.bindCursor? o d) :=
    h.same.map₂ hc.same fun n c => n.bindCursor? o c
  have hclaim := claim? hc h.loops
  revert hsame
  unfold Names.bindCursor?
  generalize Names.claim? c n.loops = x at *
  generalize Names.claim? d m.loops = y at *
  intro hsame
  cases hclaim with
  | some hloops =>
    refine .some ⟨fun hexact => Option.some.inj (hsame hexact), h.scope, hloops, h.globals,
      h.hasMain_eq⟩
  | none =>
    cases o with
    | none => exact .none
    | some o =>
      refine .some (h.set o ?_ ((h.scope o).bindCursor hc.named.text))
      exact h.same.map₂ hc.same fun n c => { n.get o with scope := (n.get o).scope.bindCursor c }

end Like

end Names

/-! ## Nodes -/

namespace NodeKind

/-- What opens a clause of a menu, without the parts of it. -/
def clauseOutline : MenuClause → MenuClause
  | .beforeMenu => .beforeMenu
  | .command .. => .command [] none none
  | .action _ => .action ""
  | .idle _ => .idle none

/-- What a node is, without the names and expressions in it. -/
def outline : NodeKind → NodeKind
  | module .. => module {} {} [] []
  | importModule kind _ => importModule kind ""
  | database keyword _ => database keyword ""
  | globalsFile _ => globalsFile ""
  | globals _ => globals {}
  | main _ => main {}
  | function access .. => function access "" (.empty 0) [] {} []
  | vars access _ => vars access []
  | constants access _ => constants access []
  | types access _ => types access []
  | assignment .. => assignment none []
  | call .. => call none []
  | returnValues _ => returnValues []
  | output keyword _ => output keyword []
  | sleep _ => sleep none
  | setNull _ => setNull []
  | exit target _ => exit target none
  | continueLoop target => continueLoop target
  | prepare .. => prepare none none
  | declare _ scroll withHold .. => declare none scroll withHold none none
  | cursor operation _ direction .. => cursor operation none direction [] []
  | whenever .. => whenever "" ""
  | run _ _ withoutWaiting => run none none withoutWaiting
  | ifThen _ => ifThen none
  | elseClause => elseClause
  | whileLoop _ => whileLoop none
  | forLoop .. => forLoop none none none none
  | foreachLoop _ _ _ reoptimization _ => foreachLoop none [] [] reoptimization []
  | caseOf _ => caseOf none
  | whenClause _ => whenClause []
  | otherwiseClause => otherwiseClause
  | tryBlock => tryBlock
  | catchClause => catchClause
  | menu _ => menu none
  | menuOption clause => menuOption (clauseOutline clause)
  | menuControl action _ all => menuControl action [] all

theorem jump?_outline (k : NodeKind) : jump? k.outline = jump? k := by
  cases k with
  | exit target | continueLoop target => cases target <;> rfl
  | _ => rfl

end NodeKind

/-- Nodes of the same kind at corresponding tokens, with like children. -/
inductive Node.Like (L : Likeness) : Node → Node → Prop where
  | mk {m n : Node} (same : L.Same m n) (outline_eq : m.kind.outline = n.kind.outline)
    (start : L.start m.start n.start) (header : L.stop m.extent.headerStop n.extent.headerStop)
    (stop : L.stop m.stop n.stop) (isComplete_eq : m.extent.isComplete = n.extent.isComplete)
    (children : List.Forall₂ (Node.Like L) m.children n.children) : Node.Like L m n

namespace Node

theorem Like.isOtherwise_eq (h : Like L m n) : isOtherwise m = isOtherwise n := by
  have houtline (n : Node) : isOtherwise { n with kind := n.kind.outline } = isOtherwise n := by
    obtain ⟨extent, kind, children⟩ := n
    cases kind <;> rfl
  cases h with
  | mk _ heq => rw [← houtline m, ← houtline n, isOtherwise, isOtherwise, heq]

theorem Like.isSelectable_eq (h : Like L m n) : isSelectable m = isSelectable n := by
  have houtline (n : Node) : isSelectable { n with kind := n.kind.outline } = isSelectable n := by
    obtain ⟨extent, kind, children⟩ := n
    cases kind with
    | menuOption clause => cases clause <;> rfl
    | _ => rfl
  cases h with
  | mk _ heq => rw [← houtline m, ← houtline n, isSelectable, isSelectable, heq]

theorem Like.jump?_eq (h : Like L m n) : jump? m.kind = jump? n.kind := by
  cases h with
  | mk _ heq => rw [← m.kind.jump?_outline, heq, n.kind.jump?_outline]

theorem Like.same (h : Like L m n) : L.Same m n := by
  cases h with
  | mk hsame => exact hsame

theorem Like.start (h : Like L m n) : L.start m.start n.start := by
  cases h with
  | mk _ _ hstart => exact hstart

/-- Nodes are put in like places. -/
theorem Like.insert (h : Like L m n) (hlist : List.Forall₂ (Like L) ms ns) :
    List.Forall₂ (Like L) (m.insert ms) (n.insert ns) := by
  induction hlist with
  | nil => exact .cons h .nil
  | @cons m' n' ms ns h' htail ih =>
    unfold Node.insert
    simp only [L.start_lt_iff h.start h'.start, L.start_eq_iff h.start h'.start]
    split
    · exact .cons h (.cons h' htail)
    · split
      · exact .cons h htail
      · exact .cons h' ih

end Node

/-! ## States -/

/-- The states have read corresponding parts of the two texts, with like results. -/
structure ParseState.Like (L : Likeness) (s t : ParseState) : Prop where
  stream : List.Forall₂ (Lexeme.Like L) s.input.stream t.input.stream
  rest : List.Forall₂ (Lexeme.Like L) s.input.rest t.input.rest
  endOfFile : Token.Like L (.endOfFile s.input.length) (.endOfFile t.input.length)
  index_eq : s.input.index = t.input.index
  seen_eq : s.input.seen = t.input.seen
  errors_eq : s.input.errors = t.input.errors
  last_same : L.Same s.input.last t.input.last
  last_kind_eq : s.input.last.kind = t.input.last.kind
  /-- Nothing has been read, or corresponding tokens last. -/
  place : s.place = 0 ∨ L.stop s.place t.place
  reports : List.Forall₂ (Diagnostic.Like L) s.reports t.reports
  limit_eq : s.limitReported = t.limitReported
  names : Names.Like L s.names t.names
  nesting_eq : s.nesting = t.nesting

namespace ParseState.Like

variable {s t : ParseState}

theorem tokenAt (h : Like L s t) (depth : Nat) :
    Token.Like L (s.input.tokenAt depth) (t.input.tokenAt depth) := by
  have hlength := h.rest.length_eq
  unfold Lookahead.tokenAt
  by_cases hlt : depth - 1 < s.input.rest.length
  · rw [List.getElem?_eq_getElem hlt, List.getElem?_eq_getElem (hlength ▸ hlt)]
    exact (h.rest.get hlt (hlength ▸ hlt)).token
  · rw [List.getElem?_eq_none (Nat.le_of_not_lt hlt),
      List.getElem?_eq_none (Nat.le_of_not_lt (hlength ▸ hlt))]
    exact h.endOfFile

theorem looked (h : Like L s t) (depth : Nat) :
    Like L { s with input := s.input.inspect depth } { t with input := t.input.inspect depth } :=
  { h with
    seen_eq := by simp only [Lookahead.inspect, h.seen_eq, h.index_eq] }

theorem last_read (h : Like L s t) : Token.Like L s.read.input.last t.read.input.last := by
  rw [ParseState.last_read, ParseState.last_read]
  exact h.tokenAt 1

theorem read (h : Like L s t) : Like L s.read t.read := by
  have hrest := h.rest
  unfold ParseState.read Lookahead.advance
  cases hs : s.input.rest with
  | nil =>
    cases ht : t.input.rest with
    | nil =>
      exact { h with
        rest := .nil
        last_same := h.endOfFile.same
        last_kind_eq := rfl
        place := .inr h.endOfFile.stop }
    | cons m ms => rw [hs, ht] at hrest; cases hrest
  | cons l ls =>
    cases ht : t.input.rest with
    | nil => rw [hs, ht] at hrest; cases hrest
    | cons m ms =>
      rw [hs, ht] at hrest
      obtain ⟨hlexeme, htail⟩ := List.forall₂_cons.mp hrest
      exact { h with
        rest := htail
        index_eq := congrArg (· + 1) h.index_eq
        seen_eq := by simp only [h.seen_eq, h.index_eq]
        errors_eq := by simp only [h.errors_eq, Diagnostic.errorCount_eq hlexeme.issues]
        last_same := hlexeme.token.same
        last_kind_eq := hlexeme.token.kind_eq
        place := .inr hlexeme.token.stop }

theorem errorCount_eq (h : Like L s t) : s.errorCount = t.errorCount := by
  unfold errorCount
  rw [Diagnostic.errorCount_eq h.reports, h.errors_eq]

/-- What is to be said about like states is alike, in order. -/
theorem diagnostics (h : Like L s t) :
    List.Forall₂ (Diagnostic.Like L) s.diagnostics t.diagnostics := by
  refine Diagnostic.forall₂_sorted (List.rel_append ?_ (List.rel_reverse h.reports))
  unfold Lookahead.issues Lookahead.seenLexemes
  rw [h.seen_eq]
  exact List.rel_flatMap (List.forall₂_take _ h.stream) fun _ _ hl => hl.issues

end ParseState.Like

end FourGL
