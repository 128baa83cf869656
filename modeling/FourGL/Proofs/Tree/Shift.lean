import FourGL.Grammar.Body
import FourGL.Grammar.State
import FourGL.Proofs.Grammar.Likeness

/-!
# Shifting

What is read from a text that stands further to the right in a larger one differs in its offsets
only: all of them grow by the same number. So does everything that names of declarations and the
starts of nodes decide, because neither depends on how far the text is moved.
-/

namespace FourGL

variable {k : Nat}

/-! ## Stretches and tokens -/

namespace Span

def shift (k : Nat) (s : Span) : Span := ⟨s.start + k, s.length⟩

theorem between_add (k start stop : Nat) :
    between (start + k) (stop + k) = (between start stop).shift k := by
  simp only [between, shift, Span.mk.injEq, true_and]
  omega

end Span

/-! ## Expressions and types -/

mutual

def Expression.shift (k : Nat) : Expression → Expression
  | .literal span kind text => .literal (span.shift k) kind text
  | .name d => .name (d.shift k)
  | .call span callee arguments =>
    .call (span.shift k) (callee.shift k) (shiftExpressions k arguments)
  | .unary span operator operand => .unary (span.shift k) operator (operand.shift k)
  | .binary span left operator negated right =>
    .binary (span.shift k) (left.shift k) operator negated (right.shift k)
  | .isNull span operand negated => .isNull (span.shift k) (operand.shift k) negated
  | .clipped span operand => .clipped (span.shift k) (operand.shift k)
  | .parenthesized span inner => .parenthesized (span.shift k) (inner.shift k)
  | .missing span => .missing (span.shift k)

def shiftExpressions (k : Nat) : List Expression → List Expression
  | [] => []
  | e :: es => e.shift k :: shiftExpressions k es

def Designator.shift (k : Nat) : Designator → Designator
  | ⟨span, name, accessors⟩ => ⟨span.shift k, name, shiftAccessors k accessors⟩

def shiftAccessors (k : Nat) : List Accessor → List Accessor
  | [] => []
  | a :: as => a.shift k :: shiftAccessors k as

def Accessor.shift (k : Nat) : Accessor → Accessor
  | .member name => .member name
  | .index indices => .index (shiftExpressions k indices)
  | .allMembers => .allMembers

end

mutual

def TypeReference.shift (k : Nat) : TypeReference → TypeReference
  | .named name arguments => .named name arguments
  | .like table column => .like table column
  | .record fields => .record (shiftFields k fields)
  | .recordLike table => .recordLike table
  | .array isDynamic dimensions element => .array isDynamic dimensions (element.shift k)
  | .missing => .missing

def Variable.shift (k : Nat) : Variable → Variable
  | ⟨name, span, type⟩ => ⟨name, span.shift k, type.shift k⟩

def shiftFields (k : Nat) : List Variable → List Variable
  | [] => []
  | v :: vs => v.shift k :: shiftFields k vs

end

theorem shiftExpressions_eq_map (k : Nat) (es : List Expression) :
    shiftExpressions k es = es.map (·.shift k) := by
  induction es with
  | nil => rfl
  | cons e es ih => rw [shiftExpressions, ih, List.map_cons]

theorem shiftAccessors_eq_map (k : Nat) (as : List Accessor) :
    shiftAccessors k as = as.map (·.shift k) := by
  induction as with
  | nil => rfl
  | cons a as ih => rw [shiftAccessors, ih, List.map_cons]

theorem shiftFields_eq_map (k : Nat) (vs : List Variable) :
    shiftFields k vs = vs.map (·.shift k) := by
  induction vs with
  | nil => rfl
  | cons v vs ih => rw [shiftFields, ih, List.map_cons]

theorem Expression.isCall_shift (e : Expression) : (e.shift k).isCall = e.isCall := by
  cases e <;> rfl

/-! ## Declared names -/

def Constant.shift (k : Nat) (c : Constant) : Constant :=
  ⟨c.name, c.span.shift k, c.type.map (·.shift k), c.value.map (·.shift k)⟩

def TypeName.shift (k : Nat) (t : TypeName) :
    TypeName := ⟨t.name, t.span.shift k, t.type.shift k⟩

def Cursor.shift (k : Nat) (c : Cursor) : Cursor := { c with span := c.span.shift k }

def Declaration.shift (k : Nat) : Declaration → Declaration
  | .variable v => .variable (v.shift k)
  | .constant c => .constant (c.shift k)
  | .type t => .type (t.shift k)

def Scope.shift (k : Nat) (s : Scope) : Scope where
  vars := s.vars.map (·.shift k)
  constants := s.constants.map (·.shift k)
  types := s.types.map (·.shift k)
  cursors := s.cursors.map (·.shift k)

def Holding.shift (k : Nat) (h : Holding) : Holding := { h with scope := h.scope.shift k }

def LoopCursor.shift (k : Nat) (l : LoopCursor) : LoopCursor :=
  { l with redeclared := l.redeclared.map (·.shift k) }

@[simp] theorem Variable.name_shift (v : Variable) : (v.shift k).name = v.name := by
  cases v; rfl

@[simp] theorem Declaration.name_shift (d : Declaration) : (d.shift k).name = d.name := by
  obtain v | _ | _ := d
  · exact v.name_shift
  · rfl
  · rfl

namespace Scope

theorem declares_shift (s : Scope) (name : String) :
    (s.shift k).declares name = s.declares name := by
  simp [declares, shift, List.any_map, Function.comp_def, Constant.shift, TypeName.shift]

theorem declare?_shift (s : Scope) (d : Declaration) :
    (s.shift k).declare? (d.shift k) = (s.declare? d).map (·.shift k) := by
  unfold declare?
  rw [declares_shift, Declaration.name_shift]
  split
  · rfl
  · cases d <;> simp [shift, Declaration.shift]

theorem bindCursor_shift (s : Scope) (c : Cursor) :
    (s.shift k).bindCursor (c.shift k) = (s.bindCursor c).shift k := by
  have hplace (cs : List Cursor) :
      placeCursor (c.shift k) (cs.map (·.shift k)) = (placeCursor c cs).map (·.shift k) := by
    induction cs with
    | nil => rfl
    | cons d ds ih =>
      rw [List.map_cons, placeCursor, placeCursor, ih,
        show sameName (d.shift k).name (c.shift k).name = sameName d.name c.name from rfl]
      split <;> rfl
  exact congrArg (Scope.mk _ _ _) (hplace s.cursors)

end Scope

theorem Names.claim?_shift (c : Cursor) (ls : List LoopCursor) :
    claim? (c.shift k) (ls.map (·.shift k)) = (claim? c ls).map (·.map (·.shift k)) := by
  induction ls with
  | nil => rfl
  | cons l ls ih =>
    rw [List.map_cons, claim?, claim?, ih,
      show sameName (c.shift k).name (l.shift k).name = sameName c.name l.name from rfl]
    split
    · simp [LoopCursor.shift]
    · cases claim? c ls <;> rfl

/-! ## Nodes -/

def Extent.shift (k : Nat) (e : Extent) : Extent :=
  ⟨e.start + k, e.stop + k, e.headerStop + k, e.isComplete⟩

def Signature.shift (k : Nat) (s : Signature) : Signature := { s with span := s.span.shift k }

def MenuClause.shift (k : Nat) : MenuClause → MenuClause
  | .beforeMenu => .beforeMenu
  | .command keys name help => .command keys (name.map (·.shift k)) (help.map (·.shift k))
  | .action name => .action name
  | .idle seconds => .idle (seconds.map (·.shift k))

def NodeKind.shift (k : Nat) : NodeKind → NodeKind
  | .module scope shared functions imports =>
    .module (scope.shift k) (shared.shift k) (functions.map (·.shift k)) imports
  | .importModule kind path => .importModule kind path
  | .database keyword name => .database keyword name
  | .globalsFile file => .globalsFile file
  | .globals scope => .globals (scope.shift k)
  | .main scope => .main (scope.shift k)
  | .function access name nameSpan parameters scope returnArities =>
    .function access name (nameSpan.shift k) parameters (scope.shift k) returnArities
  | .vars access declared => .vars access (declared.map (·.shift k))
  | .constants access declared => .constants access (declared.map (·.shift k))
  | .types access declared => .types access (declared.map (·.shift k))
  | .assignment target values => .assignment (target.map (·.shift k)) (values.map (·.shift k))
  | .call callee returning => .call (callee.map (·.shift k)) (returning.map (·.shift k))
  | .returnValues values => .returnValues (values.map (·.shift k))
  | .output keyword values => .output keyword (values.map (·.shift k))
  | .sleep seconds => .sleep (seconds.map (·.shift k))
  | .setNull targets => .setNull (targets.map (·.shift k))
  | .exit target value => .exit target (value.map (·.shift k))
  | .continueLoop target => .continueLoop target
  | .prepare name source => .prepare name (source.map (·.shift k))
  | .declare name scroll withHold prepared source =>
    .declare name scroll withHold prepared (source.map (·.shift k))
  | .cursor operation name direction arguments into =>
    .cursor operation name direction (arguments.map (·.shift k)) (into.map (·.shift k))
  | .whenever condition action => .whenever condition action
  | .run command returning withoutWaiting =>
    .run (command.map (·.shift k)) (returning.map (·.shift k)) withoutWaiting
  | .ifThen condition => .ifThen (condition.map (·.shift k))
  | .elseClause => .elseClause
  | .whileLoop condition => .whileLoop (condition.map (·.shift k))
  | .forLoop counter first last step =>
    .forLoop (counter.map (·.shift k)) (first.map (·.shift k)) (last.map (·.shift k))
      (step.map (·.shift k))
  | .foreachLoop name arguments into reoptimization redeclarations =>
    .foreachLoop name (arguments.map (·.shift k)) (into.map (·.shift k)) reoptimization
      (redeclarations.map (·.shift k))
  | .caseOf subject => .caseOf (subject.map (·.shift k))
  | .whenClause conditions => .whenClause (conditions.map (·.shift k))
  | .otherwiseClause => .otherwiseClause
  | .tryBlock => .tryBlock
  | .catchClause => .catchClause
  | .menu title => .menu (title.map (·.shift k))
  | .menuOption clause => .menuOption (clause.shift k)
  | .menuControl action options all => .menuControl action (options.map (·.shift k)) all

theorem NodeKind.outline_shift (kind : NodeKind) : (kind.shift k).outline = kind.outline := by
  cases kind with
  | menuOption clause => cases clause <;> rfl
  | _ => rfl

namespace Node

mutual

/-- The same node in a text that stands further to the right. -/
def shift (k : Nat) : Node → Node
  | ⟨extent, kind, children⟩ => ⟨extent.shift k, kind.shift k, shiftChildren k children⟩

def shiftChildren (k : Nat) : List Node → List Node
  | [] => []
  | n :: ns => n.shift k :: shiftChildren k ns

end

theorem shiftChildren_eq_map (k : Nat) (ns : List Node) :
    shiftChildren k ns = ns.map (·.shift k) := by
  induction ns with
  | nil => rfl
  | cons n ns ih => rw [shiftChildren, ih, List.map_cons]

@[simp] theorem kind_shift (n : Node) : (n.shift k).kind = n.kind.shift k := by cases n; rfl

@[simp] theorem start_shift (n : Node) : (n.shift k).start = n.start + k := by cases n; rfl

/-- Nodes keep their order. -/
theorem insert_shift (n : Node) (ns : List Node) :
    (n.shift k).insert (ns.map (·.shift k)) = (n.insert ns).map (·.shift k) := by
  induction ns with
  | nil => rfl
  | cons m ms ih =>
    simp only [List.map_cons, insert, start_shift, Nat.add_lt_add_iff_right,
      Nat.add_right_cancel_iff, ih]
    split_ifs <;> rfl

end Node

theorem Parser.jump?_shift (kind : NodeKind) : jump? (kind.shift k) = jump? kind := by
  rw [← NodeKind.jump?_outline, NodeKind.outline_shift, NodeKind.jump?_outline]

theorem Parser.isOtherwise_shift (n : Node) : isOtherwise (n.shift k) = isOtherwise n := by
  obtain ⟨_, kind, _⟩ := n
  cases kind <;> rfl

theorem Parser.isSelectable_shift (n : Node) : isSelectable (n.shift k) = isSelectable n := by
  obtain ⟨_, kind, _⟩ := n
  cases kind with
  | menuOption clause => cases clause <;> rfl
  | _ => rfl

end FourGL
