import FourGL.Tree.Scope

/-!
# The tree of a module

Every statement, block and clause is a node. A node knows where it starts, where its header ends and
where it ends itself; its children are the statements and clauses inside it, in source order.
-/

namespace FourGL

/-- Where a node stands, and whether it was read without an error. -/
structure Extent where
  start : Nat
  stop : Nat
  /-- Where the header ends and the body begins. -/
  headerStop : Nat
  isComplete : Bool
deriving DecidableEq

namespace Extent

def span (e : Extent) : Span := .between e.start e.stop

/-- The stretch from the start up to the end of the header. -/
def header (e : Extent) : Span := .between e.start e.headerStop

def contains (e : Extent) (pos : Nat) : Bool := e.start ≤ pos && pos ≤ e.stop

end Extent

/-- Who sees a declaration of a module. -/
inductive Access where
  | unstated
  | publicAccess
  | privateAccess
deriving DecidableEq

/-- The modifier as it is written, nothing when none is. -/
def Access.modifier : Access → String
  | unstated => ""
  | publicAccess => "public"
  | privateAccess => "private"

inductive ImportKind where
  | fgl
  | java
  /-- An extension module: a name without a qualifier. -/
  | extension
deriving DecidableEq

def ImportKind.name : ImportKind → String
  | fgl => "fgl"
  | java => "java"
  | extension => "extension"

/-- How a function is called. -/
structure Signature where
  name : String
  span : Span
  access : Access
  parameters : List String

/-- What opens a clause of a menu. -/
inductive MenuClause where
  | beforeMenu
  | command (keys : List String) (name help : Option Expression)
  | action (name : String)
  | idle (seconds : Option Expression)

/-- Whether the user can choose the clause. -/
def MenuClause.isSelectable : MenuClause → Bool
  | command .. | action _ => true
  | beforeMenu | idle _ => false

/-- What a node is, with the parts that are not children. -/
inductive NodeKind where
  | module (scope globals : Scope) (functions : List Signature) (imports : List String)
  | importModule (kind : ImportKind) (path : String)
  /-- SCHEMA or DATABASE. -/
  | database (keyword : Keyword) (name : String)
  /-- GLOBALS with the name of a file. -/
  | globalsFile (file : String)
  | globals (scope : Scope)
  | main (scope : Scope)
  | function (access : Access) (name : String) (nameSpan : Span) (parameters : List String)
      (scope : Scope) (returnArities : List Nat)
  | vars (access : Access) (declared : List Variable)
  | constants (access : Access) (declared : List Constant)
  | types (access : Access) (declared : List TypeName)
  | assignment (target : Option Designator) (values : List Expression)
  | call (callee : Option Expression) (returning : List Designator)
  | returnValues (values : List Expression)
  /-- DISPLAY, MESSAGE or ERROR. -/
  | output (keyword : Keyword) (values : List Expression)
  | sleep (seconds : Option Expression)
  | setNull (targets : List Designator)
  | exit (target : Option Keyword) (value : Option Expression)
  | continueLoop (target : Option Keyword)
  | prepare (name : Option String) (source : Option Expression)
  | declare (name : Option String) (scroll withHold : Bool) (prepared : Option String)
      (source : Option Expression)
  /-- OPEN, CLOSE, FREE, FETCH or EXECUTE. -/
  | cursor (operation : Keyword) (name : Option String) (direction : Option Keyword)
      (arguments : List Expression) (into : List Designator)
  | whenever (condition action : String)
  | run (command : Option Expression) (returning : Option Designator) (withoutWaiting : Bool)
  | ifThen (condition : Option Expression)
  | elseClause
  | whileLoop (condition : Option Expression)
  | forLoop (counter : Option Designator) (first last step : Option Expression)
  | foreachLoop (cursor : Option String) (arguments : List Expression) (into : List Designator)
      (reoptimization : Bool) (redeclarations : List Cursor)
  | caseOf (subject : Option Expression)
  | whenClause (conditions : List Expression)
  | otherwiseClause
  | tryBlock
  | catchClause
  | menu (title : Option Expression)
  | menuOption (clause : MenuClause)
  /-- NEXT, SHOW or HIDE OPTION. -/
  | menuControl (action : Keyword) (options : List Expression) (all : Bool)

namespace NodeKind

/-- The short name of a node: mostly the keyword that opens it. -/
def name : NodeKind → String
  | module .. => "module"
  | importModule .. => "import"
  | database keyword _ => keyword.text
  | globalsFile _ | globals _ => "globals"
  | main _ => "main"
  | function .. => "function"
  | vars .. => "define"
  | constants .. => "constant"
  | types .. => "type"
  | assignment .. => "let"
  | call .. => "call"
  | returnValues _ => "return"
  | output keyword _ => keyword.text
  | sleep _ => "sleep"
  | setNull _ => "initialize"
  | exit .. => "exit"
  | continueLoop _ => "continue"
  | prepare .. => "prepare"
  | declare .. => "declare"
  | cursor operation .. => operation.text
  | whenever .. => "whenever"
  | run .. => "run"
  | ifThen _ => "if"
  | elseClause => "else"
  | whileLoop _ => "while"
  | forLoop .. => "for"
  | foreachLoop .. => "foreach"
  | caseOf _ => "case"
  | whenClause _ => "when"
  | otherwiseClause => "otherwise"
  | tryBlock => "try"
  | catchClause => "catch"
  | menu _ => "menu"
  | menuOption _ => "option"
  | menuControl action .. => action.text

/-- The expressions that a node holds itself, in source order. -/
def expressions : NodeKind → List Expression
  | constants _ declared => declared.filterMap (·.value)
  | assignment _ values | returnValues values | output _ values => values
  | call callee _ => callee.toList
  | sleep seconds => seconds.toList
  | exit _ value => value.toList
  | prepare _ source => source.toList
  | declare _ _ _ _ source => source.toList
  | cursor _ _ _ values _ | foreachLoop _ values _ _ _ => values
  | run command _ _ => command.toList
  | ifThen condition | whileLoop condition => condition.toList
  | forLoop _ first last step => first.toList ++ last.toList ++ step.toList
  | caseOf subject => subject.toList
  | whenClause conditions => conditions
  | menu title => title.toList
  | menuOption (.command _ name help) => name.toList ++ help.toList
  | menuOption (.idle seconds) => seconds.toList
  | menuControl _ options _ => options
  | _ => []

end NodeKind

structure Node where
  extent : Extent
  kind : NodeKind
  children : List Node

namespace Node

def start (n : Node) : Nat := n.extent.start

def stop (n : Node) : Nat := n.extent.stop

def name (n : Node) : String := n.kind.name

/-- Puts a node among others by its start, in the place of one that starts there already. -/
def insert (n : Node) : List Node → List Node
  | [] => [n]
  | m :: ms =>
    if n.start < m.start then n :: m :: ms
    else if n.start = m.start then n :: ms
    else m :: insert n ms

/-- The node with one more child. -/
def addChild (n child : Node) : Node := { n with children := insert child n.children }

mutual

/-- The innermost node at `pos`, where a node still reaches the place right behind it. Of the
children only the last one that starts at or before `pos` is asked. -/
def at? (pos : Nat) : Node → Option Node
  | ⟨extent, kind, children⟩ =>
    if extent.contains pos then some ((lastAt? pos children).getD ⟨extent, kind, children⟩)
      else none

/-- What the last of `nodes` that starts at or before `pos` has there. -/
def lastAt? (pos : Nat) : List Node → Option Node
  | [] => none
  | n :: ns =>
    if ns.any fun m => m.start ≤ pos then lastAt? pos ns
    else if n.start ≤ pos then n.at? pos
    else none

end

/-! ## Visiting -/

/-- What is met on the way through a tree, with its depth. -/
inductive Visit where
  | node (depth : Nat) (n : Node)
  | expression (depth : Nat) (e : Expression)

mutual

/-- A node, the expressions it holds, then its children, from left to right. -/
def visit (depth : Nat) : Node → List Visit
  | ⟨extent, kind, children⟩ =>
    .node depth ⟨extent, kind, children⟩ ::
      ((visitList (depth + 1) kind.expressions).map (fun (d, e) => .expression d e) ++
        visitChildren (depth + 1) children)

def visitChildren (depth : Nat) : List Node → List Visit
  | [] => []
  | n :: ns => n.visit depth ++ visitChildren depth ns

end

mutual

/-- How many nodes the tree has. -/
def count : Node → Nat
  | ⟨_, _, children⟩ => 1 + countList children

def countList : List Node → Nat
  | [] => 0
  | n :: ns => n.count + countList ns

end

end Node

end FourGL
