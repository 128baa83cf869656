import FourGL.Json
import FourGL.Tree.Node

/-!
# Trees as JSON

A node is an object with its extent, its type and the fields of its kind; its children follow as a
list, which is left out when there are none.
-/

namespace FourGL

def Span.toJson (s : Span) : Json := .record [("start", .nat s.start), ("length", .nat s.length)]

/-! ## Expressions -/

mutual

def Expression.toJson : Expression → Json
  | .literal span kind text =>
    .record
      [("kind", .text "literal"), ("span", span.toJson), ("literal_kind", .text kind.name),
       ("text", .text text)]
  | .name d => .record (("kind", .text "name") :: d.jsonFields)
  | .call span callee arguments =>
    .record
      [("kind", .text "call"), ("span", span.toJson), ("callee", .record callee.jsonFields),
       ("arguments", .array (jsonList arguments))]
  | .unary span operator operand =>
    .record
      [("kind", .text "unary"), ("span", span.toJson), ("operator", .text operator.text),
       ("operand", operand.toJson)]
  | .binary span left operator negated right =>
    .record
      [("kind", .text "binary"), ("span", span.toJson), ("left", left.toJson),
       ("operator", .text operator.text), ("negated", .bool negated), ("right", right.toJson)]
  | .isNull span operand negated =>
    .record
      [("kind", .text "isNull"), ("span", span.toJson), ("operand", operand.toJson),
       ("negated", .bool negated)]
  | .clipped span operand =>
    .record [("kind", .text "clipped"), ("span", span.toJson), ("operand", operand.toJson)]
  | .parenthesized span inner =>
    .record [("kind", .text "parenthesized"), ("span", span.toJson), ("inner", inner.toJson)]
  | .missing span => .record [("kind", .text "missing"), ("span", span.toJson)]

def jsonList : List Expression → List Json
  | [] => []
  | e :: es => e.toJson :: jsonList es

def Designator.jsonFields : Designator → List (String × Json)
  | ⟨span, name, accessors⟩ =>
    [("span", span.toJson), ("name", .text name), ("accessors", .array (jsonAccessors accessors))]

def jsonAccessors : List Accessor → List Json
  | [] => []
  | a :: as => a.toJson :: jsonAccessors as

def Accessor.toJson : Accessor → Json
  | .member name => .record [("kind", .text "member"), ("name", .text name)]
  | .index indices => .record [("kind", .text "index"), ("indices", .array (jsonList indices))]
  | .allMembers => .record [("kind", .text "allMembers")]

end

def Designator.toJson (d : Designator) : Json := .record d.jsonFields

/-! ## Declarations -/

mutual

def TypeReference.toJson : TypeReference → Json
  | .named name arguments =>
    .record [("kind", .text "named"), ("name", .text name), ("arguments", .list .text arguments)]
  | .like table column =>
    .record [("kind", .text "like"), ("table", .text table), ("column", .text column)]
  | .record fields => .record [("kind", .text "record"), ("fields", .array (jsonFields fields))]
  | .recordLike table => .record [("kind", .text "recordLike"), ("table", .text table)]
  | .array isDynamic dimensions element =>
    .record
      [("kind", .text "array"), ("dynamic", .bool isDynamic),
       ("dimensions", .list .text dimensions), ("element", element.toJson)]
  | .missing => .record [("kind", .text "missing")]

def jsonFields : List Variable → List Json
  | [] => []
  | ⟨name, span, type⟩ :: fields =>
    .record [("name", .text name), ("span", span.toJson), ("typeRef", type.toJson)] ::
      jsonFields fields

end

def Variable.toJson (v : Variable) : Json :=
  .record [("name", .text v.name), ("span", v.span.toJson), ("typeRef", v.type.toJson)]

def Constant.toJson (c : Constant) : Json :=
  .record
    [("name", .text c.name), ("span", c.span.toJson), ("typeRef", .ofOption (·.toJson) c.type),
     ("value", .ofOption (·.toJson) c.value)]

def TypeName.toJson (t : TypeName) : Json :=
  .record [("name", .text t.name), ("span", t.span.toJson), ("typeRef", t.type.toJson)]

def Cursor.toJson (c : Cursor) : Json :=
  .record [("name", .text c.name), ("span", c.span.toJson), ("kind", .text c.kind.name)]

def Scope.toJson (s : Scope) : Json :=
  .record
    [("variables", .list (·.toJson) s.vars), ("constants", .list (·.toJson) s.constants),
     ("types", .list (·.toJson) s.types), ("cursors", .list (·.toJson) s.cursors)]

def Access.toJson (a : Access) : Json :=
  .text (match a with
    | unstated => "default"
    | publicAccess => "public"
    | privateAccess => "private")

def Signature.toJson (s : Signature) : Json :=
  .record
    [("name", .text s.name), ("span", s.span.toJson), ("access", s.access.toJson),
     ("parameters", .list .text s.parameters)]

/-! ## Nodes -/

def Keyword.toJson (k : Keyword) : Json := .text k.text

def jsonOptional (e : Option Expression) : Json := .ofOption (·.toJson) e

def jsonExpressions (es : List Expression) : Json := .list (·.toJson) es

def jsonDesignators (ds : List Designator) : Json := .list (·.toJson) ds

def jsonText? (s : Option String) : Json := .ofOption .text s

def MenuClause.toJson : MenuClause → Json
  | beforeMenu => .record [("clause", .text "beforeMenu")]
  | command keys name help =>
    .record
      [("clause", .text "command"), ("key", .list .text keys), ("name", jsonOptional name),
       ("help", jsonOptional help)]
  | action name => .record [("clause", .text "action"), ("name", .text name)]
  | idle seconds => .record [("clause", .text "idle"), ("seconds", jsonOptional seconds)]

/-- The type of a node and the fields that go with it. -/
def NodeKind.jsonFields : NodeKind → List (String × Json)
  | module scope shared functions imports =>
    [("type", .text "module"), ("scope", scope.toJson), ("globals", shared.toJson),
     ("functions", .list (·.toJson) functions), ("imports", .list .text imports)]
  | importModule kind path =>
    [("type", .text "import"), ("importKind", .text kind.name), ("path", .text path)]
  | database keyword name =>
    [("type", .text "database"), ("keyword", keyword.toJson), ("name", .text name)]
  | globalsFile file => [("type", .text "globalsInclude"), ("file", .text file)]
  | globals scope => [("type", .text "globals"), ("scope", scope.toJson)]
  | main scope => [("type", .text "main"), ("scope", scope.toJson)]
  | function access name nameSpan parameters scope returnArities =>
    [("type", .text "function"), ("access", access.toJson), ("name", .text name),
     ("nameSpan", nameSpan.toJson), ("parameters", .list .text parameters),
     ("scope", scope.toJson), ("returnArities", .list .nat returnArities)]
  | vars access declared =>
    [("type", .text "define"), ("access", access.toJson), ("variables", .list (·.toJson) declared)]
  | constants access declared =>
    [("type", .text "constant"), ("access", access.toJson),
      ("constants", .list (·.toJson) declared)]
  | types access declared =>
    [("type", .text "typeDef"), ("access", access.toJson), ("types", .list (·.toJson) declared)]
  | assignment target values =>
    [("type", .text "let"), ("target", .ofOption (·.toJson) target),
      ("values", jsonExpressions values)]
  | call callee returning =>
    [("type", .text "call"), ("call", jsonOptional callee),
      ("returning", jsonDesignators returning)]
  | returnValues values => [("type", .text "return"), ("values", jsonExpressions values)]
  | output keyword values =>
    [("type", .text "output"), ("keyword", keyword.toJson), ("values", jsonExpressions values)]
  | sleep seconds => [("type", .text "sleep"), ("seconds", jsonOptional seconds)]
  | setNull targets => [("type", .text "initialize"), ("targets", jsonDesignators targets)]
  | exit target value =>
    [("type", .text "exit"), ("exitType", .ofOption (·.toJson) target),
      ("value", jsonOptional value)]
  | continueLoop target =>
    [("type", .text "continue"), ("continueType", .ofOption (·.toJson) target)]
  | prepare name source =>
    [("type", .text "prepare"), ("name", jsonText? name), ("source", jsonOptional source)]
  | declare name scroll withHold prepared source =>
    [("type", .text "declare"), ("name", jsonText? name), ("scroll", .bool scroll),
     ("withHold", .bool withHold), ("prepared", jsonText? prepared),
       ("source", jsonOptional source)]
  | cursor operation name direction arguments into =>
    [("type", .text "cursor"), ("operation", operation.toJson), ("name", jsonText? name),
     ("fetchDirection", .ofOption (·.toJson) direction), ("using", jsonExpressions arguments),
     ("into", jsonDesignators into)]
  | whenever condition action =>
    [("type", .text "whenever"), ("condition", .text condition), ("action", .text action)]
  | run command returning withoutWaiting =>
    [("type", .text "run"), ("command", jsonOptional command),
     ("returning", .ofOption (·.toJson) returning), ("withoutWaiting", .bool withoutWaiting)]
  | ifThen condition => [("type", .text "if"), ("condition", jsonOptional condition)]
  | elseClause => [("type", .text "else")]
  | whileLoop condition => [("type", .text "while"), ("condition", jsonOptional condition)]
  | forLoop counter first last step =>
    [("type", .text "for"), ("counterVariable", .ofOption (·.toJson) counter),
     ("startValue", jsonOptional first), ("endValue", jsonOptional last),
     ("stepValue", jsonOptional step)]
  | foreachLoop iterated arguments into reoptimization redeclarations =>
    [("type", .text "foreach"), ("cursor", jsonText? iterated),
      ("using", jsonExpressions arguments),
     ("into", jsonDesignators into), ("reoptimization", .bool reoptimization),
     ("redeclarations", .list (·.toJson) redeclarations)]
  | caseOf subject => [("type", .text "case"), ("subject", jsonOptional subject)]
  | whenClause conditions => [("type", .text "when"), ("conditions", jsonExpressions conditions)]
  | otherwiseClause => [("type", .text "otherwise")]
  | tryBlock => [("type", .text "try")]
  | catchClause => [("type", .text "catch")]
  | menu title => [("type", .text "menu"), ("title", jsonOptional title)]
  | menuOption clause => [("type", .text "menuOption"), ("clause", clause.toJson)]
  | menuControl action options all =>
    [("type", .text "menuOptionControl"), ("action", action.toJson),
     ("options", jsonExpressions options), ("all", .bool all)]

def Extent.jsonFields (e : Extent) : List (String × Json) :=
  [("startIndex", .nat e.start), ("endIndex", .nat e.stop), ("decoratorEnd", .nat e.headerStop),
   ("isComplete", .bool e.isComplete)]

namespace Node

mutual

def toJson : Node → Json
  | ⟨extent, kind, children⟩ =>
    .record (extent.jsonFields ++ kind.jsonFields ++
      match jsonChildren children with
      | [] => []
      | items => [("children", .array items)])

def jsonChildren : List Node → List Json
  | [] => []
  | n :: ns => n.toJson :: jsonChildren ns

end

end Node

end FourGL
