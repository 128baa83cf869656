import FourGL.Text.Blank

/-!
# Kinds of tokens

A token is a keyword, a mark, or one of a few kinds of free text. Keywords are written in any case;
their text here is lowercase. Most keywords may also serve as names: only the reserved ones may not.
-/

namespace FourGL

/-- The keywords of the language, as its manuals spell them. -/
inductive Keyword where
  | ACTION | AFTER | ALL | AND | ANY | ARRAY | AT | ATTRIBUTES | BEFORE | BIGINT | BOOLEAN | BY
  | BYTE | CALL | CASE | CATCH | CHAR | CLIPPED | CLOSE | COMMAND | CONSTANT | CONTINUE | CURRENT
  | CURSOR | DATABASE | DATE | DATETIME | DAY | DECIMAL | DECLARE | DEFINE | DIALOG | DIMENSION
  | DISPLAY | DYNAMIC | ELSE | END | ERROR | EXECUTE | EXIT | FALSE | FETCH | FGL | FIRST | FLOAT
  | FOR | FOREACH | FOUND | FRACTION | FREE | FROM | FUNCTION | GLOBALS | GOTO | HELP | HIDE | HOLD
  | HOUR | IDLE | IF | IMPORT | INITIALIZE | INPUT | INT | INTEGER | INTERVAL | INTO | IS | JAVA
  | KEY | LAST | LET | LIKE | MAIN | MATCHES | MENU | MESSAGE | MINUTE | MOD | MONEY | MONTH | NEXT
  | NOT | NULL | OF | ON | OPEN | OPTION | OR | OTHERWISE | PREPARE | PREVIOUS | PRIVATE | PROGRAM
  | PUBLIC | RAISE | RECORD | REOPTIMIZATION | RETURN | RETURNING | RUN | SCHEMA | SCROLL | SECOND
  | SHOW | SLEEP | SMALLINT | SQLERROR | STEP | STOP | STRING | TEXT | THEN | TINYINT | TO | TRUE
  | TRY | TYPE | USING | VARCHAR | WAITING | WARNING | WHEN | WHENEVER | WHILE | WITH | WITHOUT
  | YEAR
deriving DecidableEq

namespace Keyword

def text : Keyword → String
  | ACTION => "action"
  | AFTER => "after"
  | ALL => "all"
  | AND => "and"
  | ANY => "any"
  | ARRAY => "array"
  | AT => "at"
  | ATTRIBUTES => "attributes"
  | BEFORE => "before"
  | BIGINT => "bigint"
  | BOOLEAN => "boolean"
  | BY => "by"
  | BYTE => "byte"
  | CALL => "call"
  | CASE => "case"
  | CATCH => "catch"
  | CHAR => "char"
  | CLIPPED => "clipped"
  | CLOSE => "close"
  | COMMAND => "command"
  | CONSTANT => "constant"
  | CONTINUE => "continue"
  | CURRENT => "current"
  | CURSOR => "cursor"
  | DATABASE => "database"
  | DATE => "date"
  | DATETIME => "datetime"
  | DAY => "day"
  | DECIMAL => "decimal"
  | DECLARE => "declare"
  | DEFINE => "define"
  | DIALOG => "dialog"
  | DIMENSION => "dimension"
  | DISPLAY => "display"
  | DYNAMIC => "dynamic"
  | ELSE => "else"
  | END => "end"
  | ERROR => "error"
  | EXECUTE => "execute"
  | EXIT => "exit"
  | FALSE => "false"
  | FETCH => "fetch"
  | FGL => "fgl"
  | FIRST => "first"
  | FLOAT => "float"
  | FOR => "for"
  | FOREACH => "foreach"
  | FOUND => "found"
  | FRACTION => "fraction"
  | FREE => "free"
  | FROM => "from"
  | FUNCTION => "function"
  | GLOBALS => "globals"
  | GOTO => "goto"
  | HELP => "help"
  | HIDE => "hide"
  | HOLD => "hold"
  | HOUR => "hour"
  | IDLE => "idle"
  | IF => "if"
  | IMPORT => "import"
  | INITIALIZE => "initialize"
  | INPUT => "input"
  | INT => "int"
  | INTEGER => "integer"
  | INTERVAL => "interval"
  | INTO => "into"
  | IS => "is"
  | JAVA => "java"
  | KEY => "key"
  | LAST => "last"
  | LET => "let"
  | LIKE => "like"
  | MAIN => "main"
  | MATCHES => "matches"
  | MENU => "menu"
  | MESSAGE => "message"
  | MINUTE => "minute"
  | MOD => "mod"
  | MONEY => "money"
  | MONTH => "month"
  | NEXT => "next"
  | NOT => "not"
  | NULL => "null"
  | OF => "of"
  | ON => "on"
  | OPEN => "open"
  | OPTION => "option"
  | OR => "or"
  | OTHERWISE => "otherwise"
  | PREPARE => "prepare"
  | PREVIOUS => "previous"
  | PRIVATE => "private"
  | PROGRAM => "program"
  | PUBLIC => "public"
  | RAISE => "raise"
  | RECORD => "record"
  | REOPTIMIZATION => "reoptimization"
  | RETURN => "return"
  | RETURNING => "returning"
  | RUN => "run"
  | SCHEMA => "schema"
  | SCROLL => "scroll"
  | SECOND => "second"
  | SHOW => "show"
  | SLEEP => "sleep"
  | SMALLINT => "smallint"
  | SQLERROR => "sqlerror"
  | STEP => "step"
  | STOP => "stop"
  | STRING => "string"
  | TEXT => "text"
  | THEN => "then"
  | TINYINT => "tinyint"
  | TO => "to"
  | TRUE => "true"
  | TRY => "try"
  | TYPE => "type"
  | USING => "using"
  | VARCHAR => "varchar"
  | WAITING => "waiting"
  | WARNING => "warning"
  | WHEN => "when"
  | WHENEVER => "whenever"
  | WHILE => "while"
  | WITH => "with"
  | WITHOUT => "without"
  | YEAR => "year"

/-- Every keyword, in alphabetical order. -/
def all : List Keyword :=
  [.ACTION, .AFTER, .ALL, .AND, .ANY, .ARRAY, .AT, .ATTRIBUTES, .BEFORE, .BIGINT, .BOOLEAN, .BY,
   .BYTE, .CALL, .CASE, .CATCH, .CHAR, .CLIPPED, .CLOSE, .COMMAND, .CONSTANT, .CONTINUE, .CURRENT,
   .CURSOR, .DATABASE, .DATE, .DATETIME, .DAY, .DECIMAL, .DECLARE, .DEFINE, .DIALOG, .DIMENSION,
   .DISPLAY, .DYNAMIC, .ELSE, .END, .ERROR, .EXECUTE, .EXIT, .FALSE, .FETCH, .FGL, .FIRST, .FLOAT,
   .FOR, .FOREACH, .FOUND, .FRACTION, .FREE, .FROM, .FUNCTION, .GLOBALS, .GOTO, .HELP, .HIDE, .HOLD,
   .HOUR, .IDLE, .IF, .IMPORT, .INITIALIZE, .INPUT, .INT, .INTEGER, .INTERVAL, .INTO, .IS, .JAVA,
   .KEY, .LAST, .LET, .LIKE, .MAIN, .MATCHES, .MENU, .MESSAGE, .MINUTE, .MOD, .MONEY, .MONTH, .NEXT,
   .NOT, .NULL, .OF, .ON, .OPEN, .OPTION, .OR, .OTHERWISE, .PREPARE, .PREVIOUS, .PRIVATE, .PROGRAM,
   .PUBLIC, .RAISE, .RECORD, .REOPTIMIZATION, .RETURN, .RETURNING, .RUN, .SCHEMA, .SCROLL, .SECOND,
   .SHOW, .SLEEP, .SMALLINT, .SQLERROR, .STEP, .STOP, .STRING, .TEXT, .THEN, .TINYINT, .TO, .TRUE,
   .TRY, .TYPE, .USING, .VARCHAR, .WAITING, .WARNING, .WHEN, .WHENEVER, .WHILE, .WITH, .WITHOUT,
   .YEAR]

/-- The keyword that `text` spells, in any case. -/
def ofText? (text : String) : Option Keyword := all.find? fun k => k.text == text.toLower

/-- The keywords that never serve as names. -/
def reserved : List Keyword :=
  [.AND, .BEFORE, .CALL, .CASE, .CATCH, .CLOSE, .CLIPPED, .COMMAND, .CONSTANT, .CONTINUE, .DATABASE,
   .DECLARE, .DEFINE, .DISPLAY, .ELSE, .END, .ERROR, .EXECUTE, .EXIT, .FALSE, .FETCH, .FOR,
   .FOREACH, .FREE, .FROM, .FUNCTION, .GLOBALS, .IF, .IMPORT, .INITIALIZE, .INTO, .IS, .LET, .LIKE,
   .MAIN, .MATCHES, .MENU, .MESSAGE, .MOD, .NOT, .NULL, .ON, .OPEN, .OR, .OTHERWISE, .PREPARE,
   .PRIVATE, .PUBLIC, .RETURN, .RETURNING, .RUN, .SCHEMA, .SLEEP, .STEP, .THEN, .TO, .TRUE, .TRY,
   .TYPE, .USING, .WHEN, .WHENEVER, .WHILE]

def isReserved (k : Keyword) : Bool := reserved.contains k

end Keyword

/-- Operators and punctuation marks. -/
inductive Mark where
  | plus | minus | asterisk | slash | power | concat | equal | doubleEqual | notEqual
  | lessGreater | less | lessEqual | greater | greaterEqual | openParen | closeParen
  | openBracket | closeBracket | comma | dot | colon | semicolon
deriving DecidableEq

namespace Mark

def text : Mark → String
  | plus => "+"
  | minus => "-"
  | asterisk => "*"
  | slash => "/"
  | power => "**"
  | concat => "||"
  | equal => "="
  | doubleEqual => "=="
  | notEqual => "!="
  | lessGreater => "<>"
  | less => "<"
  | lessEqual => "<="
  | greater => ">"
  | greaterEqual => ">="
  | openParen => "("
  | closeParen => ")"
  | openBracket => "["
  | closeBracket => "]"
  | comma => ","
  | dot => "."
  | colon => ":"
  | semicolon => ";"

/-- Every mark, operators first. -/
def all : List Mark :=
  [.plus, .minus, .asterisk, .slash, .power, .concat, .equal, .doubleEqual, .notEqual,
   .lessGreater, .less, .lessEqual, .greater, .greaterEqual, .openParen, .closeParen,
   .openBracket, .closeBracket, .comma, .dot, .colon, .semicolon]

/-- The mark that `text` spells. -/
def ofText? (text : String) : Option Mark := all.find? fun m => m.text == text

/-- Marks that structure a text rather than combine values. -/
def isPunctuation : Mark → Bool
  | openParen | closeParen | openBracket | closeBracket | comma | dot | colon | semicolon => true
  | _ => false

end Mark

/-- The kind of a token. Blanks, line breaks and comments are trivia: they separate the other
tokens and mean nothing themselves. -/
inductive Kind where
  | unknown
  | endOfFile
  | whitespace
  | newLine
  | comment
  | identifier
  | number
  | string
  | mark (m : Mark)
  | keyword (k : Keyword)
deriving DecidableEq

/-- The coarse classes of token kinds. -/
inductive Category where
  | keyword | identifier | number | string | operator | punctuation | whitespace | comment
  | endOfFile | unknown
deriving DecidableEq

namespace Category

def name : Category → String
  | keyword => "keyword"
  | identifier => "identifier"
  | number => "numericLiteral"
  | string => "stringLiteral"
  | operator => "operator"
  | punctuation => "punctuation"
  | whitespace => "whitespace"
  | comment => "comment"
  | endOfFile => "endOfFile"
  | unknown => "unknown"

def all : List Category :=
  [.keyword, .identifier, .number, .string, .operator, .punctuation, .whitespace, .comment,
   .endOfFile, .unknown]

/-- The category called `name`, in any case. -/
def ofName? (name : String) : Option Category := all.find? fun c => sameName c.name name

end Category

namespace Kind

/-- Every kind: free text, then marks, then keywords. -/
def all : List Kind :=
  [.unknown, .endOfFile, .whitespace, .newLine, .comment, .identifier, .number, .string] ++
    Mark.all.map .mark ++ Keyword.all.map .keyword

def isKeyword : Kind → Bool
  | keyword _ => true
  | _ => false

def isMark : Kind → Bool
  | mark _ => true
  | _ => false

def isTrivia : Kind → Bool
  | whitespace | newLine | comment => true
  | _ => false

def isLiteral : Kind → Bool
  | number | string => true
  | _ => false

def isReserved : Kind → Bool
  | keyword k => k.isReserved
  | _ => false

/-- Whether a token of this kind may stand where a name is expected. -/
def canBeName : Kind → Bool
  | identifier => true
  | keyword k => !k.isReserved
  | _ => false

def keywordText? : Kind → Option String
  | keyword k => some k.text
  | _ => none

def markText? : Kind → Option String
  | mark m => some m.text
  | _ => none

def category : Kind → Category
  | unknown => .unknown
  | endOfFile => .endOfFile
  | whitespace | newLine => .whitespace
  | comment => .comment
  | identifier => .identifier
  | number => .number
  | string => .string
  | mark m => if m.isPunctuation then .punctuation else .operator
  | keyword _ => .keyword

/-- How messages name the kind: by its text where all its tokens have the same. -/
def text : Kind → String
  | unknown => "unknown"
  | endOfFile => "end of file"
  | whitespace => "whitespace"
  | newLine => "newline"
  | comment => "comment"
  | identifier => "identifier"
  | number => "number"
  | string => "string"
  | mark m => m.text
  | keyword k => k.text

/-- Names of the kinds of free text that completion rules may ask for. -/
def ofFreeName? (name : String) : Option Kind :=
  match name.toLower with
  | "identifier" => some .identifier
  | "numberliteral" => some .number
  | "stringliteral" => some .string
  | "eof" => some .endOfFile
  | _ => none

/-- The kind that a completion rule calls `name`: a kind of free text, a keyword or a mark. -/
def ofRuleName? (name : String) : Option Kind :=
  (ofFreeName? name).orElse fun _ =>
    ((Keyword.ofText? name).map .keyword).orElse fun _ => (Mark.ofText? name).map .mark

end Kind

end FourGL
