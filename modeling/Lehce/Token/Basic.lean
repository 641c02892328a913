import Lehce.Number.Layout
import Lehce.Text.Quoted

/-!
# Tokens

The pieces a source text is cut into. A token knows the line it stands on and the
columns it covers. Blanks and line breaks are tokens too: a blank carries its
width, a line break the indentation of the line after it. Operators and keywords
have numbers, and a number that stands for none of them reads as `unknown`.
-/

namespace Lehce

/-- The operators and marks of the language. -/
inductive Operator where
  | unknown
  | plus
  | minus
  | times
  | divide
  | percent
  | increment
  | decrement
  | assign
  | assignPlus
  | assignMinus
  | assignTimes
  | assignDivide
  | equal
  | notEqual
  | bang
  | less
  | lessEqual
  | greater
  | greaterEqual
  | andAnd
  | orOr
  | leftParenthesis
  | rightParenthesis
  | leftBracket
  | rightBracket
  | leftBrace
  | rightBrace
  | comma
  | colon
  | dot
  deriving Repr, DecidableEq, Inhabited

namespace Operator

/-- The operators in the order of their numbers. -/
def all : List Operator := [
  .unknown, .plus, .minus, .times, .divide, .percent, .increment, .decrement, .assign, .assignPlus,
  .assignMinus, .assignTimes, .assignDivide, .equal, .notEqual, .bang, .less, .lessEqual, .greater,
  .greaterEqual, .andAnd, .orOr, .leftParenthesis, .rightParenthesis, .leftBracket, .rightBracket,
  .leftBrace, .rightBrace, .comma, .colon, .dot]

/-- The operator with a number. -/
def ofNumber (n : Nat) : Operator := all[n]?.getD .unknown

/-- The spelling of an operator. -/
def text : Operator → String
  | unknown => "?"
  | plus => "+"
  | minus => "-"
  | times => "*"
  | divide => "/"
  | percent => "%"
  | increment => "++"
  | decrement => "--"
  | assign => "="
  | assignPlus => "+="
  | assignMinus => "-="
  | assignTimes => "*="
  | assignDivide => "/="
  | equal => "=="
  | notEqual => "!="
  | bang => "!"
  | less => "<"
  | lessEqual => "<="
  | greater => ">"
  | greaterEqual => ">="
  | andAnd => "&&"
  | orOr => "||"
  | leftParenthesis => "("
  | rightParenthesis => ")"
  | leftBracket => "["
  | rightBracket => "]"
  | leftBrace => "\x7b"
  | rightBrace => "\x7d"
  | comma => ","
  | colon => ":"
  | dot => "."

/-- The operator that two characters spell together. -/
def ofPair? : Char → Char → Option Operator
  | '+', '+' => some increment
  | '-', '-' => some decrement
  | '+', '=' => some assignPlus
  | '-', '=' => some assignMinus
  | '*', '=' => some assignTimes
  | '/', '=' => some assignDivide
  | '=', '=' => some equal
  | '!', '=' => some notEqual
  | '<', '=' => some lessEqual
  | '>', '=' => some greaterEqual
  | '&', '&' => some andAnd
  | '|', '|' => some orOr
  | _, _ => none

/-- The operator that one character spells. -/
def ofChar? : Char → Option Operator
  | '+' => some plus
  | '-' => some minus
  | '*' => some times
  | '/' => some divide
  | '%' => some percent
  | '=' => some assign
  | '!' => some bang
  | '<' => some less
  | '>' => some greater
  | '(' => some leftParenthesis
  | ')' => some rightParenthesis
  | '[' => some leftBracket
  | ']' => some rightBracket
  | '{' => some leftBrace
  | '}' => some rightBrace
  | ',' => some comma
  | ':' => some colon
  | '.' => some dot
  | _ => none

end Operator

/-- The keywords of the language; each has a Turkish and an English spelling. -/
inductive Keyword where
  | unknown
  | trueWord
  | falseWord
  | emptyWord
  | andWord
  | orWord
  | notWord
  | moduloWord
  | ifWord
  | elseWord
  | loopWord
  | endlessWord
  | breakWord
  | continueWord
  | returnWord
  | functionWord
  deriving Repr, DecidableEq, Inhabited

namespace Keyword

/-- The keywords in the order of their numbers. -/
def all : List Keyword := [
  .unknown, .trueWord, .falseWord, .emptyWord, .andWord, .orWord, .notWord, .moduloWord,
  .ifWord, .elseWord, .loopWord, .endlessWord, .breakWord, .continueWord, .returnWord,
  .functionWord]

/-- The keyword with a number. -/
def ofNumber (n : Nat) : Keyword := all[n]?.getD .unknown

/-- The spelling under which a keyword is shown. -/
def text : Keyword → String
  | .unknown => "?"
  | .trueWord => "doğru"
  | .falseWord => "yanlış"
  | .emptyWord => "boş"
  | .andWord => "ve"
  | .orWord => "veya"
  | .notWord => "değil"
  | .moduloWord => "mod"
  | .ifWord => "ise"
  | .elseWord => "değilse"
  | .loopWord => "döngü"
  | .endlessWord => "sonsuz"
  | .breakWord => "kır"
  | .continueWord => "devam"
  | .returnWord => "döndür"
  | .functionWord => "fonk"

/-- Every spelling and the keyword it stands for. -/
def spellings : List (String × Keyword) := [
  ("doğru", .trueWord), ("true", .trueWord), ("yanlış", .falseWord), ("false", .falseWord),
  ("boş", .emptyWord), ("empty", .emptyWord), ("ve", .andWord), ("and", .andWord),
  ("veya", .orWord), ("or", .orWord), ("değil", .notWord), ("not", .notWord),
  ("mod", .moduloWord), ("eğer", .ifWord), ("if", .ifWord), ("ise", .ifWord),
  ("değilse", .elseWord), ("else", .elseWord), ("döngü", .loopWord), ("while", .loopWord),
  ("sonsuz", .endlessWord), ("endless", .endlessWord), ("kır", .breakWord),
  ("break", .breakWord), ("devam", .continueWord), ("continue", .continueWord),
  ("döndür", .returnWord), ("return", .returnWord), ("fonk", .functionWord),
  ("fn", .functionWord)]

/-- The keyword a word spells. -/
def ofSpelling? (word : String) : Option Keyword := spellings.lookup word

end Keyword

/-- What a token is. -/
inductive Token.Kind where
  | integer (value : Int)
  | double (value : Float)
  | symbol (name : String)
  | text (content : String)
  | atom (name : String)
  | operator (mark : Operator)
  | keyword (word : Keyword)
  | blank (width : Int)
  | newline (indent : Int)

/-- A token, the line it stands on, and the columns from `start` up to, not including, `stop`. -/
structure Token where
  line : Int
  start : Int
  stop : Int
  kind : Token.Kind

namespace Token

/-- The name of the class a token belongs to. -/
def Kind.className : Kind → String
  | integer _ => "integer"
  | double _ => "double"
  | symbol _ => "symbol"
  | text _ => "text"
  | atom _ => "atom"
  | operator _ => "operator"
  | keyword _ => "keyword"
  | blank _ => "whitespace"
  | newline _ => "newline"

/-- The text under which a token is shown. -/
def Kind.show : Kind → String
  | integer value => "Integer(" ++ toString value ++ ")"
  | double value => "Double(" ++ Number.generalText value ++ ")"
  | symbol name => "Symbol(" ++ name ++ ")"
  | text content => "Text(" ++ Text.quote content ++ ")"
  | atom name => "Atom(" ++ name ++ ")"
  | operator mark => mark.text
  | keyword word => word.text
  | blank width => "Whitespace(" ++ toString width ++ ")"
  | newline indent => "NewLine(" ++ toString indent ++ ")"

/-- Whether a colon may directly follow a token of this kind, so that it is a mark of its own. -/
def Kind.allowsColon : Kind → Bool
  | integer _ | double _ | symbol _ | text _ | atom _ => true
  | operator .rightParenthesis | operator .rightBracket | operator .rightBrace => true
  | keyword .trueWord | keyword .falseWord | keyword .emptyWord => true
  | keyword .ifWord | keyword .elseWord | keyword .loopWord | keyword .endlessWord => true
  | _ => false

end Token

end Lehce
