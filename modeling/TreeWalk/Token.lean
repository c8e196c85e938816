import TreeWalk.Span
import TreeWalk.Operator

/-! # Tokens

The words of the language: literals, names, keywords, operators and delimiters, each with the span
it was read from. A token sequence ends with the marker `endOfInput`.
-/

namespace TreeWalk

/-- What a token is, apart from where it stands. -/
inductive TokenKind where
  /-- A decimal integer. -/
  | int (value : Int64)
  /-- A name that is no keyword. -/
  | ident (name : String)
  | fnKeyword
  | letKeyword
  | trueKeyword
  | falseKeyword
  | ifKeyword
  | elseKeyword
  | returnKeyword
  | assign
  | plus
  | minus
  | bang
  | star
  | slash
  | less
  | greater
  | equal
  | notEqual
  | comma
  | semicolon
  | leftParen
  | rightParen
  | leftBrace
  | rightBrace
  /-- The end of the text. -/
  | endOfInput
  deriving DecidableEq, Repr, Inhabited

namespace TokenKind

/-- How a token without payload is written. -/
def spelling? : TokenKind → Option String
  | .int _ | .ident _ | .endOfInput => none
  | .fnKeyword => some "fn"
  | .letKeyword => some "let"
  | .trueKeyword => some "true"
  | .falseKeyword => some "false"
  | .ifKeyword => some "if"
  | .elseKeyword => some "else"
  | .returnKeyword => some "return"
  | .assign => some "="
  | .plus => some "+"
  | .minus => some "-"
  | .bang => some "!"
  | .star => some "*"
  | .slash => some "/"
  | .less => some "<"
  | .greater => some ">"
  | .equal => some "=="
  | .notEqual => some "!="
  | .comma => some ","
  | .semicolon => some ";"
  | .leftParen => some "("
  | .rightParen => some ")"
  | .leftBrace => some "\x7b"
  | .rightBrace => some "\x7d"

def marked (text : String) : String := "`" ++ text ++ "`"

/-- The class of the token, as messages name what they expected. -/
def className : TokenKind → String
  | .int _ => "integer"
  | .ident _ => "identifier"
  | .endOfInput => "end of input"
  | kind => marked (kind.spelling?.getD "")

/-- The token itself, as messages name what they found. -/
def text : TokenKind → String
  | .int value => "integer " ++ marked (toString value.toInt)
  | .ident name => "identifier " ++ marked name
  | kind => kind.className

/-- Are the two of one class, whatever integer or name they hold? -/
def sameClass : TokenKind → TokenKind → Bool
  | .int _, .int _ => true
  | .ident _, .ident _ => true
  | a, b => a == b

/-- The operator that the token stands for between two operands. -/
def binaryOp? : TokenKind → Option BinaryOp
  | .plus => some .add
  | .minus => some .sub
  | .star => some .mul
  | .slash => some .div
  | .less => some .less
  | .greater => some .greater
  | .equal => some .equal
  | .notEqual => some .notEqual
  | _ => none

/-- How tightly the token ties what stands before it to what follows. A token that continues no
    expression ties least. -/
def precedence (kind : TokenKind) : Precedence :=
  match kind with
  | .leftParen => .call
  | _ => (kind.binaryOp?.map BinaryOp.precedence).getD .lowest

end TokenKind

/-- A token and the bytes it was read from. -/
structure Token where
  kind : TokenKind
  span : Span
  deriving DecidableEq, Repr, Inhabited

def Token.isEnd (t : Token) : Bool := t.kind == .endOfInput

end TreeWalk
