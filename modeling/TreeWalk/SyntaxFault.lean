import TreeWalk.Token.Lexer

/-! # Syntax faults

Why a text is no program: where reading stopped, what stood there, what could have stood there, and
which construct was being read.
-/

namespace TreeWalk

/-- The construct that was being read when a fault arose. -/
inductive Construct where
  | letStatement
  | returnStatement
  | grouping
  | ifExpression
  | block
  | functionLiteral
  | functionParams
  | callArguments
  deriving DecidableEq, Repr

def Construct.description : Construct → String
  | .letStatement => "a let statement"
  | .returnStatement => "a return statement"
  | .grouping => "a parenthesized expression"
  | .ifExpression => "an if expression"
  | .block => "a block"
  | .functionLiteral => "a function literal"
  | .functionParams => "function parameters"
  | .callArguments => "call arguments"

/-- What could have stood where a fault arose. -/
inductive Expectation where
  /-- A token of the class of this one. -/
  | token (kind : TokenKind)
  /-- A name that is about to be bound. -/
  | name
  deriving DecidableEq, Repr

def Expectation.description : Expectation → String
  | .token kind => kind.className
  | .name => "an identifier"

inductive SyntaxCause where
  /-- One particular token was required. -/
  | unexpectedToken (expected : Expectation) (found : TokenKind)
  /-- No expression starts with the token. -/
  | expectedExpression (found : TokenKind)
  /-- The text has no tokens. -/
  | lexical (cause : LexicalCause)
  deriving DecidableEq, Repr

def SyntaxCause.message : SyntaxCause → String
  | .unexpectedToken expected found =>
      "expected " ++ expected.description ++ ", found " ++ found.text
  | .expectedExpression found => "expected an expression, found " ++ found.text
  | .lexical cause => cause.message

/-- The short wording that marks the offending text. -/
def SyntaxCause.label : SyntaxCause → String
  | .unexpectedToken _ _ => "unexpected token"
  | .expectedExpression _ => "expected an expression here"
  | .lexical _ => "invalid token"

/-- A cause, the offending text, and the innermost construct that claimed the fault. -/
structure SyntaxFault where
  cause : SyntaxCause
  span : Span
  construct : Option Construct := none
  deriving DecidableEq, Repr

namespace SyntaxFault

/-- Claim the fault for a construct, unless an inner one has claimed it. -/
def within (fault : SyntaxFault) (construct : Construct) : SyntaxFault :=
  { fault with construct := fault.construct.or (some construct) }

def message (fault : SyntaxFault) : String :=
  match fault.construct with
  | none => fault.cause.message
  | some construct => fault.cause.message ++ " while parsing " ++ construct.description

/-- The token that stands in place of what was expected, while reading a construct. -/
def unexpected (expected : Expectation) (found : Token) (construct : Construct) : SyntaxFault :=
  ⟨.unexpectedToken expected found.kind, found.span, some construct⟩

/-- A lexical fault keeps its place. -/
def ofLexical (fault : LexicalFault) : SyntaxFault :=
  { cause := .lexical fault.cause, span := fault.span }

def shifted (fault : SyntaxFault) (offset : Nat) : SyntaxFault :=
  { fault with span := fault.span.shifted offset }

end SyntaxFault

end TreeWalk
