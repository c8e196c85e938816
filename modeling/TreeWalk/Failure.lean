import TreeWalk.Span
import TreeWalk.Operator

/-! # Runtime failures

Why evaluation fails, how each cause is worded, and where it arose. A failure is a value of the
language, so that it travels to the top of a program like any other result.
-/

namespace TreeWalk

inductive ValueType where
  | integer
  | boolean
  | null
  | returnValue
  | error
  | function
  deriving DecidableEq, Repr

def ValueType.name : ValueType → String
  | .integer => "INTEGER"
  | .boolean => "BOOLEAN"
  | .null => "NULL"
  | .returnValue => "RETURN_VALUE"
  | .error => "ERROR"
  | .function => "FUNCTION"

inductive Cause where
  /-- The operands of a binary operator have different types. -/
  | typeMismatch (left : ValueType) (op : BinaryOp) (right : ValueType)
  /-- The unary operator is not defined on this type. -/
  | unknownUnary (op : UnaryOp) (operand : ValueType)
  /-- The binary operator is not defined on this type. -/
  | unknownBinary (left : ValueType) (op : BinaryOp) (right : ValueType)
  | divisionByZero
  /-- The result of the named operation is no 64-bit integer. -/
  | integerOverflow (operation : String)
  /-- No scope in reach binds the name. -/
  | identifierNotFound (name : String)
  /-- A value of this type was called. -/
  | notAFunction (type : ValueType)
  | wrongArgumentCount (want got : Nat)
  /-- One more call would nest deeper than the limit. -/
  | callDepthExceeded (limit : Nat)
  deriving DecidableEq, Repr

def Cause.message : Cause → String
  | .typeMismatch left op right =>
      "type mismatch: " ++ left.name ++ " " ++ op.symbol ++ " " ++ right.name
  | .unknownUnary op operand => "unknown operator: " ++ op.symbol ++ operand.name
  | .unknownBinary left op right =>
      "unknown operator: " ++ left.name ++ " " ++ op.symbol ++ " " ++ right.name
  | .divisionByZero => "division by zero"
  | .integerOverflow operation => "integer overflow in " ++ operation
  | .identifierNotFound name => "identifier not found: " ++ name
  | .notAFunction type => "not a function: " ++ type.name
  | .wrongArgumentCount want got =>
      "wrong number of arguments: want=" ++ toString want ++ ", got=" ++ toString got
  | .callDepthExceeded limit => "maximum call depth of " ++ toString limit ++ " exceeded"

/-- A cause and, once known, the text of the node that failed. -/
structure Failure where
  cause : Cause
  span : Option Span := none
  deriving DecidableEq, Repr

/-- Locate a failure. The first span stays: it belongs to the innermost node. -/
def Failure.withSpan (failure : Failure) (span : Span) : Failure :=
  { failure with span := failure.span.or (some span) }

end TreeWalk
