import TreeWalk.Failure
import TreeWalk.Tree.Listing

/-! # Values

What expressions evaluate to. Two values are special: a pending `return` and a failure are signals,
which end the evaluation of everything around them.

Functions, pending returns and failures are created anew each time, and the language can tell two of
them apart even if they look alike. Each therefore carries the number of the cell it was created in;
copies share the cell.
-/

namespace TreeWalk

abbrev ScopeId := Nat

/-- The number of a cell, which tells created values apart. -/
abbrev CellId := Nat

inductive Value where
  | int (value : Int64)
  | bool (value : Bool)
  | null
  /-- A pending `return`, on its way to the end of the running function. -/
  | returned (cell : CellId) (value : Value)
  /-- A failure, on its way to the end of the program. -/
  | error (cell : CellId) (failure : Failure)
  /-- A function and the scope where its literal was evaluated. -/
  | closure (cell : CellId) (literal : FunctionLiteral) (scope : ScopeId)

namespace Value

def type : Value → ValueType
  | .int _ => .integer
  | .bool _ => .boolean
  | .null => .null
  | .returned _ _ => .returnValue
  | .error _ _ => .error
  | .closure _ _ _ => .function

/-- Everything but `null` and `false` is truthy. -/
def isTruthy : Value → Bool
  | .null | .bool false => false
  | _ => true

def isError : Value → Bool
  | .error _ _ => true
  | _ => false

/-- Does the value end the evaluation of what stands around it? -/
def isSignal : Value → Bool
  | .error _ _ | .returned _ _ => true
  | _ => false

/-- Take one pending `return` off a value. -/
def unwrapReturn : Value → Value
  | .returned _ value => value
  | value => value

/-- The identity that `==` of the language decides: equal scalars, or created in the same cell. -/
def identical : Value → Value → Bool
  | .int a, .int b => a == b
  | .bool a, .bool b => a == b
  | .null, .null => true
  | .returned a _, .returned b _ => a == b
  | .error a _, .error b _ => a == b
  | .closure a _ _, .closure b _ _ => a == b
  | _, _ => false

/-- Agreement of results: failures agree when their causes do, pending returns when their contents
    do, and other values when they are identical. -/
def agrees : Value → Value → Bool
  | .returned _ a, .returned _ b => a.agrees b
  | .error _ a, .error _ b => a.cause == b.cause
  | a, b => a.identical b

/-- The text that shows a value to the user. -/
def inspect : Value → String
  | .int value => intText value
  | .bool value => boolText value
  | .null => "null"
  | .returned _ value => value.inspect
  | .error _ failure => "ERROR: " ++ failure.cause.message
  | .closure _ literal _ =>
      "fn(" ++ paramsText literal.params ++ ") \x7b\n" ++ literal.body.text ++ "\n\x7d"

/-- The text that shows the structure of a value. -/
def listing : Value → String
  | .int value => "Integer(" ++ intText value ++ ")"
  | .bool value => "Boolean(" ++ boolText value ++ ")"
  | .null => "Null"
  | .returned _ value => "ReturnValue(" ++ value.listing ++ ")"
  | .error _ failure => "Error(" ++ Text.quoted failure.cause.message ++ ")"
  | .closure _ literal _ =>
      "Function(FunctionValue \x7b parameters: " ++ listedNames literal.params ++ ", .. \x7d)"

end Value

end TreeWalk
