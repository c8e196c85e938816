import TreeWalk.Value

/-! # Operators on values

Integers are added, subtracted, multiplied and divided exactly; a result that is no 64-bit integer
is a failure. Equality of anything but two integers is identity.
-/

namespace TreeWalk

/-- The exact result of the named operation, if it is a 64-bit integer. -/
def checked (operation : String) (exact : Int) : Except Failure Value :=
  if Int64.minValue.toInt ≤ exact ∧ exact ≤ Int64.maxValue.toInt then
    .ok (.int (Int64.ofInt exact))
  else .error { cause := .integerOverflow operation }

/-- A binary operator on two integers. Division rounds towards zero. -/
def BinaryOp.onInts (op : BinaryOp) (a b : Int64) : Except Failure Value :=
  match op with
  | .add => checked "addition" (a.toInt + b.toInt)
  | .sub => checked "subtraction" (a.toInt - b.toInt)
  | .mul => checked "multiplication" (a.toInt * b.toInt)
  | .div =>
      if b.toInt = 0 then .error { cause := .divisionByZero }
      else checked "division" (a.toInt.tdiv b.toInt)
  | .less => .ok (.bool (decide (a.toInt < b.toInt)))
  | .greater => .ok (.bool (decide (b.toInt < a.toInt)))
  | .equal => .ok (.bool (decide (a.toInt = b.toInt)))
  | .notEqual => .ok (.bool (decide (a.toInt ≠ b.toInt)))

/-- A binary operator on two values. Equality is defined on all of them; otherwise different types
    are a mismatch, and no other type has operators. -/
def BinaryOp.operate (op : BinaryOp) (left right : Value) : Except Failure Value :=
  match left, right with
  | .int a, .int b => op.onInts a b
  | _, _ =>
      match op with
      | .equal => .ok (.bool (left.identical right))
      | .notEqual => .ok (.bool (!left.identical right))
      | _ =>
          if left.type ≠ right.type then .error { cause := .typeMismatch left.type op right.type }
          else .error { cause := .unknownBinary left.type op right.type }

def UnaryOp.operate (op : UnaryOp) (operand : Value) : Except Failure Value :=
  match op, operand with
  | .not, _ => .ok (.bool (!operand.isTruthy))
  | .neg, .int a => checked "negation" (-a.toInt)
  | .neg, _ => .error { cause := .unknownUnary op operand.type }

end TreeWalk
