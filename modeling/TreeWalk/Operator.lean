/-! # Operators

The unary and binary operators of the language, how they are written and how tightly they bind.
-/

namespace TreeWalk

/-- How tightly an expression holds its operands, loosest first. -/
inductive Precedence where
  /-- Any expression. -/
  | lowest
  /-- `==` and `!=`. -/
  | equals
  /-- `<` and `>`. -/
  | lessGreater
  /-- `+` and `-` between two operands. -/
  | sum
  /-- `*` and `/`. -/
  | product
  /-- An operator in front of its operand. -/
  | unary
  /-- The parenthesis that opens the arguments of a call. -/
  | call
  deriving DecidableEq, Repr

/-- The position of a precedence in the order, from `0` for the loosest. -/
def Precedence.level : Precedence → Nat
  | .lowest => 0
  | .equals => 1
  | .lessGreater => 2
  | .sum => 3
  | .product => 4
  | .unary => 5
  | .call => 6

instance : LT Precedence := ⟨fun a b => a.level < b.level⟩

instance (a b : Precedence) : Decidable (a < b) := inferInstanceAs (Decidable (a.level < b.level))

inductive BinaryOp where
  | add
  | sub
  | mul
  | div
  | less
  | greater
  | equal
  | notEqual
  deriving DecidableEq, Repr

def BinaryOp.symbol : BinaryOp → String
  | .add => "+"
  | .sub => "-"
  | .mul => "*"
  | .div => "/"
  | .less => "<"
  | .greater => ">"
  | .equal => "=="
  | .notEqual => "!="

/-- The name of the operator in structural listings of a tree. -/
def BinaryOp.label : BinaryOp → String
  | .add => "Add"
  | .sub => "Sub"
  | .mul => "Mul"
  | .div => "Div"
  | .less => "Lt"
  | .greater => "Gt"
  | .equal => "Eq"
  | .notEqual => "NotEq"

def BinaryOp.precedence : BinaryOp → Precedence
  | .equal | .notEqual => .equals
  | .less | .greater => .lessGreater
  | .add | .sub => .sum
  | .mul | .div => .product

inductive UnaryOp where
  /-- `!x`: is the operand falsy? -/
  | not
  /-- `-x`: the negated integer. -/
  | neg
  deriving DecidableEq, Repr

def UnaryOp.symbol : UnaryOp → String
  | .not => "!"
  | .neg => "-"

def UnaryOp.label : UnaryOp → String
  | .not => "Not"
  | .neg => "Neg"

end TreeWalk
