import TreeWalk.Span
import TreeWalk.Operator

/-! # Program trees

Expressions, statements, blocks and programs. Every node carries the span of the text that it was
read from.
-/

namespace TreeWalk

mutual

inductive Expr where
  /-- A name, read in the scope where it stands. -/
  | ident (span : Span) (name : String)
  /-- An integer literal. -/
  | int (span : Span) (value : Int64)
  /-- `true` or `false`. -/
  | bool (span : Span) (value : Bool)
  /-- An operator in front of its operand. -/
  | unary (span : Span) (op : UnaryOp) (operand : Expr)
  /-- An operator between two operands. -/
  | binary (span : Span) (op : BinaryOp) (left right : Expr)
  /-- A conditional with an optional `else` branch. -/
  | cond (span : Span) (condition : Expr) (consequence : Block) (alternative : Option Block)
  /-- A function. Parentheses around it widen `span` and leave `literalSpan` as it is. -/
  | fn (span literalSpan : Span) (params : List String) (body : Block)
  /-- A call. -/
  | call (span : Span) (callee : Expr) (args : List Expr)

inductive Stmt where
  /-- Bind a name in the scope where the statement stands. -/
  | bind (span : Span) (name : String) (value : Expr)
  /-- Leave the running function, or the program, with a value if there is one. -/
  | ret (span : Span) (value : Option Expr)
  /-- An expression that stands for its value. -/
  | expr (span : Span) (value : Expr)

/-- A sequence of statements in braces. -/
inductive Block where
  | mk (span : Span) (statements : List Stmt)

end

/-- The text that an expression was read from, parentheses included. -/
def Expr.span : Expr → Span
  | .ident span _ | .int span _ | .bool span _ | .unary span _ _ | .binary span _ _ _
  | .cond span _ _ _ | .fn span _ _ _ | .call span _ _ => span

/-- The same expression, read from `span`. Nothing below the outermost node changes. -/
def Expr.withSpan (span : Span) : Expr → Expr
  | .ident _ name => .ident span name
  | .int _ value => .int span value
  | .bool _ value => .bool span value
  | .unary _ op operand => .unary span op operand
  | .binary _ op left right => .binary span op left right
  | .cond _ condition consequence alternative => .cond span condition consequence alternative
  | .fn _ literalSpan params body => .fn span literalSpan params body
  | .call _ callee args => .call span callee args

def Stmt.span : Stmt → Span
  | .bind span _ _ | .ret span _ | .expr span _ => span

def Block.span : Block → Span
  | .mk span _ => span

def Block.statements : Block → List Stmt
  | .mk _ statements => statements

/-- What a function expression says, apart from where it is evaluated. -/
structure FunctionLiteral where
  params : List String
  body : Block
  /-- The text from `fn` to the closing brace. -/
  span : Span

structure Program where
  statements : List Stmt

def Program.isEmpty (p : Program) : Bool := p.statements.isEmpty

end TreeWalk
