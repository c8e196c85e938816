import TreeWalk.Tree.Text
import TreeWalk.Text.Quoted

/-! # Structural listing

The text of a tree with the name of every node and every span, on one line, for inspection. Like the
canonical text, it is written behind a text that is passed along.
-/

namespace TreeWalk

/-- Close the listing of a node with its span. -/
def listedAt (node : String) (span : Span) : String := node ++ " @ " ++ span.text

def listedNames (names : List String) : String := Text.listed (names.map Text.quoted)

mutual

/-- Write the listing of an expression behind `out`. -/
def Expr.writeListing (out : String) : Expr → String
  | .ident span name => listedAt (out ++ "Identifier(" ++ Text.quoted name ++ ")") span
  | .int span value => listedAt (out ++ "IntegerLiteral(" ++ intText value ++ ")") span
  | .bool span value => listedAt (out ++ "BooleanLiteral(" ++ boolText value ++ ")") span
  | .unary span op operand =>
      let out := operand.writeListing (out ++ "Prefix \x7b op: " ++ op.label ++ ", operand: ")
      listedAt (out ++ " \x7d") span
  | .binary span op left right =>
      let out := left.writeListing (out ++ "Infix \x7b op: " ++ op.label ++ ", left: ")
      let out := right.writeListing (out ++ ", right: ")
      listedAt (out ++ " \x7d") span
  | .cond span condition consequence none =>
      let out := condition.writeListing (out ++ "If \x7b condition: ")
      let out := consequence.writeListing (out ++ ", consequence: ")
      listedAt (out ++ ", alternative: None \x7d") span
  | .cond span condition consequence (some alternative) =>
      let out := condition.writeListing (out ++ "If \x7b condition: ")
      let out := consequence.writeListing (out ++ ", consequence: ")
      let out := alternative.writeListing (out ++ ", alternative: Some(")
      listedAt (out ++ ") \x7d") span
  | .fn span literalSpan params body =>
      let out := out ++ "Function(FunctionLiteral \x7b parameters: " ++ listedNames params
      let out := body.writeListing (out ++ ", body: ")
      listedAt (out ++ ", span: " ++ literalSpan.text ++ " \x7d)") span
  | .call span callee args =>
      let out := callee.writeListing (out ++ "Call \x7b function: ")
      let out := Expr.writeListings (out ++ ", arguments: [") args
      listedAt (out ++ "] \x7d") span

/-- Write the listings of expressions behind `out`, with commas between them. -/
def Expr.writeListings (out : String) : List Expr → String
  | [] => out
  | e :: es => Expr.writeMoreListings (e.writeListing out) es

/-- Write the listings of expressions behind `out`, each after a comma. -/
def Expr.writeMoreListings (out : String) : List Expr → String
  | [] => out
  | e :: es => Expr.writeMoreListings (e.writeListing (out ++ ", ")) es

def Stmt.writeListing (out : String) : Stmt → String
  | .bind span name value =>
      let out := value.writeListing (out ++ "Let \x7b name: " ++ Text.quoted name ++ ", value: ")
      listedAt (out ++ " \x7d") span
  | .ret span none => listedAt (out ++ "Return(None)") span
  | .ret span (some value) => listedAt (value.writeListing (out ++ "Return(Some(") ++ "))") span
  | .expr span value => listedAt (value.writeListing (out ++ "Expression(") ++ ")") span

def Stmt.writeListings (out : String) : List Stmt → String
  | [] => out
  | t :: ts => Stmt.writeMoreListings (t.writeListing out) ts

def Stmt.writeMoreListings (out : String) : List Stmt → String
  | [] => out
  | t :: ts => Stmt.writeMoreListings (t.writeListing (out ++ ", ")) ts

def Block.writeListing (out : String) : Block → String
  | .mk span statements =>
      let out := Stmt.writeListings (out ++ "BlockStatement \x7b statements: [") statements
      out ++ "], span: " ++ span.text ++ " \x7d"

end

def Program.listing (p : Program) : String :=
  Stmt.writeListings "Program \x7b statements: [" p.statements ++ "] \x7d"

end TreeWalk
