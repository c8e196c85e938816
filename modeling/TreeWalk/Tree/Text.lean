import TreeWalk.Tree

/-! # Canonical text

The text of a tree: one space between words, every operator application in parentheses, statements
of a list on one line. It depends on no span.

A tree is written behind a text that is passed along, so that writing takes time in proportion to
the text written, however deep the tree nests. `Expr.write_eq` and its companions say that this is
the same as writing the tree alone and joining the two texts.
-/

namespace TreeWalk

def boolText (b : Bool) : String := if b then "true" else "false"

/-- An integer as it is written: decimal, with a sign only if it is negative. -/
def intText (n : Int64) : String := toString n.toInt

/-- The parameters of a function, without parentheses. -/
def paramsText (params : List String) : String := ", ".intercalate params

mutual

/-- Write an expression behind `out`. -/
def Expr.write (out : String) : Expr → String
  | .ident _ name => out ++ name
  | .int _ value => out ++ intText value
  | .bool _ value => out ++ boolText value
  | .unary _ op operand => operand.write (out ++ "(" ++ op.symbol) ++ ")"
  | .binary _ op left right =>
      right.write (left.write (out ++ "(") ++ " " ++ op.symbol ++ " ") ++ ")"
  | .cond _ condition consequence none =>
      consequence.write (condition.write (out ++ "if ") ++ " \x7b ") ++ " \x7d"
  | .cond _ condition consequence (some alternative) =>
      alternative.write
        (consequence.write (condition.write (out ++ "if ") ++ " \x7b ") ++ " \x7d else \x7b ") ++
        " \x7d"
  | .fn _ _ params body => body.write (out ++ "fn(" ++ paramsText params ++ ") \x7b ") ++ " \x7d"
  | .call _ callee args => Expr.writeArgs (callee.write out ++ "(") args ++ ")"

/-- Write arguments behind `out`, with commas between them. -/
def Expr.writeArgs (out : String) : List Expr → String
  | [] => out
  | e :: es => Expr.writeMore (e.write out) es

/-- Write arguments behind `out`, each after a comma. -/
def Expr.writeMore (out : String) : List Expr → String
  | [] => out
  | e :: es => Expr.writeMore (e.write (out ++ ", ")) es

def Stmt.write (out : String) : Stmt → String
  | .bind _ name value => value.write (out ++ "let " ++ name ++ " = ") ++ ";"
  | .ret _ none => out ++ "return;"
  | .ret _ (some value) => value.write (out ++ "return ") ++ ";"
  | .expr _ value => value.write out

def Stmt.writeAll (out : String) : List Stmt → String
  | [] => out
  | t :: ts => Stmt.writeMore (t.write out) ts

def Stmt.writeMore (out : String) : List Stmt → String
  | [] => out
  | t :: ts => Stmt.writeMore (t.write (out ++ " ")) ts

def Block.write (out : String) : Block → String
  | .mk _ statements => Stmt.writeAll out statements

end

/-- The canonical text of an expression. -/
def Expr.text (e : Expr) : String := e.write ""

def Expr.argsText (es : List Expr) : String := Expr.writeArgs "" es

def Stmt.text (t : Stmt) : String := t.write ""

def Stmt.listText (ts : List Stmt) : String := Stmt.writeAll "" ts

def Block.text (b : Block) : String := b.write ""

/-- The canonical text of a program. -/
def Program.text (p : Program) : String := Stmt.listText p.statements

mutual

/-- What stands before an expression stays in front of it. -/
theorem Expr.write_append (before out : String) : (e : Expr) →
    e.write (before ++ out) = before ++ e.write out
  | .ident _ _ | .int _ _ | .bool _ _ => by simp only [Expr.write, String.append_assoc]
  | .unary _ _ operand => by
      simp only [Expr.write, operand.write_append, String.append_assoc]
  | .binary _ _ left right => by
      simp only [Expr.write, left.write_append, right.write_append, String.append_assoc]
  | .cond _ condition consequence none => by
      simp only [Expr.write, condition.write_append, consequence.write_append,
        String.append_assoc]
  | .cond _ condition consequence (some alternative) => by
      simp only [Expr.write, condition.write_append, consequence.write_append,
        alternative.write_append, String.append_assoc]
  | .fn _ _ _ body => by simp only [Expr.write, body.write_append, String.append_assoc]
  | .call _ callee args => by
      simp only [Expr.write, callee.write_append, Expr.writeArgs_append _ _ args,
        String.append_assoc]

theorem Expr.writeArgs_append (before out : String) : (es : List Expr) →
    Expr.writeArgs (before ++ out) es = before ++ Expr.writeArgs out es
  | [] => rfl
  | e :: es => by
      simp only [Expr.writeArgs, e.write_append, Expr.writeMore_append _ _ es]

theorem Expr.writeMore_append (before out : String) : (es : List Expr) →
    Expr.writeMore (before ++ out) es = before ++ Expr.writeMore out es
  | [] => rfl
  | e :: es => by
      simp only [Expr.writeMore, e.write_append, Expr.writeMore_append _ _ es,
        String.append_assoc]

theorem Stmt.write_append (before out : String) : (t : Stmt) →
    t.write (before ++ out) = before ++ t.write out
  | .bind _ _ value => by simp only [Stmt.write, value.write_append, String.append_assoc]
  | .ret _ none => by simp only [Stmt.write, String.append_assoc]
  | .ret _ (some value) => by simp only [Stmt.write, value.write_append, String.append_assoc]
  | .expr _ value => by simp only [Stmt.write, value.write_append]

theorem Stmt.writeAll_append (before out : String) : (ts : List Stmt) →
    Stmt.writeAll (before ++ out) ts = before ++ Stmt.writeAll out ts
  | [] => rfl
  | t :: ts => by simp only [Stmt.writeAll, t.write_append, Stmt.writeMore_append _ _ ts]

theorem Stmt.writeMore_append (before out : String) : (ts : List Stmt) →
    Stmt.writeMore (before ++ out) ts = before ++ Stmt.writeMore out ts
  | [] => rfl
  | t :: ts => by
      simp only [Stmt.writeMore, t.write_append, Stmt.writeMore_append _ _ ts,
        String.append_assoc]

theorem Block.write_append (before out : String) : (b : Block) →
    b.write (before ++ out) = before ++ b.write out
  | .mk _ statements => by simp only [Block.write, Stmt.writeAll_append _ _ statements]

end

/-- An expression is written as its text, whatever stands before it. -/
theorem Expr.write_eq (out : String) (e : Expr) : e.write out = out ++ e.text := by
  rw [Expr.text, ← Expr.write_append, String.append_empty]

theorem Expr.writeArgs_eq (out : String) (es : List Expr) :
    Expr.writeArgs out es = out ++ Expr.argsText es := by
  rw [Expr.argsText, ← Expr.writeArgs_append, String.append_empty]

theorem Stmt.write_eq (out : String) (t : Stmt) : t.write out = out ++ t.text := by
  rw [Stmt.text, ← Stmt.write_append, String.append_empty]

theorem Block.write_eq (out : String) (b : Block) : b.write out = out ++ b.text := by
  rw [Block.text, ← Block.write_append, String.append_empty]

end TreeWalk
