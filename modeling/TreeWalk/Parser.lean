import TreeWalk.Tree
import TreeWalk.Cursor

/-! # Reading programs

Recursive descent with precedence climbing. An expression is an operand followed by operators and
argument lists, folded into it from left to right while they bind more tightly than the place
where the expression stands allows; operators of equal precedence therefore group to the left.

The rules that call each other take an allowance of steps, which they spend one by one. The
allowance that `parseTokens` starts with is eight steps for every token, and nested rules consume
a token at least every four steps, so it is never used up.
-/

namespace TreeWalk

/-- A rule: read from a cursor, and leave it where reading ended, also after a fault. -/
abbrev Rule := EStateM SyntaxFault Cursor

namespace Rule

def current : Rule Token := fun c => .ok c.current c

/-- The span of the token consumed last. -/
def previous : Rule Span := fun c => .ok c.previous c

def advance : Rule Span := fun c => .ok c.current.span c.advance

def check (kind : TokenKind) : Rule Bool := fun c => .ok (c.check kind) c

def eat (kind : TokenKind) : Rule Bool := fun c => .ok (c.eat kind).1 (c.eat kind).2

def expect (kind : TokenKind) (construct : Construct) : Rule Span := fun c =>
  match c.expect kind construct with
  | .ok (span, c) => .ok span c
  | .error fault => .error fault c

def expectName (construct : Construct) : Rule String := fun c =>
  match c.expectName construct with
  | .ok (name, _, c) => .ok name c
  | .error fault => .error fault c

def noExpression {α : Type} : Rule α := fun c =>
  .error { cause := .expectedExpression c.current.kind, span := c.current.span } c

/-- Claim the faults of a rule for a construct. -/
@[inline] def within {α : Type} (construct : Construct) (rule : Rule α) : Rule α := fun c =>
  match rule c with
  | .ok a c => .ok a c
  | .error fault c => .error (fault.within construct) c

/-- The rest of a parameter list, from a name to the closing parenthesis, behind `read`. -/
def params : (allowance : Nat) → (read : List String) → Rule (List String)
  | 0, _ => noExpression
  | allowance + 1, read => do
      let name ← expectName .functionParams
      if ← eat .comma then params allowance (name :: read)
      else do
        let _ ← expect .rightParen .functionParams
        return (name :: read).reverse

/-- A list behind its opening parenthesis: empty, or as `items` reads it. -/
@[inline] def listed {α : Type} (items : Rule (List α)) : Rule (List α) := do
  if ← eat .rightParen then return [] else items

/-- `let name = value`, with the semicolon behind it if there is one. -/
@[inline] def binding (value : Rule Expr) : Rule Stmt := do
  let start ← advance
  let name ← expectName .letStatement
  let _ ← expect .assign .letStatement
  let value ← within .letStatement value
  let _ ← eat .semicolon
  return .bind (start.merge (← previous)) name value

/-- `return`, with what `value` reads and the semicolon behind it if there is one. -/
@[inline] def returning (value : Rule (Option Expr)) : Rule Stmt := do
  let start ← advance
  let value ← value
  let _ ← eat .semicolon
  return .ret (start.merge (← previous)) value

/-- An expression as a statement, with the semicolon behind it if there is one. -/
@[inline] def standing (value : Rule Expr) : Rule Stmt := do
  let value ← value
  if ← eat .semicolon then return .expr (value.span.merge (← previous)) value
  else return .expr value.span value

/-- An expression in parentheses, which leave no node behind, only a wider span. -/
@[inline] def grouping (inner : Rule Expr) : Rule Expr := do
  let start ← advance
  let inner ← within .grouping inner
  let stop ← expect .rightParen .grouping
  return inner.withSpan (start.merge stop)

/-- `if`, a condition in parentheses, and one or two branches. -/
@[inline] def conditional (condition : Rule Expr) (branch : Rule Block) : Rule Expr := do
  let start ← advance
  let _ ← expect .leftParen .ifExpression
  let condition ← within .ifExpression condition
  let _ ← expect .rightParen .ifExpression
  let consequence ← branch
  if ← eat .elseKeyword then do
    let alternative ← branch
    return .cond (start.merge (← previous)) condition consequence (some alternative)
  else return .cond (start.merge (← previous)) condition consequence none

/-- `fn`, parameters in parentheses, and a body. -/
@[inline] def function (names : Rule (List String)) (body : Rule Block) : Rule Expr := do
  let start ← advance
  let _ ← expect .leftParen .functionLiteral
  let names ← listed names
  let body ← body
  let span := start.merge (← previous)
  return .fn span span names body

@[inline] def unary (op : UnaryOp) (operand : Rule Expr) : Rule Expr := do
  let start ← advance
  let inner ← operand
  return .unary (start.merge inner.span) op inner

mutual

def statement : (allowance : Nat) → Rule Stmt
  | 0 => noExpression
  | allowance + 1 => do
      match (← current).kind with
      | .letKeyword => binding (expression allowance .lowest)
      | .returnKeyword => returning (returned allowance)
      | _ => standing (expression allowance .lowest)

/-- The value of a `return`: none before a semicolon, a closing brace or the end. -/
def returned : (allowance : Nat) → Rule (Option Expr)
  | 0 => noExpression
  | allowance + 1 => do
      match (← current).kind with
      | .semicolon | .rightBrace | .endOfInput => return none
      | _ => return some (← within .returnStatement (expression allowance .lowest))

/-- Statements in braces. A missing opening brace is claimed for `construct`. -/
def block : (allowance : Nat) → (construct : Construct) → Rule Block
  | 0, _ => noExpression
  | allowance + 1, construct => do
      let start ← expect .leftBrace construct
      let inner ← statements allowance []
      let stop ← expect .rightBrace .block
      return .mk (start.merge stop) inner

/-- The statements up to a closing brace or the end, behind `read`. -/
def statements : (allowance : Nat) → (read : List Stmt) → Rule (List Stmt)
  | 0, _ => noExpression
  | allowance + 1, read => do
      match (← current).kind with
      | .rightBrace | .endOfInput => return read.reverse
      | _ => do
          let next ← statement allowance
          statements allowance (next :: read)

/-- An expression whose operators all bind more tightly than `least`. -/
def expression : (allowance : Nat) → (least : Precedence) → Rule Expr
  | 0, _ => noExpression
  | allowance + 1, least => do
      let first ← operand allowance
      continued allowance least first

/-- Fold into `left` the operators and argument lists behind it that bind more tightly than
    `least`. -/
def continued : (allowance : Nat) → (least : Precedence) → (left : Expr) → Rule Expr
  | 0, _, _ => noExpression
  | allowance + 1, least, left => do
      let next := (← current).kind
      if least < next.precedence then
        match next.binaryOp? with
        | none => do
            -- Of the other tokens only the opening parenthesis binds at all.
            let _ ← advance
            let args ← listed (arguments allowance [])
            continued allowance least (.call (left.span.merge (← previous)) left args)
        | some op => do
            let _ ← advance
            let right ← expression allowance op.precedence
            continued allowance least (.binary (left.span.merge right.span) op left right)
      else return left

/-- The rest of an argument list, from an argument to the closing parenthesis, behind `read`. -/
def arguments : (allowance : Nat) → (read : List Expr) → Rule (List Expr)
  | 0, _ => noExpression
  | allowance + 1, read => do
      let arg ← within .callArguments (expression allowance .lowest)
      if ← eat .comma then arguments allowance (arg :: read)
      else do
        let _ ← expect .rightParen .callArguments
        return (arg :: read).reverse

/-- What an expression starts with: a name, a literal, a unary operator with its operand, which
    binds more tightly than any binary operator, an expression in parentheses, a conditional or a
    function. -/
def operand : (allowance : Nat) → Rule Expr
  | 0 => noExpression
  | allowance + 1 => do
      match (← current).kind with
      | .ident name => return .ident (← advance) name
      | .int value => return .int (← advance) value
      | .trueKeyword => return .bool (← advance) true
      | .falseKeyword => return .bool (← advance) false
      | .bang => unary .not (expression allowance .unary)
      | .minus => unary .neg (expression allowance .unary)
      | .leftParen => grouping (expression allowance .lowest)
      | .ifKeyword => conditional (expression allowance .lowest) (block allowance .ifExpression)
      | .fnKeyword => function (params allowance []) (block allowance .functionLiteral)
      | _ => noExpression

end

/-- All statements and all faults from a cursor to the end, behind those found so far. A broken
    statement is skipped through its semicolon. The first number bounds the statements, the second
    is the allowance of each. -/
def program : (bound allowance : Nat) → (read : List Stmt) → (faults : List SyntaxFault) →
    Cursor → List Stmt × List SyntaxFault
  | 0, _, read, faults, _ => (read.reverse, faults.reverse)
  | bound + 1, allowance, read, faults, c =>
      if c.atEnd then (read.reverse, faults.reverse)
      else match statement allowance c with
        | .ok next c => program bound allowance (next :: read) faults c
        | .error fault c => program bound allowance read (fault :: faults) c.recover

end Rule

/-- The program that a token sequence spells, or all of its syntax faults. -/
def parseTokens (tokens : List Token) : Except (List SyntaxFault) Program :=
  match Cursor.ofTokens? tokens with
  | none => .ok ⟨[]⟩
  | some c =>
      let size := tokens.length
      match Rule.program size (8 * size + 8) [] [] c with
      | (statements, []) => .ok ⟨statements⟩
      | (_, faults) => .error faults

/-- The program in a source text that stands `offset` bytes into a larger one: all spans are those
    of the larger text. -/
def parseAt (source : String) (offset : Nat) : Except (List SyntaxFault) Program :=
  match lex source with
  | .error faults => .error (faults.map fun fault => (SyntaxFault.ofLexical fault).shifted offset)
  | .ok tokens => parseTokens (tokens.map fun t => { t with span := t.span.shifted offset })

/-- The program in a source text, or all of its lexical faults, or all of its syntax faults. -/
def parse (source : String) : Except (List SyntaxFault) Program :=
  match lex source with
  | .error faults => .error (faults.map SyntaxFault.ofLexical)
  | .ok tokens => parseTokens tokens

end TreeWalk
