import TreeWalk.Token
import TreeWalk.Tree

/-! # The grammar of programs

The grammar is layered by how tightly operators bind: `== !=` below `< >` below `+ -` below `* /`
below the unary operators below calls. A layer takes its left operands from itself and its right
operands from a tighter layer, so operators of one layer group to the left. Parentheses, literals,
conditionals and functions belong to the tightest layer.

A derivation relates the tokens that are still to be read to those that are left over, so every
token between the two stands for exactly one place of the tree. Spans are free: the grammar says
nothing about where a node was read from.
-/

namespace TreeWalk

def BinaryOp.token : BinaryOp → TokenKind
  | .add => .plus
  | .sub => .minus
  | .mul => .star
  | .div => .slash
  | .less => .less
  | .greater => .greater
  | .equal => .equal
  | .notEqual => .notEqual

def UnaryOp.token : UnaryOp → TokenKind
  | .not => .bang
  | .neg => .minus

@[simp] theorem BinaryOp.binaryOp?_token (op : BinaryOp) : op.token.binaryOp? = some op := by
  cases op <;> rfl

@[simp] theorem BinaryOp.precedence_token (op : BinaryOp) :
    op.token.precedence = op.precedence := by
  cases op <;> rfl

/-- Only the operator's own token reads as the operator. -/
theorem BinaryOp.eq_token {kind : TokenKind} {op : BinaryOp} (reads : kind.binaryOp? = some op) :
    kind = op.token := by
  cases kind <;> simp only [TokenKind.binaryOp?, Option.some.injEq, reduceCtorEq] at reads <;>
    subst reads <;> rfl

theorem Precedence.lt_iff {a b : Precedence} : a < b ↔ a.level < b.level := Iff.rfl

/-- Every binary operator binds more tightly than nothing and less tightly than a unary one. -/
theorem BinaryOp.precedence_level (op : BinaryOp) :
    Precedence.lowest.level < op.precedence.level ∧
      op.precedence.level < Precedence.unary.level := by
  cases op <;> decide

theorem Precedence.eq_or_lt {a b : Precedence} (notBelow : ¬ a < b) : a = b ∨ b < a := by
  cases a <;> cases b <;> simp_all [Precedence.lt_iff, Precedence.level]

theorem Precedence.lowest_lt {a b : Precedence} (above : a < b) : Precedence.lowest < b := by
  simp only [Precedence.lt_iff, Precedence.level] at above ⊢
  omega

/-- The end marker continues no expression. -/
theorem TokenKind.ne_end_of_binds {kind : TokenKind} {least : Precedence}
    (binds : least < kind.precedence) : kind ≠ .endOfInput := by
  rintro rfl
  exact absurd (Precedence.lowest_lt binds) (by decide)

theorem BinaryOp.precedence_lt_call (op : BinaryOp) : op.precedence < .call := by
  cases op <;> decide

theorem Precedence.not_call_lt (a : Precedence) : ¬ Precedence.call < a := by
  cases a <;> decide

/-- A token that continues an expression is an operator or the parenthesis of a call. -/
theorem TokenKind.eq_leftParen {kind : TokenKind} (binds : Precedence.lowest < kind.precedence)
    (noOperator : kind.binaryOp? = none) : kind = .leftParen := by
  cases kind <;> simp_all [TokenKind.precedence, TokenKind.binaryOp?, Precedence.lt_iff]

namespace Grammar

/-- The token that comes next: the end marker if there is none. -/
def next (input : List TokenKind) : TokenKind := input.headD .endOfInput

@[simp] theorem next_nil : next [] = .endOfInput := rfl

@[simp] theorem next_cons (kind : TokenKind) (rest : List TokenKind) : next (kind :: rest) = kind :=
  rfl

/-- The end of a statement: its semicolon, or nothing where the next token could not continue an
    expression. -/
inductive Ends : List TokenKind → List TokenKind → Prop where
  | semicolon : Ends (.semicolon :: rest) rest
  | omitted : next rest ≠ .leftParen → (next rest).binaryOp? = none → Ends rest rest

/-- The end of a `return` without a value: its semicolon, or nothing before a closing brace and at
    the end. -/
inductive BareEnds : List TokenKind → List TokenKind → Prop where
  | semicolon : BareEnds (.semicolon :: rest) rest
  | brace : next rest = .rightBrace → BareEnds rest rest
  | finish : BareEnds [] []

/-- Names with commas between them, up to the closing parenthesis. -/
inductive Names : List TokenKind → List String → List TokenKind → Prop where
  | last : Names (.ident name :: .rightParen :: rest) [name] rest
  | cons : Names input names rest → Names (.ident name :: .comma :: input) (name :: names) rest

inductive Params : List TokenKind → List String → List TokenKind → Prop where
  | empty : Params (.rightParen :: rest) [] rest
  | items (list : Names input names rest) : Params input names rest

mutual

/-- `Expression layer input e rest`: the layer derives `e` from the tokens of `input` before
    `rest`. -/
inductive Expression : Precedence → List TokenKind → Expr → List TokenKind → Prop where
  | ident : Expression .call (.ident name :: rest) (.ident span name) rest
  | int : Expression .call (.int value :: rest) (.int span value) rest
  | trueLiteral : Expression .call (.trueKeyword :: rest) (.bool span true) rest
  | falseLiteral : Expression .call (.falseKeyword :: rest) (.bool span false) rest
  /-- Parentheses hold any expression and leave no node behind. -/
  | group (inner : Expression .lowest input e (.rightParen :: rest)) :
      Expression .call (.leftParen :: input) (e.withSpan span) rest
  | cond (test : Expression .lowest input condition (.rightParen :: middle))
      (branch : Braced middle consequence rest) :
      Expression .call (.ifKeyword :: .leftParen :: input)
        (.cond span condition consequence none) rest
  | condElse (test : Expression .lowest input condition (.rightParen :: middle))
      (branch : Braced middle consequence (.elseKeyword :: last))
      (other : Braced last alternative rest) :
      Expression .call (.ifKeyword :: .leftParen :: input)
        (.cond span condition consequence (some alternative)) rest
  | fn (names : Params input params middle) (code : Braced middle body rest) :
      Expression .call (.fnKeyword :: .leftParen :: input) (.fn span literalSpan params body) rest
  | call (head : Expression .call input callee (.leftParen :: middle))
      (list : Arguments middle args rest) : Expression .call input (.call span callee args) rest
  | unary (op : UnaryOp) (inner : Expression .unary input operand rest) :
      Expression .unary (op.token :: input) (.unary span op operand) rest
  /-- The left operand is of the operator's own layer, the right one of a tighter layer. -/
  | binary (op : BinaryOp) (first : Expression op.precedence input left (op.token :: middle))
      (second : Expression tighter middle right rest) (above : op.precedence < tighter) :
      Expression op.precedence input (.binary span op left right) rest
  /-- A layer holds all tighter ones. -/
  | looser (inner : Expression tighter input e rest) (above : layer < tighter) :
      Expression layer input e rest

/-- The arguments of a call, behind the opening parenthesis. -/
inductive Arguments : List TokenKind → List Expr → List TokenKind → Prop where
  | empty : Arguments (.rightParen :: rest) [] rest
  | items (list : Items input args rest) : Arguments input args rest

inductive Items : List TokenKind → List Expr → List TokenKind → Prop where
  | last (item : Expression .lowest input arg (.rightParen :: rest)) : Items input [arg] rest
  | cons (item : Expression .lowest input arg (.comma :: middle)) (more : Items middle args rest) :
      Items input (arg :: args) rest

/-- One statement with its end. -/
inductive Statement : List TokenKind → Stmt → List TokenKind → Prop where
  | bind (inner : Expression .lowest input value middle) (ends : Ends middle rest) :
      Statement (.letKeyword :: .ident name :: .assign :: input) (.bind span name value) rest
  | ret (inner : Expression .lowest input value middle) (ends : Ends middle rest) :
      Statement (.returnKeyword :: input) (.ret span (some value)) rest
  | retNothing (ends : BareEnds input rest) :
      Statement (.returnKeyword :: input) (.ret span none) rest
  | expr (inner : Expression .lowest input value middle) (ends : Ends middle rest) :
      Statement input (.expr span value) rest

inductive Statements : List TokenKind → List Stmt → List TokenKind → Prop where
  | nil : Statements rest [] rest
  | cons (head : Statement input t middle) (tail : Statements middle ts rest) :
      Statements input (t :: ts) rest

inductive Braced : List TokenKind → Block → List TokenKind → Prop where
  | mk (inner : Statements input statements (.rightBrace :: rest)) :
      Braced (.leftBrace :: input) (.mk span statements) rest

end

/-- The grammar derives a program from a whole token sequence. -/
def Derives (input : List TokenKind) (p : Program) : Prop := Statements input p.statements []

/-- An expression of a layer belongs to every layer that is not tighter. -/
theorem Expression.down (inner : Expression layer input e rest) (notBelow : ¬ layer < lower) :
    Expression lower input e rest := by
  rcases Precedence.eq_or_lt notBelow with rfl | above
  · exact inner
  · exact inner.looser above

def startsExpression : TokenKind → Bool
  | .ident _ | .int _ | .trueKeyword | .falseKeyword | .bang | .minus | .leftParen | .ifKeyword
  | .fnKeyword => true
  | _ => false

theorem startsExpression_token (op : UnaryOp) : startsExpression op.token = true := by
  cases op <;> rfl

theorem Expression.starts : Expression layer input e rest → startsExpression (next input) = true
  | .ident | .int | .trueLiteral | .falseLiteral | .group _ | .cond _ _ | .condElse _ _ _
  | .fn _ _ => rfl
  | .call head _ => head.starts
  | .unary op _ => startsExpression_token op
  | .binary _ first _ _ => first.starts
  | .looser inner _ => inner.starts

def startsStatement : TokenKind → Bool
  | .letKeyword | .returnKeyword => true
  | kind => startsExpression kind

/-- The tokens that can stand behind a finished statement: the start of another one, a closing brace
    or the end. -/
def followsStatement : TokenKind → Bool
  | .rightBrace | .endOfInput => true
  | kind => startsStatement kind

theorem startsStatement_of_expression {kind : TokenKind} (starts : startsExpression kind = true) :
    startsStatement kind = true := by
  cases kind <;> first | rfl | exact starts

theorem followsStatement_of_starts {kind : TokenKind} (starts : startsStatement kind = true) :
    followsStatement kind = true := by
  cases kind <;> first | rfl | exact starts

theorem Statement.starts : Statement input t rest → startsStatement (next input) = true
  | .bind _ _ | .ret _ _ | .retNothing _ => rfl
  | .expr inner _ => startsStatement_of_expression inner.starts

theorem Statements.starts : Statements input ts rest → followsStatement (next rest) = true →
    followsStatement (next input) = true
  | .nil, behind => behind
  | .cons head _, _ => followsStatement_of_starts head.starts

theorem Ends.length_le : Ends input rest → rest.length ≤ input.length
  | .semicolon => Nat.le_succ _
  | .omitted _ _ => Nat.le_refl _

theorem BareEnds.length_le : BareEnds input rest → rest.length ≤ input.length
  | .semicolon => Nat.le_succ _
  | .brace _ | .finish => Nat.le_refl _

theorem Names.length_lt (h : Names input names rest) : rest.length < input.length := by
  induction h with
  | last => simp only [List.length_cons]; omega
  | cons _ ih => simp only [List.length_cons]; omega

theorem Params.length_lt : Params input names rest → rest.length < input.length
  | .empty => Nat.lt_succ_self _
  | .items list => list.length_lt

mutual

/-- An expression is read from at least one token. -/
theorem Expression.length_lt : Expression layer input e rest → rest.length < input.length
  | .ident | .int | .trueLiteral | .falseLiteral => Nat.lt_succ_self _
  | .group inner => by
      have := inner.length_lt
      simp only [List.length_cons] at this ⊢
      omega
  | .cond test branch => by
      have := test.length_lt
      have := branch.length_lt
      simp only [List.length_cons] at *
      omega
  | .condElse test branch other => by
      have := test.length_lt
      have := branch.length_lt
      have := other.length_lt
      simp only [List.length_cons] at *
      omega
  | .fn names code => by
      have := names.length_lt
      have := code.length_lt
      simp only [List.length_cons] at *
      omega
  | .call head list => by
      have := head.length_lt
      have := list.length_lt
      simp only [List.length_cons] at *
      omega
  | .unary _ inner => Nat.lt_succ_of_lt inner.length_lt
  | .binary _ first second _ => by
      have := first.length_lt
      have := second.length_lt
      simp only [List.length_cons] at *
      omega
  | .looser inner _ => inner.length_lt

theorem Arguments.length_lt : Arguments input args rest → rest.length < input.length
  | .empty => Nat.lt_succ_self _
  | .items list => list.length_lt

theorem Items.length_lt : Items input args rest → rest.length < input.length
  | .last item => Nat.lt_of_succ_lt item.length_lt
  | .cons item more => Nat.lt_trans more.length_lt (Nat.lt_of_succ_lt item.length_lt)

theorem Statement.length_lt : Statement input t rest → rest.length < input.length
  | .bind inner ends => by
      have := inner.length_lt
      have := ends.length_le
      simp only [List.length_cons]
      omega
  | .ret inner ends => by
      have := inner.length_lt
      have := ends.length_le
      simp only [List.length_cons]
      omega
  | .retNothing ends => Nat.lt_succ_of_le ends.length_le
  | .expr inner ends => Nat.lt_of_le_of_lt ends.length_le inner.length_lt

theorem Statements.length_le : Statements input ts rest → rest.length ≤ input.length
  | .nil => Nat.le_refl _
  | .cons head tail => Nat.le_trans tail.length_le (Nat.le_of_lt head.length_lt)

theorem Braced.length_lt : Braced input b rest → rest.length < input.length
  | .mk inner => by
      have := inner.length_le
      simp only [List.length_cons] at *
      omega

end

end Grammar

end TreeWalk
