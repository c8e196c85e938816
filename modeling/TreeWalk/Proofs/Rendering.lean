import TreeWalk.Proofs.Bare
import TreeWalk.Proofs.Completeness

/-! # Renderings of programs

A rendering writes a tree as tokens. It puts parentheses where the tree would be read differently
without them, may put any number of further ones around any expression, and may leave out the
semicolon of a statement where the next token could not be taken for a continuation.

Unlike the grammar, a rendering knows no layers: whether parentheses are needed is decided by the
expression and by the place at which it stands. Every rendering is read back as the tree that it
was made from.
-/

namespace TreeWalk

namespace Rendering

open Grammar (next followsStatement)

/-- Where an expression stands. -/
inductive Place where
  /-- Where any expression can stand: the value of a statement, a condition, an argument, the
      inside of parentheses. -/
  | anywhere
  | callee
  /-- Behind a unary operator. -/
  | operand
  | left (op : BinaryOp)
  | right (op : BinaryOp)

/-- Must the expression be in parentheses at the place? -/
def Place.wraps : Place → Expr → Bool
  | .callee, .unary _ _ _ => true
  | .callee, .binary _ _ _ _ => true
  | .operand, .binary _ _ _ _ => true
  | .left outer, .binary _ op _ _ => op.precedence.level < outer.precedence.level
  | .right outer, .binary _ op _ _ => op.precedence.level ≤ outer.precedence.level
  | _, _ => false

/-- The end of a statement: its semicolon, or nothing where the next token opens no parenthesis and
    is no minus. -/
inductive Ends : List TokenKind → List TokenKind → Prop where
  | semicolon : Ends (.semicolon :: rest) rest
  | omitted : next rest ≠ .leftParen → next rest ≠ .minus → Ends rest rest

mutual

/-- `Expression place input e rest`: the tokens of `input` before `rest` write `e` at the place. -/
inductive Expression : Place → List TokenKind → Expr → List TokenKind → Prop where
  | ident : Expression place (.ident name :: rest) (.ident span name) rest
  | int : Expression place (.int value :: rest) (.int span value) rest
  | trueLiteral : Expression place (.trueKeyword :: rest) (.bool span true) rest
  | falseLiteral : Expression place (.falseKeyword :: rest) (.bool span false) rest
  | unary (op : UnaryOp) (free : place.wraps (.unary span op operand) = false)
      (inner : Expression .operand input operand rest) :
      Expression place (op.token :: input) (.unary span op operand) rest
  | binary (op : BinaryOp) (free : place.wraps (.binary span op left right) = false)
      (first : Expression (.left op) input left (op.token :: middle))
      (second : Expression (.right op) middle right rest) :
      Expression place input (.binary span op left right) rest
  | cond (test : Expression .anywhere input condition (.rightParen :: middle))
      (branch : Braced middle consequence rest) :
      Expression place (.ifKeyword :: .leftParen :: input)
        (.cond span condition consequence none) rest
  | condElse (test : Expression .anywhere input condition (.rightParen :: middle))
      (branch : Braced middle consequence (.elseKeyword :: last))
      (other : Braced last alternative rest) :
      Expression place (.ifKeyword :: .leftParen :: input)
        (.cond span condition consequence (some alternative)) rest
  | fn (names : Grammar.Params input params middle) (code : Braced middle body rest) :
      Expression place (.fnKeyword :: .leftParen :: input) (.fn span literalSpan params body) rest
  | call (head : Expression .callee input callee (.leftParen :: middle))
      (list : Arguments middle args rest) : Expression place input (.call span callee args) rest
  /-- Parentheses, needed or not. -/
  | group (inner : Expression .anywhere input e (.rightParen :: rest)) :
      Expression place (.leftParen :: input) e rest

inductive Arguments : List TokenKind → List Expr → List TokenKind → Prop where
  | empty : Arguments (.rightParen :: rest) [] rest
  | items (list : Items input args rest) : Arguments input args rest

inductive Items : List TokenKind → List Expr → List TokenKind → Prop where
  | last (item : Expression .anywhere input arg (.rightParen :: rest)) : Items input [arg] rest
  | cons (item : Expression .anywhere input arg (.comma :: middle)) (more : Items middle args rest) :
      Items input (arg :: args) rest

inductive Statement : List TokenKind → Stmt → List TokenKind → Prop where
  | bind (inner : Expression .anywhere input value middle) (ends : Ends middle rest) :
      Statement (.letKeyword :: .ident name :: .assign :: input) (.bind span name value) rest
  | ret (inner : Expression .anywhere input value middle) (ends : Ends middle rest) :
      Statement (.returnKeyword :: input) (.ret span (some value)) rest
  | retNothing (ends : Grammar.BareEnds input rest) :
      Statement (.returnKeyword :: input) (.ret span none) rest
  | expr (inner : Expression .anywhere input value middle) (ends : Ends middle rest) :
      Statement input (.expr span value) rest

inductive Statements : List TokenKind → List Stmt → List TokenKind → Prop where
  | nil : Statements rest [] rest
  | cons (head : Statement input t middle) (tail : Statements middle ts rest) :
      Statements input (t :: ts) rest

inductive Braced : List TokenKind → Block → List TokenKind → Prop where
  | mk (inner : Statements input statements (.rightBrace :: rest)) :
      Braced (.leftBrace :: input) (.mk span statements) rest

end

/-- The tokens write the program. -/
def Renders (input : List TokenKind) (p : Program) : Prop := Statements input p.statements []

/-- The layers of the grammar that a place takes expressions from. -/
def Place.Takes : Place → Precedence → Prop
  | .anywhere, _ => True
  | .callee, layer => layer = .call
  | .operand, layer => Precedence.unary.level ≤ layer.level
  | .left op, layer => op.precedence.level ≤ layer.level
  | .right op, layer => op.precedence < layer

def Derived (place : Place) (input : List TokenKind) (e : Expr) (rest : List TokenKind) : Prop :=
  ∃ layer, place.Takes layer ∧ Grammar.Expression layer input e rest

theorem Place.takes_call (place : Place) : place.Takes .call := by
  cases place with
  | anywhere => trivial
  | callee => rfl
  | operand => exact Nat.le_succ _
  | left op => exact Nat.le_of_lt op.precedence_lt_call
  | right op => exact op.precedence_lt_call

theorem Place.takes_unary {place : Place} {inner : Expr}
    (free : place.wraps (.unary span op inner) = false) : place.Takes .unary := by
  cases place with
  | anywhere => trivial
  | callee => cases free
  | operand => exact Nat.le_refl _
  | left outer => exact Nat.le_of_lt outer.precedence_level.2
  | right outer => exact outer.precedence_level.2

theorem Place.takes_binary {place : Place} {first second : Expr}
    (free : place.wraps (.binary span op first second) = false) : place.Takes op.precedence := by
  cases place with
  | anywhere => trivial
  | callee | operand => cases free
  | left outer => exact Nat.le_of_not_lt (of_decide_eq_false free)
  | right outer => exact Nat.lt_of_not_le (of_decide_eq_false free)

theorem Derived.loosest (derived : Derived place input e rest) :
    Grammar.Expression .lowest input e rest := by
  obtain ⟨layer, _, inner⟩ := derived
  exact inner.down (Nat.not_lt_zero _)

theorem derived_of_call (inner : Grammar.Expression .call input e rest) :
    Derived place input e rest :=
  ⟨.call, place.takes_call, inner⟩

theorem derived_group (inner : Derived .anywhere input e (.rightParen :: rest)) :
    Derived place (.leftParen :: input) e rest := by
  have grouped : Grammar.Expression .call (.leftParen :: input) (e.withSpan e.span) rest :=
    .group inner.loosest
  rw [Expr.withSpan_span] at grouped
  exact derived_of_call grouped

theorem derived_call (head : Derived .callee input callee (.leftParen :: middle))
    (list : Grammar.Arguments middle args rest) :
    Derived place input (.call span callee args) rest := by
  obtain ⟨layer, rfl, inner⟩ := head
  exact derived_of_call (.call inner list)

theorem derived_unary (free : place.wraps (.unary span op operand) = false)
    (behind : Derived .operand input operand rest) :
    Derived place (op.token :: input) (.unary span op operand) rest := by
  obtain ⟨layer, takes, inner⟩ := behind
  exact ⟨.unary, Place.takes_unary free, .unary op (inner.down (Nat.not_lt.mpr takes))⟩

theorem derived_binary (free : place.wraps (.binary span op left right) = false)
    (first : Derived (.left op) input left (op.token :: middle))
    (second : Derived (.right op) middle right rest) :
    Derived place input (.binary span op left right) rest := by
  obtain ⟨layer, takes, derivedLeft⟩ := first
  obtain ⟨tighter, above, derivedRight⟩ := second
  refine ⟨op.precedence, Place.takes_binary free, ?_⟩
  exact .binary op (derivedLeft.down (Nat.not_lt.mpr takes)) derivedRight above

/-- Of the tokens that can follow a statement, only the parenthesis and the minus could be taken for
    a continuation of it. -/
theorem Ends.toGrammar (ends : Ends input rest) (follows : followsStatement (next rest) = true) :
    Grammar.Ends input rest := by
  cases ends with
  | semicolon => exact .semicolon
  | omitted noParen noMinus =>
      refine .omitted noParen ?_
      cases here : next input with
      | minus => exact absurd here noMinus
      | plus | star | slash | less | greater | equal | notEqual =>
          rw [here] at follows
          cases follows
      | _ => rfl

mutual

theorem Expression.derived : Expression place input e rest → Derived place input e rest
  | .ident => derived_of_call .ident
  | .int => derived_of_call .int
  | .trueLiteral => derived_of_call .trueLiteral
  | .falseLiteral => derived_of_call .falseLiteral
  | .unary _ free inner => derived_unary free inner.derived
  | .binary _ free first second => derived_binary free first.derived second.derived
  | .cond test branch => derived_of_call (.cond test.derived.loosest branch.derived)
  | .condElse test branch other =>
      derived_of_call (.condElse test.derived.loosest branch.derived other.derived)
  | .fn names code => derived_of_call (.fn names code.derived)
  | .call head list => derived_call head.derived list.derived
  | .group inner => derived_group inner.derived

theorem Arguments.derived : Arguments input args rest → Grammar.Arguments input args rest
  | .empty => .empty
  | .items list => .items list.derived

theorem Items.derived : Items input args rest → Grammar.Items input args rest
  | .last item => .last item.derived.loosest
  | .cons item more => .cons item.derived.loosest more.derived

theorem Statement.derived : Statement input t rest → followsStatement (next rest) = true →
    Grammar.Statement input t rest
  | .bind inner ends, follows => .bind inner.derived.loosest (ends.toGrammar follows)
  | .ret inner ends, follows => .ret inner.derived.loosest (ends.toGrammar follows)
  | .retNothing ends, _ => .retNothing ends
  | .expr inner ends, follows => .expr inner.derived.loosest (ends.toGrammar follows)

theorem Statements.derived : Statements input ts rest → followsStatement (next rest) = true →
    Grammar.Statements input ts rest
  | .nil, _ => .nil
  | .cons head tail, follows =>
      -- What follows the first statement is settled by the derivation of the others.
      have others := tail.derived follows
      .cons (head.derived (others.starts follows)) others

theorem Braced.derived : Braced input b rest → Grammar.Braced input b rest
  | .mk inner => .mk (inner.derived rfl)

end

theorem Renders.derives (rendering : Renders input p) : Grammar.Derives input p :=
  Statements.derived rendering rfl

end Rendering

/-- Every rendering of a program is read back as that program. -/
theorem parseTokens_of_rendering {ts : List Token} {p : Program} (stop : Span)
    (noEnd : ∀ t ∈ ts, t.kind ≠ .endOfInput) (rendering : Rendering.Renders (ts.map Token.kind) p) :
    ∃ q, parseTokens (ts ++ [⟨.endOfInput, stop⟩]) = .ok q ∧ q.bare = p.bare :=
  exists_parseTokens_of_derives stop noEnd rendering.derives

/-- `let f = fn(a) { return -(a - 1) } f(2) * ((3 + 4))`, with needed and redundant parentheses and
    without a single semicolon. -/
theorem parseTokens_of_rendering_product :
    ∃ q, parseTokens
        ([.letKeyword, .ident "f", .assign, .fnKeyword, .leftParen, .ident "a", .rightParen,
            .leftBrace, .returnKeyword, .minus, .leftParen, .ident "a", .minus, .int 1, .rightParen,
            .rightBrace, .ident "f", .leftParen, .int 2, .rightParen, .star, .leftParen, .leftParen,
            .int 3, .plus, .int 4, .rightParen, .rightParen].map (Token.mk · .zero) ++
          [⟨.endOfInput, .zero⟩]) = .ok q ∧
      q.bare = Program.bare ⟨[
        .bind .zero "f" (.fn .zero .zero ["a"] (.mk .zero [
          .ret .zero (some (.unary .zero .neg
            (.binary .zero .sub (.ident .zero "a") (.int .zero 1))))])),
        .expr .zero (.binary .zero .mul (.call .zero (.ident .zero "f") [.int .zero 2])
          (.binary .zero .add (.int .zero 3) (.int .zero 4)))]⟩ := by
  apply parseTokens_of_rendering
  · decide
  · exact .cons
      (.bind
        (.fn (.items .last)
          (.mk (.cons
            (.ret (.unary .neg rfl (.group (.binary .sub rfl .ident .int)))
              (.omitted (by decide) (by decide)))
            .nil)))
        (.omitted (by decide) (by decide)))
      (.cons
        (.expr
          (.binary .mul rfl (.call .ident (.items (.last .int)))
            (.group (.group (.binary .add rfl .int .int))))
          (.omitted (by decide) (by decide)))
        .nil)

end TreeWalk
