import TreeWalk.SyntaxFault

/-! # Cursors

A cursor is a place in a token sequence that ends with the marker `endOfInput`. It looks at one
token, knows the span of the token before it, and never moves past the first end marker.
-/

namespace TreeWalk

structure Cursor where
  /-- How many tokens have been consumed. -/
  position : Nat
  /-- The span of the token consumed last, or `Span.zero` at the start. -/
  previous : Span
  /-- The token at this place. -/
  current : Token
  /-- The tokens behind it. -/
  rest : List Token
  deriving Repr

namespace Cursor

def ofTokens? : List Token → Option Cursor
  | [] => none
  | t :: ts => some ⟨0, .zero, t, ts⟩

def atEnd (c : Cursor) : Bool := c.current.isEnd

/-- Is the current token of the class of `kind`? -/
def check (c : Cursor) (kind : TokenKind) : Bool := c.current.kind.sameClass kind

/-- Consume the current token. An end marker, or the last token, is never consumed. -/
def advance (c : Cursor) : Cursor :=
  match c.rest with
  | [] => c
  | t :: ts => if c.atEnd then c else ⟨c.position + 1, c.current.span, t, ts⟩

/-- Consume the current token if it is of the class of `kind`, and say whether it is. -/
def eat (c : Cursor) (kind : TokenKind) : Bool × Cursor :=
  if c.check kind then (true, c.advance) else (false, c)

/-- Consume a token of the class of `kind` and give its span. -/
def expect (c : Cursor) (kind : TokenKind) (construct : Construct) :
    Except SyntaxFault (Span × Cursor) :=
  if c.check kind then .ok (c.current.span, c.advance)
  else .error (.unexpected (.token kind) c.current construct)

def expectName (c : Cursor) (construct : Construct) :
    Except SyntaxFault (String × Span × Cursor) :=
  match c.current.kind with
  | .ident name => .ok (name, c.current.span, c.advance)
  | _ => .error (.unexpected .name c.current construct)

/-- The cursor just behind the first semicolon at or after `current`, or on the first end marker. -/
def recoverFrom (position : Nat) (previous : Span) (current : Token) : List Token → Cursor
  | [] => ⟨position, previous, current, []⟩
  | t :: ts =>
      if current.isEnd then ⟨position, previous, current, t :: ts⟩
      else if current.kind = .semicolon then ⟨position + 1, current.span, t, ts⟩
      else recoverFrom (position + 1) current.span t ts

/-- Skip the rest of a broken statement: go behind the next semicolon, or to the end. -/
def recover (c : Cursor) : Cursor := recoverFrom c.position c.previous c.current c.rest

end Cursor

end TreeWalk
