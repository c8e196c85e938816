import TreeWalk.Token

/-! # Reading tokens

A source text is cut into lexemes by longest match: runs of blanks and line comments, which are
skipped, runs of digits, words, and symbols. Every lexeme that is no token is a fault, and all
faults of a text are collected. A text with a fault has no tokens.
-/

namespace TreeWalk

/-- Why a lexeme is no token. -/
inductive LexicalCause where
  /-- The character starts no token. -/
  | unexpectedChar (c : Char)
  /-- The digits denote a number above `2 ^ 63 - 1`. -/
  | integerOutOfRange (digits : String)
  /-- The text has more bytes than a span can address. -/
  | sourceTooLarge (bytes : Nat)
  deriving DecidableEq, Repr

def LexicalCause.message : LexicalCause → String
  | .unexpectedChar c => "unexpected character " ++ TokenKind.marked c.toString
  | .integerOutOfRange digits =>
      "integer literal " ++ TokenKind.marked digits ++ " does not fit in a 64-bit signed integer"
  | .sourceTooLarge bytes => "source of " ++ toString bytes ++ " bytes is too large to lex"

/-- A lexeme that is no token, and where it stands. -/
structure LexicalFault where
  cause : LexicalCause
  span : Span
  deriving DecidableEq, Repr

namespace Lexer

/-- The characters skipped between tokens: space, tab, both line ends and form feed. -/
def isBlank (c : Char) : Bool :=
  c == ' ' || c == '\t' || c == '\r' || c == '\n' || c == '\x0c'

/-- The characters that start a word: ASCII letters and the underscore. -/
def isWordStart (c : Char) : Bool := c.isAlpha || c == '_'

def isWordRest (c : Char) : Bool := isWordStart c || c.isDigit

inductive Shape where
  /-- Blanks, or a comment up to the end of its line. -/
  | skipped
  /-- Decimal digits. -/
  | number
  /-- A keyword or a name. -/
  | word
  /-- Operators, delimiters and whatever starts nothing else. -/
  | symbol
  deriving DecidableEq, Repr

/-- The shape of the lexeme that starts with `c`, and how many of the characters after `c` it takes:
    as many as possible. -/
def munch (c : Char) (rest : List Char) : Shape × Nat :=
  if isBlank c then (.skipped, (rest.takeWhile isBlank).length)
  else if c.isDigit then (.number, (rest.takeWhile Char.isDigit).length)
  else if isWordStart c then (.word, (rest.takeWhile isWordRest).length)
  else match c, rest with
    | '/', '/' :: _ => (.skipped, (rest.takeWhile (· ≠ '\n')).length)
    | '=', '=' :: _ => (.symbol, 1)
    | '!', '=' :: _ => (.symbol, 1)
    | _, _ => (.symbol, 0)

/-- The number that a run of decimal digits denotes. Leading zeros are allowed. -/
def decimal (digits : List Char) : Nat :=
  digits.foldl (fun value d => 10 * value + (d.toNat - '0'.toNat)) 0

/-- The keyword with this spelling, or else the name. -/
def wordKind (word : List Char) : TokenKind :=
  match word with
  | ['f', 'n'] => .fnKeyword
  | ['l', 'e', 't'] => .letKeyword
  | ['t', 'r', 'u', 'e'] => .trueKeyword
  | ['f', 'a', 'l', 's', 'e'] => .falseKeyword
  | ['i', 'f'] => .ifKeyword
  | ['e', 'l', 's', 'e'] => .elseKeyword
  | ['r', 'e', 't', 'u', 'r', 'n'] => .returnKeyword
  | _ => .ident (String.ofList word)

/-- The operator or delimiter with this spelling. -/
def symbolKind? (symbol : List Char) : Option TokenKind :=
  match symbol with
  | ['=', '='] => some .equal
  | ['!', '='] => some .notEqual
  | ['='] => some .assign
  | ['+'] => some .plus
  | ['-'] => some .minus
  | ['!'] => some .bang
  | ['*'] => some .star
  | ['/'] => some .slash
  | ['<'] => some .less
  | ['>'] => some .greater
  | [','] => some .comma
  | [';'] => some .semicolon
  | ['('] => some .leftParen
  | [')'] => some .rightParen
  | ['\x7b'] => some .leftBrace
  | ['\x7d'] => some .rightBrace
  | _ => none

/-- What the lexeme `c :: tail` of the given shape stands for: nothing if it is skipped, else a
    token or the cause of a fault. -/
def classify (shape : Shape) (c : Char) (tail : List Char) :
    Option (Except LexicalCause TokenKind) :=
  match shape with
  | .skipped => none
  | .number =>
      let value := decimal (c :: tail)
      if (value : Int) ≤ Int64.maxValue.toInt then some (.ok (.int (Int64.ofNat value)))
      else some (.error (.integerOutOfRange (String.ofList (c :: tail))))
  | .word => some (.ok (wordKind (c :: tail)))
  | .symbol =>
      match symbolKind? (c :: tail) with
      | some kind => some (.ok kind)
      | none => some (.error (.unexpectedChar c))

def byteSize : List Char → Nat
  | [] => 0
  | c :: cs => c.utf8Size + byteSize cs

structure Scan where
  tokens : Array Token := #[]
  faults : Array LexicalFault := #[]

def Scan.push (scan : Scan) (span : Span) : Option (Except LexicalCause TokenKind) → Scan
  | none => scan
  | some (.ok kind) => { scan with tokens := scan.tokens.push ⟨kind, span⟩ }
  | some (.error cause) => { scan with faults := scan.faults.push ⟨cause, span⟩ }

/-- Read the lexemes of a text whose first unread character stands at byte `offset`, after what has
    been `found` so far. The first `inside` characters belong to the lexeme read last. -/
def scanFrom (offset : Nat) (found : Scan) (inside : Nat) : List Char → Scan
  | [] => found
  | c :: rest =>
      match inside with
      | inside + 1 => scanFrom offset found inside rest
      | 0 =>
          let (shape, taken) := munch c rest
          let tail := rest.take taken
          let stop := offset + byteSize (c :: tail)
          scanFrom stop (found.push ⟨offset, stop⟩ (classify shape c tail)) taken rest

end Lexer

/-- The tokens of a source text, closed by the end marker, or all of its lexical faults. -/
def lex (source : String) : Except (List LexicalFault) (List Token) :=
  let size := source.utf8ByteSize
  if Span.maxOffset < size then .error [⟨.sourceTooLarge size, .zero⟩]
  else
    let scan := Lexer.scanFrom 0 {} 0 source.toList
    if scan.faults.isEmpty then .ok (scan.tokens.push ⟨.endOfInput, ⟨size, size⟩⟩).toList
    else .error scan.faults.toList

end TreeWalk
