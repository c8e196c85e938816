import TreeWalk.Value
import TreeWalk.SyntaxFault

/-! # Reports

What the user is told about a fault or a failure: the message and, if the fault has a place in the
text, the line and the column of its first character.
-/

namespace TreeWalk

/-- A place in a named text. Lines and columns count from `1`, columns in characters. -/
structure Location where
  name : String
  line : Nat
  column : Nat
  deriving DecidableEq, Repr

/-- The text `name:line:column`. -/
def Location.text (l : Location) : String :=
  l.name ++ ":" ++ toString l.line ++ ":" ++ toString l.column

namespace Location

/-- The characters that end a line. A carriage return before a line feed does not: the two end a
    line together. -/
def endsLine (c : Char) (rest : List Char) : Bool :=
  match c with
  | '\r' => rest.head? ≠ some '\n'
  | '\n' | '\x0b' | '\x0c' | '\u0085' | '\u2028' | '\u2029' => true
  | _ => false

/-- The line and the column of the character `target` of a text, if its first character has number
    `offset` and stands on line `line`, which starts at character `lineStart`. The end of the text
    belongs to its last line, and a line end at the very end opens no further line. -/
def lineColumn (target offset line lineStart : Nat) : List Char → Nat × Nat
  | [] => (line, target + 1 - lineStart)
  | c :: rest =>
      if offset = target then (line, target + 1 - lineStart)
      else if endsLine c rest && !rest.isEmpty then
        lineColumn target (offset + 1) (line + 1) (offset + 1) rest
      else lineColumn target (offset + 1) line lineStart rest

/-- The span with both ends moved into a text of `size` bytes. -/
def clamp (span : Span) (size : Nat) : Span :=
  let start := min span.start size
  ⟨start, max start (min span.stop size)⟩

/-- The location of a span in a text. The ends of the span, moved into the text by its size in
    bytes, count characters from there on, so the location comes too late behind characters of
    several bytes, and there is none where an end lies behind the last character. -/
def ofSpan? (name : String) (source : String) (span : Span) : Option Location :=
  let chars := source.toList
  let length := chars.length
  let place := clamp span source.utf8ByteSize
  if length = 0 ∨ length < place.start ∨ (place.start < place.stop ∧ length < place.stop - 1) then
    none
  else
    let (line, column) := lineColumn place.start 0 1 0 chars
    some ⟨name, line, column⟩

end Location

inductive Report where
  /-- A message about a span of a text, with its location if the text has one. -/
  | pointed (message : String) (location : Option Location)
  /-- A line that points nowhere. -/
  | line (text : String)
  deriving DecidableEq, Repr

namespace Report

def ofMessage (name source message : String) (span : Option Span) : Report :=
  match span with
  | none => .line ("error: " ++ message)
  | some span => .pointed message (Location.ofSpan? name source span)

def ofFault (name source : String) (fault : SyntaxFault) : Report :=
  ofMessage name source fault.message (some fault.span)

def ofFailure (name source : String) (failure : Failure) : Report :=
  ofMessage name source failure.cause.message failure.span

def text : Report → String
  | .line text => text ++ "\n"
  | .pointed message none => "Error: " ++ message ++ "\n"
  | .pointed message (some location) => "Error: " ++ message ++ "\n  at " ++ location.text ++ "\n"

end Report

end TreeWalk
