/-! # Lines of bytes

Input arrives as bytes. A line reaches through its line feed, or to the end of the input, and is a
text if its bytes are UTF-8.
-/

namespace TreeWalk.Text

/-- Cut bytes behind each line feed. The second argument holds the bytes of the line being read,
    last byte first, and the third the lines before it, last line first. -/
def cutLines : List UInt8 → List UInt8 → List (List UInt8) → List (List UInt8)
  | [], [], lines => lines.reverse
  | [], line, lines => (line.reverse :: lines).reverse
  | b :: rest, line, lines =>
      if b = 10 then cutLines rest [] ((b :: line).reverse :: lines)
      else cutLines rest (b :: line) lines

/-- The text of some bytes, if they are UTF-8. -/
def decode? (bytes : List UInt8) : Option String := String.fromUTF8? ⟨bytes.toArray⟩

/-- The lines of an input, each with its line feed; none for a line that is not UTF-8. -/
def lines (input : ByteArray) : List (Option String) :=
  (cutLines input.toList [] []).map decode?

end TreeWalk.Text
