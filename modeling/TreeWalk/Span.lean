/-! # Source spans

A span is a half-open range of byte offsets into a source text. Tokens, tree nodes and failures
all carry one. Offsets are 32-bit quantities: moving a span never goes past `Span.maxOffset`, and
a range that reaches further is refused.
-/

namespace TreeWalk

/-- A half-open range `start..stop` of byte offsets. Spans built by hand may be reversed. -/
structure Span where
  /-- Offset of the first byte. -/
  start : Nat
  /-- Offset just behind the last byte. -/
  stop : Nat
  deriving DecidableEq, Repr, Inhabited

namespace Span

/-- The greatest offset that a span can hold. -/
def maxOffset : Nat := 4294967295

/-- The span of nodes that stand for no text, and of the place before the first token. -/
def zero : Span := ⟨0, 0⟩

/-- Neither end is behind the other: the span covers no byte. -/
def isEmpty (s : Span) : Bool := s.start == s.stop

/-- The number of bytes covered, unless the span is reversed. -/
def length? (s : Span) : Option Nat :=
  if s.start ≤ s.stop then some (s.stop - s.start) else none

/-- The least span that covers both. -/
def merge (a b : Span) : Span := ⟨min a.start b.start, max a.stop b.stop⟩

/-- The span moved `offset` bytes further, each end stopping at `maxOffset`. -/
def shifted (s : Span) (offset : Nat) : Span :=
  ⟨min (s.start + offset) maxOffset, min (s.stop + offset) maxOffset⟩

/-- The text `start..stop`. -/
def text (s : Span) : String := toString s.start ++ ".." ++ toString s.stop

inductive Fault where
  /-- The first offset is too large. -/
  | startTooLarge (offset : Nat)
  /-- The first offset fits and the second is too large. -/
  | stopTooLarge (offset : Nat)
  deriving DecidableEq, Repr

def Fault.message : Fault → String
  | .startTooLarge offset =>
      "span start " ++ toString offset ++ " exceeds u32::MAX (" ++ toString maxOffset ++ ")"
  | .stopTooLarge offset =>
      "span end " ++ toString offset ++ " exceeds u32::MAX (" ++ toString maxOffset ++ ")"

/-- A span from two offsets of any size. Where both are too large, the first one is reported. -/
def ofRange (start stop : Nat) : Except Fault Span :=
  if maxOffset < start then .error (.startTooLarge start)
  else if maxOffset < stop then .error (.stopTooLarge stop)
  else .ok ⟨start, stop⟩

end Span

end TreeWalk
