import TreeWalk.Command.Source
import TreeWalk.Proofs.ArithmeticText
import TreeWalk.Proofs.Locations
import TreeWalk.Proofs.Walk

/-! # Running arithmetic

A program that consists of arithmetic is run as if it were worked out over the integers, operands
before operators and from left to right. As long as no divisor is zero and every number on the way
is a 64-bit integer, the result is printed. Otherwise the first operation that has no result is
reported, where it is written.
-/

namespace TreeWalk

open Lexer

/-- The exact result. Division rounds towards zero. -/
def ArithmeticOp.exact (op : ArithmeticOp) (a b : Int) : Int :=
  match op with
  | .add => a + b
  | .sub => a - b
  | .mul => a * b
  | .div => a.tdiv b

def ArithmeticOp.name : ArithmeticOp → String
  | .add => "addition"
  | .sub => "subtraction"
  | .mul => "multiplication"
  | .div => "division"

/-- The number is a 64-bit integer. -/
def InRange (n : Int) : Prop := -9223372036854775808 ≤ n ∧ n ≤ 9223372036854775807

instance (n : Int) : Decidable (InRange n) := inferInstanceAs (Decidable (_ ∧ _))

/-- Why the operation has no result, if this is the exact one. -/
def overflow? (operation : String) (exact : Int) : Option Cause :=
  if InRange exact then none else some (.integerOverflow operation)

theorem overflow?_eq_none_iff {operation : String} {exact : Int} :
    overflow? operation exact = none ↔ InRange exact := by
  simp [overflow?]

/-- Why the operator has no result on these operands. -/
def ArithmeticOp.failure? (op : ArithmeticOp) (a b : Int) : Option Cause :=
  if op = .div ∧ b = 0 then some .divisionByZero else overflow? op.name (op.exact a b)

theorem ArithmeticOp.inRange_of_failure? {op : ArithmeticOp} {a b : Int}
    (none : op.failure? a b = none) : InRange (op.exact a b) := by
  rw [failure?] at none
  split at none
  · cases none
  · exact overflow?_eq_none_iff.mp none

namespace Arithmetic

/-- The number that arithmetic over the integers comes to. -/
def exact : Arithmetic → Int
  | literal value _ => value.toInt
  | negation operand => -operand.exact
  | operation op left right => op.exact left.exact right.exact

/-- Why the outermost operation has no result, if its operands have one. -/
def failure? : Arithmetic → Option Cause
  | literal _ _ => none
  | negation operand => overflow? "negation" (-operand.exact)
  | operation op left right => op.failure? left.exact right.exact

/-- All parts of arithmetic that is written from `start` on, with the characters they are written
    with: operands before operators, from left to right. -/
def postorder (start : Nat) : Arithmetic → List (Span × Arithmetic)
  | literal value natural => [((literal value natural).spanFrom start, literal value natural)]
  | negation operand =>
      operand.postorder (start + 2) ++ [((negation operand).spanFrom start, negation operand)]
  | operation op left right =>
      left.postorder (start + 1) ++ right.postorder (start + 1 + left.width + 3) ++
        [((operation op left right).spanFrom start, operation op left right)]

/-- The first part in this order that has no result: where it is written, and why. -/
def firstFailure? (start : Nat) (t : Arithmetic) : Option (Span × Cause) :=
  (t.postorder start).findSome? fun (span, part) => part.failure?.map (span, ·)

/-- Every part is listed with the place where it is written. -/
theorem exists_of_mem_postorder {t part : Arithmetic} {start : Nat} {span : Span}
    (member : (span, part) ∈ t.postorder start) :
    ∃ before after, t.chars = before ++ (part.chars ++ after) ∧
      span = part.spanFrom (start + before.length) := by
  induction t generalizing start with
  | literal value natural =>
      cases List.mem_singleton.mp member
      exact ⟨[], [], by simp, rfl⟩
  | negation operand ih =>
      rcases List.mem_append.mp member with inside | here
      · obtain ⟨before, after, split, rfl⟩ := ih inside
        refine ⟨'(' :: '-' :: before, after ++ [')'], by simp [chars_negation, split], ?_⟩
        simp only [List.length_cons]
        congr 1
        omega
      · cases List.mem_singleton.mp here
        exact ⟨[], [], by simp, rfl⟩
  | operation op left right leftHolds rightHolds =>
      rcases List.mem_append.mp member with inside | here
      · rcases List.mem_append.mp inside with inLeft | inRight
        · obtain ⟨before, after, split, rfl⟩ := leftHolds inLeft
          refine ⟨'(' :: before, after ++ ' ' :: op.symbol :: ' ' :: (right.chars ++ [')']),
            by simp [chars_operation, split], ?_⟩
          simp only [List.length_cons]
          congr 1
          omega
        · obtain ⟨before, after, split, rfl⟩ := rightHolds inRight
          refine ⟨'(' :: (left.chars ++ ' ' :: op.symbol :: ' ' :: before), after ++ [')'],
            by simp [chars_operation, split], ?_⟩
          simp only [List.length_cons, List.length_append, width]
          congr 1
          omega
      · cases List.mem_singleton.mp here
        exact ⟨[], [], by simp, rfl⟩

/-- The failure of the outermost operation alone, at its place. -/
def ownFailure? (start : Nat) (t : Arithmetic) : Option (Span × Cause) :=
  t.failure?.map (t.spanFrom start, ·)

theorem firstFailure?_negation (start : Nat) (operand : Arithmetic) :
    (negation operand).firstFailure? start =
      (operand.firstFailure? (start + 2)).or ((negation operand).ownFailure? start) := by
  simp only [firstFailure?, postorder, List.findSome?_append, List.findSome?_singleton]
  rfl

theorem firstFailure?_operation (start : Nat) (op : ArithmeticOp) (left right : Arithmetic) :
    (operation op left right).firstFailure? start =
      (left.firstFailure? (start + 1)).or ((right.firstFailure? (start + 1 + left.width + 3)).or
        ((operation op left right).ownFailure? start)) := by
  simp only [firstFailure?, postorder, List.findSome?_append, List.findSome?_singleton,
    Option.or_assoc]
  rfl

theorem ownFailure?_of_firstFailure? {t : Arithmetic} {start : Nat}
    (none : t.firstFailure? start = none) : t.ownFailure? start = .none := by
  cases t with
  | literal => rfl
  | negation operand =>
      rw [firstFailure?_negation] at none
      exact (Option.or_eq_none_iff.mp none).2
  | operation op left right =>
      rw [firstFailure?_operation] at none
      exact (Option.or_eq_none_iff.mp (Option.or_eq_none_iff.mp none).2).2

/-- Where no part fails, the whole comes to a 64-bit integer. -/
theorem inRange_of_firstFailure? {t : Arithmetic} {start : Nat}
    (none : t.firstFailure? start = none) : InRange t.exact := by
  have sound := Option.map_eq_none_iff.mp (ownFailure?_of_firstFailure? none)
  cases t with
  | literal value natural => exact ⟨value.minValue_le_toInt, value.toInt_le⟩
  | negation operand => exact overflow?_eq_none_iff.mp sound
  | operation op left right => exact ArithmeticOp.inRange_of_failure? sound

end Arithmetic

theorem toInt_ofInt_of_inRange {n : Int} (inRange : InRange n) : (Int64.ofInt n).toInt = n :=
  Int64.toInt_ofInt_of_le inRange.1 (Int.lt_add_one_iff.mpr inRange.2)

/-- Give a number, or fail at a place in the text. -/
def Run.settle (first : Option (Span × Cause)) (n : Int) : Run Value :=
  match first with
  | none => pure (.int (Int64.ofInt n))
  | some (span, cause) => fail { cause } span

namespace Run

variable {n : Int} {next : Value → Run Value}

theorem plainly_settle_none : plainly (settle none n) next = next (.int (Int64.ofInt n)) := by
  funext m
  exact plainly_plain rfl rfl

theorem plainly_settle_some (failure : Span × Cause) (k : Int) :
    plainly (settle (some failure) n) next = settle (some failure) k := by
  funext m
  exact plainly_signal rfl rfl

theorem operator_checked (operation : String) (span : Span) :
    operator (checked operation n) span = settle ((overflow? operation n).map (span, ·)) n := by
  have same : (Int64.minValue.toInt ≤ n ∧ n ≤ Int64.maxValue.toInt) = InRange n := rfl
  simp only [checked, overflow?, same]
  split <;> rfl

theorem operator_onInts (op : ArithmeticOp) {a b : Int} (left : InRange a) (right : InRange b)
    (span : Span) :
    operator (op.toBinary.onInts (Int64.ofInt a) (Int64.ofInt b)) span =
      settle ((op.failure? a b).map (span, ·)) (op.exact a b) := by
  cases op with
  | add | sub | mul =>
      simp only [ArithmeticOp.toBinary, BinaryOp.onInts, toInt_ofInt_of_inRange left,
        toInt_ofInt_of_inRange right]
      exact operator_checked _ span
  | div =>
      simp only [ArithmeticOp.toBinary, BinaryOp.onInts, toInt_ofInt_of_inRange left,
        toInt_ofInt_of_inRange right]
      by_cases zero : b = 0
      · simp only [ArithmeticOp.failure?, zero, if_true, and_self]
        rfl
      · simp only [ArithmeticOp.failure?, zero, if_false, and_false]
        exact operator_checked _ span

end Run

namespace Arithmetic

open Run

/-- Evaluation comes to the exact number, or fails as the first part does that fails. -/
theorem eval_placed (call : Call) (scope : ScopeId) (t : Arithmetic) (start : Nat) :
    (t.placed start).eval call scope = settle (t.firstFailure? start) t.exact := by
  induction t generalizing start with
  | literal value natural =>
      change pure (.int value) = settle none value.toInt
      rw [settle, Int64.ofInt_toInt]
  | negation operand ih =>
      rw [placed, Expr.eval, ih, firstFailure?_negation]
      cases first : operand.firstFailure? (start + 2) with
      | some failure => exact plainly_settle_some failure _
      | none =>
          have inRange := inRange_of_firstFailure? first
          rw [plainly_settle_none, Option.none_or]
          simp only [UnaryOp.operate, toInt_ofInt_of_inRange inRange]
          exact operator_checked "negation" _
  | operation op left right leftHolds rightHolds =>
      rw [placed, Expr.eval, leftHolds, rightHolds, firstFailure?_operation]
      cases first : left.firstFailure? (start + 1) with
      | some failure => exact plainly_settle_some failure _
      | none =>
          rw [plainly_settle_none, Option.none_or]
          cases second : right.firstFailure? (start + 1 + left.width + 3) with
          | some failure => exact plainly_settle_some failure _
          | none =>
              rw [plainly_settle_none, Option.none_or]
              exact operator_onInts op (inRange_of_firstFailure? first)
                (inRange_of_firstFailure? second) _

theorem evaluate_placed (m : Machine) (limit : Option Nat) (scope : ScopeId) (span : Span)
    (t : Arithmetic) (start : Nat) :
    (m.evaluate limit (.program ⟨[.expr span (t.placed start)]⟩) scope).1 =
      match t.firstFailure? start with
      | none => .int (Int64.ofInt t.exact)
      | some (span, cause) => .error m.nextCell { cause, span := some span } := by
  simp only [Machine.evaluate, Machine.finish, Node.eval, Stmt.evalAll, Stmt.eval, eval_placed]
  cases t.firstFailure? start <;> rfl

theorem endsLine_of_isPrintableAscii {c : Char} (printable : isPrintableAscii c = true)
    (rest : List Char) : Location.endsLine c rest = false := by
  unfold Location.endsLine
  split
  case h_8 => rfl
  all_goals cases printable

/-- In a text without line ends a character has the column of its number. -/
theorem lineColumn_of_isPrintableAscii {text : List Char}
    (printable : text.all isPrintableAscii = true) (target offset line lineStart : Nat) :
    Location.lineColumn target offset line lineStart text = (line, target + 1 - lineStart) := by
  induction text generalizing offset with
  | nil => rfl
  | cons c rest ih =>
      rw [List.all_cons, Bool.and_eq_true] at printable
      rw [Location.lineColumn, endsLine_of_isPrintableAscii printable.1, Bool.false_and,
        if_neg Bool.false_ne_true, ih printable.2, ite_self]

theorem exists_chars_eq_cons (t : Arithmetic) : ∃ c rest, t.chars = c :: rest := by
  cases t with
  | literal value natural =>
      obtain ⟨c, rest, written, -⟩ := exists_of_natural natural
      exact ⟨c, rest, by rw [chars_literal, written]⟩
  | negation operand => exact ⟨_, _, chars_negation operand⟩
  | operation op left right => exact ⟨_, _, chars_operation op left right⟩

/-- A message about a part names the column where the part begins. -/
theorem ofMessage_part {t part : Arithmetic} {span : Span} (member : (span, part) ∈ t.postorder 0)
    (name message : String) :
    Report.ofMessage name t.text message (some span) =
      .pointed message (some ⟨name, 1, span.start + 1⟩) := by
  obtain ⟨before, after, split, rfl⟩ := exists_of_mem_postorder member
  obtain ⟨c, rest, first⟩ := part.exists_chars_eq_cons
  have text : t.text.toList = before ++ c :: (rest ++ after) := by
    rw [← List.cons_append, ← first]
    exact split
  have single : byteSize before = before.length :=
    byteSize_of_isPrintableAscii fun d inside =>
      isPrintableAscii_of_mem (split ▸ List.mem_append_left _ inside)
  have size : t.text.utf8ByteSize = t.text.toList.length := t.utf8ByteSize_text
  have inside := size_of_split text
  rw [spanFrom, Nat.zero_add]
  refine (ofMessage_eq_pointed_iff text single.symm).mpr ⟨?_, ?_, ?_⟩
  · exact Nat.le_of_lt inside.2
  · rw [size]
    exact Nat.le_succ_of_le (Nat.min_le_right _ _)
  · exact lineColumn_of_isPrintableAscii t.all_isPrintableAscii _ 0 1 0

end Arithmetic

/-- A program that is the canonical text of arithmetic prints the exact result, or reports the first
    part that has none, at the column where that part begins. -/
theorem runSource_arithmetic (name : String) (limit : Option Nat) (t : Arithmetic)
    (fits : t.text.utf8ByteSize ≤ Span.maxOffset) :
    runSource name t.text limit =
      match t.firstFailure? 0 with
      | none => (.success, { stdout := toString t.exact ++ "\n" })
      | some (span, cause) =>
          (.failed, { reports := [.pointed cause.message (some ⟨name, 1, span.start + 1⟩)] }) := by
  rw [runSource, t.parse_text fits]
  simp only [Arithmetic.evaluate_placed]
  cases first : t.firstFailure? 0 with
  | none =>
      have inRange := Arithmetic.inRange_of_firstFailure? first
      simp only [reportValue, Value.inspect, intText, toInt_ofInt_of_inRange inRange]
  | some failure =>
      obtain ⟨span, cause⟩ := failure
      obtain ⟨⟨place, part⟩, member, raised⟩ := List.exists_of_findSome?_eq_some first
      obtain ⟨_, _, same⟩ := Option.map_eq_some_iff.mp raised
      cases same
      simp only [reportValue, Report.ofFailure]
      rw [Arithmetic.ofMessage_part member]

/-- The least 64-bit integer cannot be written, but comes out of a subtraction. Its quotient by `-1`
    is the first part without a result, in front of a division by zero. -/
theorem runSource_arithmetic_least : ∃ t : Arithmetic,
    t.text = "((((-9223372036854775807) - 1) / (-1)) + (1 / 0))" ∧
    runSource "main.mk" t.text none = (.failed,
      { reports := [.pointed "integer overflow in division" (some ⟨"main.mk", 1, 2⟩)] }) := by
  let one : Arithmetic := .literal 1 (by decide)
  let greatest : Arithmetic := .literal 9223372036854775807 (by decide)
  let least : Arithmetic := .operation .sub (.negation greatest) one
  let t : Arithmetic := .operation .add (.operation .div least (.negation one))
    (.operation .div one (.literal 0 (by decide)))
  have text : t.text = "((((-9223372036854775807) - 1) / (-1)) + (1 / 0))" := by decide +kernel
  have first : t.firstFailure? 0 = some (⟨1, 38⟩, .integerOverflow "division") := by
    decide +kernel
  refine ⟨t, text, ?_⟩
  rw [runSource_arithmetic "main.mk" none t (by rw [text]; decide +kernel), first]
  rfl

end TreeWalk
