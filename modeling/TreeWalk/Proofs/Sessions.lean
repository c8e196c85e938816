import TreeWalk.Command.Session
import TreeWalk.Proofs.Blame
import TreeWalk.Proofs.Spans

/-! # Failures in a session

A session keeps every function that it has read within its history: the spans of all nodes of all
functions that any scope binds denote these nodes there, whatever lines have failed or been blank in
between. So the span of a failure denotes the expression that raised it, even if that was entered
lines ago.
-/

namespace TreeWalk

namespace Text

theorem flatten_cutLines (bytes line : List UInt8) (lines : List (List UInt8)) :
    (cutLines bytes line lines).flatten = lines.reverse.flatten ++ line.reverse ++ bytes := by
  induction bytes generalizing line lines with
  | nil => cases line <;> simp [cutLines]
  | cons b rest ih =>
      rw [cutLines]
      split
      · simp [ih]
      · simp [ih]

theorem length_toList_loop (bytes : ByteArray) (i : Nat) (read : List UInt8) :
    (ByteArray.toList.loop bytes i read).length = read.length + (bytes.size - i) := by
  fun_induction ByteArray.toList.loop bytes i read with
  | case1 i read inside ih =>
      rw [ih, List.length_cons]
      omega
  | case2 i read outside =>
      rw [List.length_reverse]
      omega

theorem size_of_decode? {bytes : List UInt8} {text : String} (decoded : decode? bytes = some text) :
    text.utf8ByteSize = bytes.length := by
  unfold decode? String.fromUTF8? at decoded
  split at decoded
  · cases decoded
    rfl
  · cases decoded

/-- The number of bytes of the lines that are texts. -/
def size : List (Option String) → Nat
  | [] => 0
  | line :: rest => line.elim 0 String.utf8ByteSize + size rest

theorem size_append (lines more : List (Option String)) :
    size (lines ++ more) = size lines + size more := by
  induction lines with
  | nil => exact (Nat.zero_add _).symm
  | cons line lines ih => rw [List.cons_append, size, size, ih, Nat.add_assoc]

theorem size_decode_le (lines : List (List UInt8)) :
    size (lines.map decode?) ≤ lines.flatten.length := by
  induction lines with
  | nil => exact Nat.le_refl _
  | cons bytes lines ih =>
      have first : (decode? bytes).elim 0 String.utf8ByteSize ≤ bytes.length := by
        cases decoded : decode? bytes with
        | none => exact Nat.zero_le _
        | some text => exact Nat.le_of_eq (size_of_decode? decoded)
      rw [List.map_cons, size, List.flatten_cons, List.length_append]
      exact Nat.add_le_add first ih

theorem size_lines_le (input : ByteArray) : size (lines input) ≤ input.size := by
  refine Nat.le_trans (size_decode_le _) ?_
  rw [flatten_cutLines]
  simp [ByteArray.toList, length_toList_loop]

end Text

namespace Session

/-- The session behind some lines, unless one of them quits or is no text. -/
def after (session : Session) : List (Option String) → Option Session
  | [] => some session
  | none :: _ => none
  | some line :: rest => (session.enter line).bind fun answered => answered.1.after rest

/-- What a line evaluates to, if it can be read. -/
def value? (session : Session) (line : String) : Option Value :=
  match parseAt line (min session.history.utf8ByteSize Span.maxOffset) with
  | .error _ => none
  | .ok program =>
      some (session.machine.evaluate session.limit (.program program) session.scope).1

theorem enter_cases {session : Session} {line : String} {answered : Session × Output}
    (entered : session.enter line = some answered) :
    answered = (session, {}) ∨ answered = session.evaluate line := by
  simp only [enter] at entered
  split at entered
  · cases entered
  split at entered
  · exact .inl (Option.some.inj entered).symm
  · exact .inr (Option.some.inj entered).symm

section Evaluation

variable {session : Session} {line : String}

theorem enter_of_words (noQuit : Text.trimmed line.toList ≠ [':', 'q', 'u', 'i', 't'])
    (words : Text.trimmed line.toList ≠ []) :
    session.enter line = some (session.evaluate line) := by
  simp only [enter, noQuit, words, if_false]

theorem evaluate_unread {faults : List SyntaxFault}
    (unread : parseAt line (min session.history.utf8ByteSize Span.maxOffset) = .error faults) :
    session.evaluate line = ({ session with history := session.history ++ line },
      (reportFaults historyName (session.history ++ line) faults).2) := by
  simp only [evaluate, unread]

theorem evaluate_read {p : Program}
    (parsed : parseAt line (min session.history.utf8ByteSize Span.maxOffset) = .ok p) :
    session.evaluate line =
      ({ session with
          history := session.history ++ line
          machine := (session.machine.evaluate session.limit (.program p) session.scope).2 },
        (reportValue historyName (session.history ++ line)
          (session.machine.evaluate session.limit (.program p) session.scope).1).2) := by
  simp only [evaluate, parsed]

/-- What a session reports for a line is what the line evaluates to. -/
theorem evaluate_of_value? {v : Value} (valued : session.value? line = some v) :
    (session.evaluate line).2 = (reportValue historyName (session.history ++ line) v).2 := by
  unfold value? at valued
  split at valued
  · cases valued
  · rename_i p parsed
    cases valued
    rw [evaluate_read parsed]

end Evaluation

def Known (history : String) (e : Expr) : Prop := (Stmt.expr e.span e).DenotedIn history

theorem Known.more {history : String} {e : Expr} (here : Known history e) (line : String) :
    Known (history ++ line) e :=
  Stmt.DenotedIn.more here line

/-- Between two lines no call is running, and all functions within reach are known. -/
structure Grounded (session : Session) : Prop where
  idle : session.machine.depth = 0
  binds : session.machine.Binds (Value.Grounded (Known session.history))

variable {session later : Session} {limit : Nat} {line : String}

theorem grounded_start (limit : Option Nat) : (start limit).Grounded where
  idle := rfl
  binds := by
    have empty : ({} : Machine).Binds (Value.Grounded (Known "")) := by
      intro scope s found
      simp at found
    exact empty.newScope none

theorem Grounded.behind (grounded : session.Grounded) (line : String) :
    session.machine.Binds (Value.Grounded (Known (session.history ++ line))) :=
  grounded.binds.imp fun _ => Value.Grounded.imp fun _ here => here.more line

theorem all_known {p : Program}
    (fits : session.history.utf8ByteSize + line.utf8ByteSize ≤ Span.maxOffset)
    (parsed : parseAt line (min session.history.utf8ByteSize Span.maxOffset) = .ok p) :
    Node.All (Known (session.history ++ line)) (.program p) := by
  rw [Nat.min_eq_left (by omega)] at parsed
  exact fun e within => denotedIn_of_parseAt fits parsed within rfl

/-- Every line keeps the session grounded. -/
theorem Grounded.enter {output : Output} (grounded : session.Grounded)
    (limited : session.limit = some limit)
    (fits : session.history.utf8ByteSize + line.utf8ByteSize ≤ Span.maxOffset)
    (entered : session.enter line = some (later, output)) :
    later.Grounded ∧ later.limit = some limit ∧
      later.history.utf8ByteSize ≤ session.history.utf8ByteSize + line.utf8ByteSize := by
  rcases enter_cases entered with same | same
  · cases same
    exact ⟨grounded, limited, Nat.le_add_right _ _⟩
  · obtain rfl : later = (session.evaluate line).1 := congrArg Prod.fst same
    have size : (session.history ++ line).utf8ByteSize ≤
        session.history.utf8ByteSize + line.utf8ByteSize := by
      exact Nat.le_of_eq String.utf8ByteSize_append
    cases parsed : parseAt line (min session.history.utf8ByteSize Span.maxOffset) with
    | error faults =>
        rw [evaluate_unread parsed]
        exact ⟨⟨grounded.idle, grounded.behind line⟩, limited, size⟩
    | ok p =>
        obtain ⟨-, idle, binds⟩ := evaluate_grounded limit session.scope grounded.idle
          (grounded.behind line) (all_known fits parsed)
        rw [← limited] at idle binds
        rw [evaluate_read parsed]
        exact ⟨⟨idle, binds⟩, limited, size⟩

theorem Grounded.after {lines : List (Option String)} (grounded : session.Grounded)
    (limited : session.limit = some limit)
    (fits : session.history.utf8ByteSize + Text.size lines ≤ Span.maxOffset)
    (entered : session.after lines = some later) :
    later.Grounded ∧ later.limit = some limit ∧
      later.history.utf8ByteSize ≤ session.history.utf8ByteSize + Text.size lines := by
  induction lines generalizing session with
  | nil =>
      cases entered
      exact ⟨grounded, limited, Nat.le_refl _⟩
  | cons first rest ih =>
      cases first with
      | none => cases entered
      | some line =>
          obtain ⟨⟨mid, output⟩, begun, entered⟩ := Option.bind_eq_some_iff.mp entered
          have total : Text.size (some line :: rest) = line.utf8ByteSize + Text.size rest := rfl
          obtain ⟨groundedMid, limitedMid, size⟩ := grounded.enter limited (by omega) begun
          obtain ⟨groundedLater, limitedLater, sizeLater⟩ :=
            ih groundedMid limitedMid (by omega) entered
          exact ⟨groundedLater, limitedLater, by omega⟩

theorem Grounded.value? {v : Value} (grounded : session.Grounded)
    (limited : session.limit = some limit)
    (fits : session.history.utf8ByteSize + line.utf8ByteSize ≤ Span.maxOffset)
    (valued : session.value? line = some v) : v.Grounded (Known (session.history ++ line)) := by
  unfold Session.value? at valued
  split at valued
  · cases valued
  · rename_i p parsed
    cases valued
    rw [limited]
    exact (evaluate_grounded limit session.scope grounded.idle (grounded.behind line)
      (all_known fits parsed)).1

/-- Whatever the lines before it, a line that fails under a limit points at the code that failed:
    the failure that is reported has a span, the span lies within the history, and the text there
    is read as an expression that raises such failures. -/
theorem failure_span_denotes_raiser {input : ByteArray} {before rest : List (Option String)}
    {cell : CellId} {failure : Failure} (small : input.size < UInt32.size)
    (lines : Text.lines input = before ++ some line :: rest)
    (entered : (start (some limit)).after before = some session)
    (failed : session.value? line = some (.error cell failure)) :
    (session.evaluate line).2 =
        { reports := [.ofFailure historyName (session.history ++ line) failure] } ∧
      ∃ span text e, failure.span = some span ∧
      span.start ≤ span.stop ∧ span.stop ≤ (session.history ++ line).utf8ByteSize ∧
      span.textIn? (session.history ++ line) = some text ∧
      parseAt text span.start = .ok ⟨[.expr span e]⟩ ∧ failure.cause.raisedBy e = true := by
  have total := Text.size_lines_le input
  rw [lines] at total
  have parts : Text.size (before ++ some line :: rest) =
      Text.size before + (line.utf8ByteSize + Text.size rest) :=
    Text.size_append before (some line :: rest)
  have limit32 : Span.maxOffset = UInt32.size - 1 := rfl
  have empty : (start (some limit)).history.utf8ByteSize = 0 := rfl
  obtain ⟨grounded, limited, size⟩ :=
    (grounded_start (some limit)).after rfl (by omega) entered
  obtain ⟨e, ⟨text, found, read⟩, pointed, raised⟩ := grounded.value? limited (by omega) failed
  obtain ⟨forward, inside⟩ := Span.textIn?_bounds found
  exact ⟨evaluate_of_value? failed, e.span, text, e, pointed, forward, inside, found, read, raised⟩

/-- The failure of `f(f)` points at `-a`, which was entered the line before. -/
theorem failure_span_denotes_raiser_earlier :
    ∃ session cell failure, (start (some 1)).after [some "let f=fn(a){-a}\n"] = some session ∧
      session.value? "f(f)" = some (.error cell failure) ∧ failure.span = some ⟨12, 14⟩ ∧
      ∃ text e, Span.textIn? ⟨12, 14⟩ (session.history ++ "f(f)") = some text ∧
        parseAt text 12 = .ok ⟨[.expr ⟨12, 14⟩ e]⟩ ∧ failure.cause.raisedBy e = true := by
  have lines : Text.lines "let f=fn(a){-a}\nf(f)".toUTF8 =
      [some "let f=fn(a){-a}\n"] ++ some "f(f)" :: [] := by decide +kernel
  have seen : (((start (some 1)).after [some "let f=fn(a){-a}\n"]).bind fun session =>
      (session.value? "f(f)").bind Value.failure?) =
      some (1, { cause := .unknownUnary .neg .function, span := some ⟨12, 14⟩ }) := by
    decide +kernel
  obtain ⟨session, entered, seen⟩ := Option.bind_eq_some_iff.mp seen
  obtain ⟨v, valued, seen⟩ := Option.bind_eq_some_iff.mp seen
  obtain rfl := Value.eq_error_of_failure? seen
  obtain ⟨-, span, text, e, pointed, -, -, found, read, raised⟩ :=
    failure_span_denotes_raiser (by decide +kernel) lines entered valued
  cases pointed
  exact ⟨session, 1, _, entered, valued, rfl, text, e, found, read, raised⟩

end Session

end TreeWalk
