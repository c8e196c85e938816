import Mathlib.Data.List.Forall2
import TreeWalk.Proofs.Displacement
import TreeWalk.Proofs.InStep
import TreeWalk.Proofs.Sessions

/-! # Lines left out

A line that cannot be read joins the history, so whatever is read later stands further on and all
its spans differ. Nothing else comes of the line: the session goes on as if it had not been entered.
Every other line gets the same answer, with the same messages, and leaves the same names behind;
only the locations in reports are moved.
-/

namespace TreeWalk

open Lexer

/-- Both texts are read as programs that differ only in spans, or both have faults that look
    alike. -/
inductive SameReading (look : Span → Span) :
    (reading reading' : Except (List SyntaxFault) Program) → Prop where
  | program : p.bare = q.bare → SameReading look (.ok p) (.ok q)
  | faults : List.Forall₂ (SyntaxFault.Alike look) faults faults' →
      SameReading look (.error faults) (.error faults')

/-- Where a text stands matters only for its spans. -/
theorem parseAt_sameReading (source : String) (offset offset' : Nat) :
    SameReading (fun _ => .zero) (parseAt source offset) (parseAt source offset') := by
  cases parsed : parse source with
  | ok p =>
      rw [parseAt_of_parse offset parsed, parseAt_of_parse offset' parsed]
      exact .program (by rw [Program.bare_mapSpans, Program.bare_mapSpans])
  | error faults =>
      rw [parseAt_of_unread offset parsed, parseAt_of_unread offset' parsed]
      refine .faults ?_
      rw [List.forall₂_map_left_iff, List.forall₂_map_right_iff, List.forall₂_same]
      exact fun fault _ => ⟨rfl, rfl, rfl⟩

mutual

theorem Expr.write_mapSpans (f : Span → Span) (out : String) : (e : Expr) →
    (e.mapSpans f).write out = e.write out
  | .ident _ _ | .int _ _ | .bool _ _ => rfl
  | .unary _ _ operand => by simp only [Expr.mapSpans, Expr.write, operand.write_mapSpans]
  | .binary _ _ left right => by
      simp only [Expr.mapSpans, Expr.write, left.write_mapSpans, right.write_mapSpans]
  | .cond _ condition consequence none => by
      simp only [Expr.mapSpans, Expr.write, condition.write_mapSpans, consequence.write_mapSpans]
  | .cond _ condition consequence (some alternative) => by
      simp only [Expr.mapSpans, Expr.write, condition.write_mapSpans, consequence.write_mapSpans,
        alternative.write_mapSpans]
  | .fn _ _ _ body => by simp only [Expr.mapSpans, Expr.write, body.write_mapSpans]
  | .call _ callee args => by
      simp only [Expr.mapSpans, Expr.write, callee.write_mapSpans, Expr.writeArgs_mapSpans f _ args]

theorem Expr.writeArgs_mapSpans (f : Span → Span) (out : String) : (es : List Expr) →
    Expr.writeArgs out (Expr.mapSpansAll f es) = Expr.writeArgs out es
  | [] => rfl
  | e :: es => by
      simp only [Expr.mapSpansAll, Expr.writeArgs, e.write_mapSpans, Expr.writeMore_mapSpans f _ es]

theorem Expr.writeMore_mapSpans (f : Span → Span) (out : String) : (es : List Expr) →
    Expr.writeMore out (Expr.mapSpansAll f es) = Expr.writeMore out es
  | [] => rfl
  | e :: es => by
      simp only [Expr.mapSpansAll, Expr.writeMore, e.write_mapSpans, Expr.writeMore_mapSpans f _ es]

theorem Stmt.write_mapSpans (f : Span → Span) (out : String) : (t : Stmt) →
    (t.mapSpans f).write out = t.write out
  | .bind _ _ value => by simp only [Stmt.mapSpans, Stmt.write, value.write_mapSpans]
  | .ret _ none => rfl
  | .ret _ (some value) => by simp only [Stmt.mapSpans, Stmt.write, value.write_mapSpans]
  | .expr _ value => by simp only [Stmt.mapSpans, Stmt.write, value.write_mapSpans]

theorem Stmt.writeAll_mapSpans (f : Span → Span) (out : String) : (ts : List Stmt) →
    Stmt.writeAll out (Stmt.mapSpansAll f ts) = Stmt.writeAll out ts
  | [] => rfl
  | t :: ts => by
      simp only [Stmt.mapSpansAll, Stmt.writeAll, t.write_mapSpans, Stmt.writeMore_mapSpans f _ ts]

theorem Stmt.writeMore_mapSpans (f : Span → Span) (out : String) : (ts : List Stmt) →
    Stmt.writeMore out (Stmt.mapSpansAll f ts) = Stmt.writeMore out ts
  | [] => rfl
  | t :: ts => by
      simp only [Stmt.mapSpansAll, Stmt.writeMore, t.write_mapSpans, Stmt.writeMore_mapSpans f _ ts]

theorem Block.write_mapSpans (f : Span → Span) (out : String) : (b : Block) →
    (b.mapSpans f).write out = b.write out
  | .mk _ statements => by
      simp only [Block.mapSpans, Block.write, Stmt.writeAll_mapSpans f _ statements]

end

/-- Of spans it is only seen whether a failure has one. -/
def Likeness.placed : Likeness where
  view _ := .zero
  place p p' := p.isSome = p'.isSome
  nowhere := rfl
  located _ _ := by simp

theorem Value.Corresponds.inspect_eq {ρ : Pairing} {v v' : Value}
    (alike : v.Corresponds .placed ρ v') : v'.inspect = v.inspect := by
  induction alike with
  | int | bool | null => rfl
  | returned _ _ ih => exact ih
  | error _ causes _ => simp only [Value.inspect, causes]
  | @closure _ _ _ _ literal literal' _ literals _ =>
      obtain ⟨params, bodies, -⟩ := FunctionLiteral.mk.inj literals
      have texts : literal'.body.text = literal.body.text := by
        rw [Block.text, Block.text, ← literal'.body.write_mapSpans Likeness.placed.view,
          ← literal.body.write_mapSpans Likeness.placed.view, bodies]
      simp only [Value.inspect, params, texts]

/-- The report without its location. -/
def Report.unplaced : Report → Report
  | .pointed message _ => .pointed message none
  | .line text => .line text

/-- The same is written, except for locations. -/
structure Output.Alike (output output' : Output) : Prop where
  stdout : output.stdout = output'.stdout
  reports : output.reports.map Report.unplaced = output'.reports.map Report.unplaced

theorem Report.unplaced_ofMessage {name source source' message : String} {span span' : Option Span}
    (places : span.isSome = span'.isSome) :
    (Report.ofMessage name source message span).unplaced =
      (Report.ofMessage name source' message span').unplaced := by
  cases span <;> cases span' <;> first | rfl | cases places

theorem reportValue_alike {ρ : Pairing} {v v' : Value} (alike : v.Corresponds .placed ρ v')
    (name source source' : String) :
    (reportValue name source v).2.Alike (reportValue name source' v').2 := by
  have texts := alike.inspect_eq
  cases alike with
  | error _ causes places =>
      refine ⟨rfl, ?_⟩
      simp only [reportValue, List.map_singleton, Report.ofFailure, causes]
      rw [Report.unplaced_ofMessage places]
  | null => exact ⟨rfl, rfl⟩
  | int | bool | returned | closure => exact ⟨congrArg (· ++ "\n") texts.symm, rfl⟩

theorem SyntaxFault.Alike.message {look : Span → Span} {fault fault' : SyntaxFault}
    (alike : fault.Alike look fault') : fault.message = fault'.message := by
  unfold SyntaxFault.message
  rw [alike.cause, alike.construct]

theorem reportFaults_alike {look : Span → Span} {faults faults' : List SyntaxFault}
    (alike : List.Forall₂ (SyntaxFault.Alike look) faults faults') (name source source' : String) :
    (reportFaults name source faults).2.Alike (reportFaults name source' faults').2 := by
  refine ⟨rfl, ?_⟩
  simp only [reportFaults, List.map_map]
  induction alike with
  | nil => rfl
  | cons fault _ ih =>
      refine congrArg₂ List.cons ?_ ih
      simp only [Function.comp_apply, Report.ofFault, fault.message]
      exact Report.unplaced_ofMessage rfl

theorem Machine.mem_names {m : Machine} {scope : ScopeId} {s : Scope}
    (present : m.scopes[scope]? = some s) (name : String) :
    name ∈ m.names scope ↔ (s.bindings.lookup name).isSome = true := by
  simp only [Machine.names, present, Option.getD_some, List.mem_mergeSort, List.lookup_isSome_iff,
    List.mem_map, beq_iff_eq]
  exact exists_congr fun _ => and_congr_right fun _ => eq_comm

namespace Text

/-- The bytes end with the only line feed among them. -/
def IsLine (bytes : List UInt8) : Prop := ∃ content, bytes = content ++ [10] ∧ 10 ∉ content

theorem cutLines_content {content : List UInt8} (inside : 10 ∉ content) (rest line : List UInt8)
    (lines : List (List UInt8)) :
    cutLines (content ++ 10 :: rest) line lines =
      cutLines rest [] ((line.reverse ++ content ++ [10]) :: lines) := by
  induction content generalizing line with
  | nil => simp [cutLines]
  | cons b content ih =>
      obtain ⟨other, inside⟩ := not_or.mp (mt List.mem_cons.mpr inside)
      rw [List.cons_append, cutLines, if_neg (Ne.symm other), ih inside]
      simp

theorem cutLines_flatten {lines : List (List UInt8)} (ended : ∀ line ∈ lines, IsLine line)
    (before : List (List UInt8)) :
    cutLines lines.flatten [] before = before.reverse ++ lines := by
  induction lines generalizing before with
  | nil => simp [cutLines]
  | cons line lines ih =>
      obtain ⟨⟨content, rfl, inside⟩, endedLater⟩ := List.forall_mem_cons.mp ended
      rw [List.flatten_cons, List.append_assoc, List.singleton_append, cutLines_content inside,
        ih endedLater]
      simp

theorem lines_of_flatten {input : ByteArray} {lines : List (List UInt8)}
    (typed : input.toList = lines.flatten) (ended : ∀ line ∈ lines, IsLine line) :
    Text.lines input = lines.map decode? := by
  rw [Text.lines, typed, cutLines_flatten ended]
  rfl

end Text

namespace Session

/-- The sessions differ in their histories, and otherwise in numbers and spans only. -/
structure Alike (ρ : Pairing) (session session' : Session) : Prop where
  limit : session.limit = session'.limit
  scope : ρ.scopes session.scope session'.scope
  machine : session.machine.Corresponds .placed ρ session'.machine

/-- What a line is answered with, and which names are bound in the scope of the session then. -/
structure Exchange where
  line : String
  output : Output
  names : List String

/-- The same line gets the same answer, except for locations, and leaves the same names. -/
structure Exchange.Alike (exchange exchange' : Exchange) : Prop where
  line : exchange.line = exchange'.line
  output : exchange.output.Alike exchange'.output
  names : ∀ name, name ∈ exchange.names ↔ name ∈ exchange'.names

/-- The answers to all lines of a session, and what it ends with. -/
structure Course where
  exchanges : List Exchange
  ending : Transcript

/-- Answer line after line, each for itself. -/
def course (session : Session) : List (Option String) → Course
  | [] => ⟨[], { output := { stdout := prompt ++ "\n" } }⟩
  | none :: _ => ⟨[], { output := { stdout := prompt }, fault := some (.input .notUtf8) }⟩
  | some line :: rest =>
      match session.enter line with
      | none => ⟨[], { output := { stdout := prompt } }⟩
      | some (later, output) =>
          let course := later.course rest
          ⟨⟨line, output, later.machine.names later.scope⟩ :: course.exchanges, course.ending⟩

/-- All that is written in the course of a session, behind what has been written before. -/
def Course.transcript (course : Course) (written : Output) : Transcript :=
  let answered := course.exchanges.foldl
    (fun written exchange => written ++ { stdout := prompt } ++ exchange.output) written
  { course.ending with output := answered ++ course.ending.output }

/-- A session writes a prompt and the answer for each line. -/
theorem answer_eq_transcript (session : Session) (written : Output) (lines : List (Option String)) :
    session.answer written lines = (session.course lines).transcript written := by
  induction lines generalizing session written with
  | nil => rfl
  | cons first rest ih =>
      cases first with
      | none => rfl
      | some line =>
          simp only [answer, course]
          cases session.enter line with
          | none => rfl
          | some answered => exact ih answered.1 _

variable {ρ : Pairing} {session session' : Session}

theorem alike_start (limit : Option Nat) : ∃ ρ, (start limit).Alike ρ (start limit) := by
  let ρ : Pairing :=
    { scopes := fun a a' => a = 0 ∧ a' = 0
      cells := fun _ _ => False
      oneScope := by
        rintro a a' b b' ⟨rfl, rfl⟩ ⟨rfl, rfl⟩
        exact iff_of_true rfl rfl
      oneCell := nofun }
  refine ⟨ρ, rfl, ⟨rfl, rfl⟩, rfl, ?_, nofun⟩
  rintro a a' ⟨rfl, rfl⟩
  exact ⟨{}, {}, rfl, rfl, fun _ => .none, .none⟩

theorem Alike.names (alike : session.Alike ρ session') (name : String) :
    name ∈ session.machine.names session.scope ↔
      name ∈ session'.machine.names session'.scope := by
  obtain ⟨s, s', present, present', same⟩ := alike.machine.scopes alike.scope
  rw [Machine.mem_names present, Machine.mem_names present']
  have bound := same.bindings name
  generalize s.bindings.lookup name = value, s'.bindings.lookup name = value' at bound
  cases bound with
  | some _ => exact Iff.rfl
  | none => exact Iff.rfl

/-- Neither the history nor where a line stands in it shows in the answer. -/
theorem Alike.evaluate (alike : session.Alike ρ session') (line : String) :
    (∃ later, (session.evaluate line).1.Alike later (session'.evaluate line).1) ∧
      (session.evaluate line).2.Alike (session'.evaluate line).2 := by
  have reading := parseAt_sameReading line (min session.history.utf8ByteSize Span.maxOffset)
    (min session'.history.utf8ByteSize Span.maxOffset)
  cases parsed : parseAt line (min session.history.utf8ByteSize Span.maxOffset) with
  | error faults =>
      cases parsed' : parseAt line (min session'.history.utf8ByteSize Span.maxOffset) with
      | ok q =>
          rw [parsed, parsed'] at reading
          cases reading
      | error faults' =>
          rw [parsed, parsed'] at reading
          rw [evaluate_unread parsed, evaluate_unread parsed']
          cases reading with
          | faults same =>
              exact ⟨⟨ρ, alike.limit, alike.scope, alike.machine⟩, reportFaults_alike same ..⟩
  | ok p =>
      cases parsed' : parseAt line (min session'.history.utf8ByteSize Span.maxOffset) with
      | error faults' =>
          rw [parsed, parsed'] at reading
          cases reading
      | ok q =>
          rw [parsed, parsed'] at reading
          rw [evaluate_read parsed, evaluate_read parsed', ← alike.limit]
          cases reading with
          | program bares =>
              have ops : (Operation.evaluate session.limit (.program p) session.scope).Corresponds
                  .placed ρ (.evaluate session.limit (.program q) session'.scope) :=
                .evaluate (congrArg Node.program bares) alike.scope
              obtain ⟨later, since, values, machines⟩ := alike.machine.perform ops
              exact ⟨⟨later, rfl, Pairing.scopes_mono since alike.scope, machines⟩,
                reportValue_alike values ..⟩

theorem Alike.enter (alike : session.Alike ρ session') (line : String) :
    Option.Rel (fun answered answered' =>
      (∃ later, answered.1.Alike later answered'.1) ∧ answered.2.Alike answered'.2)
      (session.enter line) (session'.enter line) := by
  simp only [Session.enter]
  split
  · exact .none
  split
  · exact .some ⟨⟨ρ, alike⟩, rfl, rfl⟩
  · exact .some (alike.evaluate line)

structure Course.Alike (course course' : Course) : Prop where
  exchanges : List.Forall₂ Exchange.Alike course.exchanges course'.exchanges
  ending : course.ending = course'.ending

theorem Alike.course (alike : session.Alike ρ session') (lines : List (Option String)) :
    (session.course lines).Alike (session'.course lines) := by
  induction lines generalizing ρ session session' with
  | nil => exact ⟨.nil, rfl⟩
  | cons first rest ih =>
      cases first with
      | none => exact ⟨.nil, rfl⟩
      | some line =>
          have entered := alike.enter line
          simp only [Session.course]
          generalize session.enter line = answer, session'.enter line = answer' at entered
          cases entered with
          | none => exact ⟨.nil, rfl⟩
          | some both =>
              obtain ⟨⟨later, alikeLater⟩, outputs⟩ := both
              obtain ⟨exchanges, ending⟩ := ih alikeLater
              exact ⟨.cons ⟨rfl, outputs, alikeLater.names⟩ exchanges, ending⟩

/-- The course without its exchange number `i`, if there is one. -/
def Course.omit (course : Course) (i : Nat) : Course :=
  { course with exchanges := course.exchanges.eraseIdx i }

/-- A line that cannot be read could as well be left out. -/
theorem Alike.omit {line : String} {offset : Nat} {faults : List SyntaxFault}
    (words : Text.trimmed line.toList ≠ [])
    (noQuit : Text.trimmed line.toList ≠ [':', 'q', 'u', 'i', 't'])
    (unread : parseAt line offset = .error faults) (alike : session.Alike ρ session')
    (before after : List (Option String)) :
    ((session.course (before ++ some line :: after)).omit before.length).Alike
      (session'.course (before ++ after)) := by
  induction before generalizing ρ session session' with
  | nil =>
      have reading :=
        parseAt_sameReading line offset (min session.history.utf8ByteSize Span.maxOffset)
      rw [unread] at reading
      cases parsed : parseAt line (min session.history.utf8ByteSize Span.maxOffset) with
      | ok p =>
          rw [parsed] at reading
          cases reading
      | error faults' =>
          have entered : session.enter line = some (session.evaluate line) :=
            enter_of_words noQuit words
          rw [evaluate_unread parsed] at entered
          simp only [List.nil_append, Session.course, entered]
          have kept : { session with history := session.history ++ line }.Alike ρ session' :=
            ⟨alike.limit, alike.scope, alike.machine⟩
          exact kept.course after
  | cons first before ih =>
      cases first with
      | none => exact ⟨.nil, rfl⟩
      | some earlier =>
          have entered := alike.enter earlier
          simp only [List.cons_append, Session.course]
          generalize session.enter earlier = answer, session'.enter earlier = answer' at entered
          cases entered with
          | none => exact ⟨.nil, rfl⟩
          | some both =>
              obtain ⟨⟨later, alikeLater⟩, outputs⟩ := both
              obtain ⟨exchanges, ending⟩ := ih alikeLater
              exact ⟨.cons ⟨rfl, outputs, alikeLater.names⟩ exchanges, ending⟩

/-- A line that cannot be read leaves no trace. Whatever the lines around it, a session without it
    has the same course: every other line is answered with the same text and the same messages, and
    the same names are bound behind it. -/
theorem unread_line_leaves_no_trace (limit : Option Nat) {input shorter : ByteArray}
    {before after : List (List UInt8)} {bytes : List UInt8} {line : String} {offset : Nat}
    {faults : List SyntaxFault} (typed : input.toList = (before ++ bytes :: after).flatten)
    (omitted : shorter.toList = (before ++ after).flatten)
    (ended : ∀ other ∈ before ++ bytes :: after, Text.IsLine other)
    (decoded : Text.decode? bytes = some line) (words : Text.trimmed line.toList ≠ [])
    (noQuit : Text.trimmed line.toList ≠ [':', 'q', 'u', 'i', 't'])
    (unread : parseAt line offset = .error faults) :
    let course := (start limit).course (Text.lines input)
    let course' := (start limit).course (Text.lines shorter)
    repl limit input = course.transcript { stdout := banner } ∧
      repl limit shorter = course'.transcript { stdout := banner } ∧
      (course.omit before.length).Alike course' := by
  refine ⟨answer_eq_transcript .., answer_eq_transcript .., ?_⟩
  have endedShorter : ∀ other ∈ before ++ after, Text.IsLine other := by
    intro other member
    refine ended other ?_
    rcases List.mem_append.mp member with early | late
    · exact List.mem_append_left _ early
    · exact List.mem_append_right _ (List.mem_cons_of_mem _ late)
  rw [Text.lines_of_flatten typed ended, Text.lines_of_flatten omitted endedShorter,
    List.map_append, List.map_append, List.map_cons, decoded, ← List.length_map (f := Text.decode?)]
  obtain ⟨ρ, alike⟩ := alike_start limit
  exact alike.omit words noQuit unread _ _

/-- Without the line `)`, the failure behind it is reported a line further up. -/
theorem unread_line_leaves_no_trace_moved :
    let input := "let a = 1;\n)\na + b\n".toUTF8
    let shorter := "let a = 1;\na + b\n".toUTF8
    let course := (start (some 1)).course (Text.lines input)
    let course' := (start (some 1)).course (Text.lines shorter)
    (course.omit 1).Alike course' ∧
      course.exchanges.getLast?.map (·.output.reports) =
        some [.pointed "identifier not found: b" (some ⟨historyName, 3, 5⟩)] ∧
      course'.exchanges.getLast?.map (·.output.reports) =
        some [.pointed "identifier not found: b" (some ⟨historyName, 2, 5⟩)] := by
  have unread : ∃ faults, parseAt ")\n" 11 = .error faults := by
    cases parsed : parseAt ")\n" 11 with
    | error faults => exact ⟨faults, rfl⟩
    | ok p =>
        have fails : (parseAt ")\n" 11).toBool = false := by decide +kernel
        rw [parsed] at fails
        cases fails
  obtain ⟨faults, unread⟩ := unread
  have ended : ∀ other ∈ ["let a = 1;\n".toUTF8.toList] ++ ")\n".toUTF8.toList ::
      ["a + b\n".toUTF8.toList], Text.IsLine other := by
    simp only [List.singleton_append, List.forall_mem_cons]
    exact ⟨⟨"let a = 1;".toUTF8.toList, by decide +kernel, by decide +kernel⟩,
      ⟨")".toUTF8.toList, by decide +kernel, by decide +kernel⟩,
      ⟨"a + b".toUTF8.toList, by decide +kernel, by decide +kernel⟩, List.forall_mem_nil _⟩
  have typed : "let a = 1;\n)\na + b\n".toUTF8.toList = (["let a = 1;\n".toUTF8.toList] ++
      ")\n".toUTF8.toList :: ["a + b\n".toUTF8.toList]).flatten := by decide +kernel
  have omitted : "let a = 1;\na + b\n".toUTF8.toList =
      (["let a = 1;\n".toUTF8.toList] ++ ["a + b\n".toUTF8.toList]).flatten := by decide +kernel
  obtain ⟨-, -, same⟩ := unread_line_leaves_no_trace (some 1) typed omitted ended
    (by decide +kernel) (by decide +kernel) (by decide +kernel) unread
  exact ⟨same, by decide +kernel, by decide +kernel⟩

end Session

end TreeWalk
