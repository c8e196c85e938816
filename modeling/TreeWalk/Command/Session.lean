import TreeWalk.Command.Source
import TreeWalk.Text.Blank
import TreeWalk.Text.Lines

/-! # Interactive sessions

A session evaluates one line after another in one scope. Every line that is neither blank nor the
command to quit joins the history, and spans count bytes of the whole history, so that a failure
in a function from an earlier line is reported where the function was written.
-/

namespace TreeWalk

structure Session where
  limit : Option Nat
  scope : ScopeId
  machine : Machine
  history : String

namespace Session

def banner : String := "Monkey 0.1.0 (type :quit to exit)\n"

def prompt : String := ">> "

def historyName : String := "<repl>"

def start (limit : Option Nat) : Session :=
  let (scope, machine) := Machine.fresh
  { limit, scope, machine, history := "" }

/-- Evaluate a line of program text behind the history. -/
def evaluate (session : Session) (line : String) : Session × Output :=
  let offset := min session.history.utf8ByteSize Span.maxOffset
  let history := session.history ++ line
  match parseAt line offset with
  | .error faults => ({ session with history }, (reportFaults historyName history faults).2)
  | .ok program =>
      let (value, machine) :=
        session.machine.evaluate session.limit (.program program) session.scope
      ({ session with history, machine }, (reportValue historyName history value).2)

/-- Answer one line: nothing is returned for the command to quit, a blank line changes nothing, and
    any other line is evaluated. -/
def enter (session : Session) (line : String) : Option (Session × Output) :=
  let words := Text.trimmed line.toList
  if words = [':', 'q', 'u', 'i', 't'] then none
  else if words = [] then some (session, {})
  else some (session.evaluate line)

/-- What a whole session has written, and why its input could not be read, if it could not. -/
structure Transcript where
  output : Output
  fault : Option CommandFault := none

/-- Answer line after line, behind what has been written so far. The end of the input ends the
    line of the last prompt. -/
def answer (session : Session) (written : Output) : List (Option String) → Transcript
  | [] => { output := written ++ { stdout := prompt ++ "\n" } }
  | none :: _ => { output := written ++ { stdout := prompt }, fault := some (.input .notUtf8) }
  | some line :: rest =>
      match session.enter line with
      | none => { output := written ++ { stdout := prompt } }
      | some (session, output) =>
          session.answer (written ++ { stdout := prompt } ++ output) rest

end Session

def replLines (limit : Option Nat) (lines : List (Option String)) : Session.Transcript :=
  (Session.start limit).answer { stdout := Session.banner } lines

def repl (limit : Option Nat) (input : ByteArray) : Session.Transcript :=
  replLines limit (Text.lines input)

end TreeWalk
