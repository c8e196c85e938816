import TreeWalk.Command.Outcome
import TreeWalk.Parser
import TreeWalk.Evaluator

/-! # Commands on one source text

Running a program, printing its statements in canonical form, and listing its tokens.
-/

namespace TreeWalk

/-- A machine with one empty scope, and the number of that scope. -/
def Machine.fresh : ScopeId × Machine := Machine.newScope {} none

/-- Evaluate the program in a named text and report its value. Nothing is evaluated unless all of
    the text can be read. -/
def runSource (name source : String) (limit : Option Nat) : Outcome × Output :=
  match parse source with
  | .error faults => reportFaults name source faults
  | .ok program =>
      let (scope, machine) := Machine.fresh
      reportValue name source (machine.evaluate limit (.program program) scope).1

/-- Some lines, each after two blanks, under a line that counts them. -/
def counted (what : String) (lines : List String) : String :=
  lines.foldl (fun written line => written ++ "  " ++ line ++ "\n")
    (toString lines.length ++ " " ++ what ++ "(s)\n")

/-- Print the statements of a named text in canonical form. -/
def parseSource (name source : String) : Outcome × Output :=
  match parse source with
  | .error faults => reportFaults name source faults
  | .ok program => (.success, { stdout := counted "statement" (program.statements.map Stmt.text) })

def lexSource (name source : String) : Outcome × Output :=
  match lex source with
  | .error faults => reportFaults name source (faults.map SyntaxFault.ofLexical)
  | .ok tokens =>
      (.success, { stdout := counted "token" (tokens.map fun t => listedAt t.kind.text t.span) })

end TreeWalk
