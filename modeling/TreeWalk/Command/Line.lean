import TreeWalk.Command.Disk
import TreeWalk.Command.Options
import TreeWalk.Command.Session

/-! # The command line

The arguments of the program name a request. A request says which file it needs, and is carried out
on the content of that file and on standard input.
-/

namespace TreeWalk

inductive Request where
  /-- Answer the lines of standard input. -/
  | session (limit : Option Nat)
  /-- Evaluate a file. -/
  | run (path : String) (limit : Option Nat)
  /-- Print the statements of a file. -/
  | parse (path : String)
  /-- List the tokens of a file. -/
  | lex (path : String)
  | help
  | version
  /-- There is no such command. -/
  | unknown (command : String)
  deriving DecidableEq, Repr

/-- What a request leaves behind. -/
structure Finished where
  exitCode : Nat
  output : Output

def usage : String :=
  "\n".intercalate [
    "Monkey interpreter",
    "",
    "Usage: monkey [command] [options]",
    "",
    "Commands:",
    "  run <file>       Evaluate a Monkey program and print its result",
    "  repl             Start an interactive session (default)",
    "  parse <file>     Parse and print statements in canonical form",
    "  lex <file>       Tokenize and display tokens",
    "  help             Show this help message",
    "  version          Show version information",
    "",
    "Run options:",
    "  --max-depth=N    Limit nested function calls (default: 10000)",
    "  --max-depth=none Disable the call depth limit",
    "",
    "Environment:",
    "  RUST_LOG          Enable tracing output (e.g. RUST_LOG=monkey_eval=debug)",
    "  MONKEY_LOG_TREE=1 Print tracing spans as an indented tree",
    "",
    "Examples:",
    "  monkey run fib.mk",
    "  monkey run deep.mk --max-depth=none",
    "  monkey                          # REPL",
    ""]

namespace Request

/-- The request that the arguments name. Without arguments it is a session. -/
def ofArgs : List String → Except CommandFault Request
  | [] => .ok (.session defaultLimit)
  | command :: rest =>
      match command with
      | "run" =>
          match RunOptions.read { limit := defaultLimit } rest with
          | .error fault => .error fault
          | .ok ⟨some path, limit⟩ => .ok (.run path limit)
          | .ok ⟨none, _⟩ => .error (.missingPath "monkey run <file> [--max-depth=N|none]")
      | "repl" =>
          match RunOptions.read { limit := defaultLimit } rest with
          | .error fault => .error fault
          | .ok ⟨_, limit⟩ => .ok (.session limit)
      | "parse" =>
          match rest with
          | path :: _ => .ok (.parse path)
          | [] => .error (.missingPath "monkey parse <file>")
      | "lex" =>
          match rest with
          | path :: _ => .ok (.lex path)
          | [] => .error (.missingPath "monkey lex <file>")
      | "help" | "--help" | "-h" => .ok .help
      | "version" | "--version" | "-V" => .ok .version
      | _ => .ok (.unknown command)

def path? : Request → Option String
  | .run path _ | .parse path | .lex path => some path
  | _ => none

end Request

namespace Finished

/-- The end of a command that could do its work. -/
def ofOutcome (result : Outcome × Output) : Finished := ⟨result.1.exitCode, result.2⟩

def lines (text : String) : List Report := (text.splitOn "\n").map Report.line

/-- The end of a command that could not do its work, after what it has written. -/
def ofFault (written : Output) (fault : CommandFault) : Finished :=
  ⟨CommandFault.exitCode, written ++ { reports := lines ("error: " ++ fault.message) }⟩

/-- The end of a command on a file, whose content may be no text or may not be readable. -/
def ofFile (path : String) (content : FileContent) (command : String → Outcome × Output) :
    Finished :=
  match content with
  | .error cause => ofFault {} (.unreadable path cause)
  | .ok bytes =>
      match String.fromUTF8? bytes with
      | none => ofFault {} (.unreadable path .notUtf8)
      | some source => ofOutcome (command source)

def ofTranscript (transcript : Session.Transcript) : Finished :=
  match transcript.fault with
  | none => ⟨Outcome.success.exitCode, transcript.output⟩
  | some fault => ofFault transcript.output fault

end Finished

/-- Carry out a request, given the content of the file it needs and standard input. -/
def Request.execute (content : FileContent) (stdin : ByteArray) : Request → Finished
  | .session limit => .ofTranscript (repl limit stdin)
  | .run path limit => .ofFile path content fun source => runSource path source limit
  | .parse path => .ofFile path content (parseSource path)
  | .lex path => .ofFile path content (lexSource path)
  | .help => ⟨0, { stdout := usage }⟩
  | .version => ⟨0, { stdout := "Monkey 0.1.0\n" }⟩
  | .unknown command =>
      ⟨2, { stdout := usage, reports := Finished.lines ("Unknown command: " ++ command ++ "\n") }⟩

/-- The content of the file that a request needs, and nothing where it needs none. -/
def Request.content (disk : Disk) (request : Request) : FileContent :=
  match request.path? with
  | some path => disk.read path
  | none => .ok .empty

def commandLine (disk : Disk) (stdin : ByteArray) (args : List String) : Finished :=
  match Request.ofArgs args with
  | .error fault => .ofFault {} fault
  | .ok request => request.execute (request.content disk) stdin

end TreeWalk
