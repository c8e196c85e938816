import TreeWalk.Report

/-! # What a command leaves behind

The text on standard output, the reports on standard error, and how the command ended.
-/

namespace TreeWalk

structure Output where
  stdout : String := ""
  reports : List Report := []
  deriving DecidableEq, Repr

instance : Append Output := ⟨fun a b => ⟨a.stdout ++ b.stdout, a.reports ++ b.reports⟩⟩

/-- How a command ended that could do its work. -/
inductive Outcome where
  | success
  /-- The program could not be read, or its value is a failure. -/
  | failed
  deriving DecidableEq, Repr

def Outcome.exitCode : Outcome → Nat
  | .success => 0
  | .failed => 1

inductive ReadFault where
  /-- The path leads nowhere. -/
  | absent
  /-- The path leads to a folder. -/
  | folder
  /-- The path goes on behind a file. -/
  | notFolder
  /-- The path, or a name in it, is too long. -/
  | nameTooLong
  /-- The path leads to what this user may not read. -/
  | denied
  /-- The bytes are no text. -/
  | notUtf8
  /-- The system gives another reason. -/
  | other (reason : String)
  deriving DecidableEq, Repr

def ReadFault.message : ReadFault → String
  | .absent => "No such file or directory (os error 2)"
  | .folder => "Is a directory (os error 21)"
  | .notFolder => "Not a directory (os error 20)"
  | .nameTooLong => "File name too long (os error 36)"
  | .denied => "Permission denied (os error 13)"
  | .notUtf8 => "stream did not contain valid UTF-8"
  | .other reason => reason

/-- Why a command could not do its work. -/
inductive CommandFault where
  /-- The file could not be read. -/
  | unreadable (path : String) (cause : ReadFault)
  | invalidMaxDepth (value : String)
  | unknownOption (option : String)
  /-- The command needs a path; the text shows how it is used. -/
  | missingPath (usage : String)
  /-- Standard input could not be read. -/
  | input (cause : ReadFault)
  deriving DecidableEq, Repr

def CommandFault.message : CommandFault → String
  | .unreadable path cause => "cannot read '" ++ path ++ "': " ++ cause.message
  | .invalidMaxDepth value =>
      "invalid --max-depth value '" ++ value ++ "': expected a positive integer or 'none'"
  | .unknownOption option => "unknown option '" ++ option ++ "'"
  | .missingPath usage => "missing file path\nUsage: " ++ usage
  | .input cause => cause.message

def CommandFault.exitCode : Nat := 2

/-- Report the value of a program: a failure on standard error, `null` nowhere, anything else on
    standard output. -/
def reportValue (name source : String) : Value → Outcome × Output
  | .error _ failure => (.failed, { reports := [.ofFailure name source failure] })
  | .null => (.success, {})
  | value => (.success, { stdout := value.inspect ++ "\n" })

def reportFaults (name source : String) (faults : List SyntaxFault) : Outcome × Output :=
  (.failed, { reports := faults.map (Report.ofFault name source) })

end TreeWalk
