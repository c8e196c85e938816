import TreeWalk.Command.Line

/-! # The program

Reading files and standard input, and writing what the library answers.
-/

namespace TreeWalk.Main

def put (output : Output) : IO Unit := do
  let stdout ← IO.getStdout
  stdout.putStr output.stdout
  stdout.flush
  let stderr ← IO.getStderr
  for report in output.reports do
    stderr.putStr report.text

def finish (finished : Finished) : IO UInt32 := do
  put finished.output
  return finished.exitCode.toUInt32

/-- The number of a system error, which may come with either sign. -/
def errorNumber (code : UInt32) : Nat := min code.toNat (0 - code).toNat

def readFault : IO.Error → ReadFault
  | .noFileOrDirectory .. => .absent
  | .inappropriateType _ code _ => if errorNumber code = 21 then .folder else .notFolder
  | .permissionDenied .. => .denied
  | .invalidArgument _ code details =>
      if errorNumber code = 36 then .nameTooLong else .other details
  | other => .other (toString other)

def readFile (path : String) : IO FileContent := do
  try
    return .ok (← IO.FS.readBinFile path)
  catch fault =>
    return .error (readFault fault)

/-- Read bytes through a line feed, or to the end of the input. -/
partial def readLine (input : IO.FS.Stream) (line : ByteArray) : IO ByteArray := do
  let bytes ← input.read 1
  if bytes.isEmpty then return line
  else if bytes.toList = [10] then return line ++ bytes
  else readLine input (line ++ bytes)

/-- Answer the lines of standard input as they arrive. -/
partial def answer (input : IO.FS.Stream) (session : Session) : IO UInt32 := do
  put { stdout := Session.prompt }
  let bytes ← readLine input .empty
  if bytes.isEmpty then
    put { stdout := "\n" }
    return 0
  match String.fromUTF8? bytes with
  | none => finish (.ofFault {} (.input .notUtf8))
  | some line =>
      match session.enter line with
      | none => return 0
      | some (session, output) =>
          put output
          answer input session

def execute (request : Request) : IO UInt32 := do
  match request with
  | .session limit =>
      put { stdout := Session.banner }
      answer (← IO.getStdin) (Session.start limit)
  | _ =>
      let content ← match request.path? with
        | some path => readFile path
        | none => pure (.ok .empty)
      finish (request.execute content .empty)

end TreeWalk.Main

open TreeWalk in
def main (args : List String) : IO UInt32 :=
  match Request.ofArgs args with
  | .ok request => Main.execute request
  | .error fault => Main.finish (.ofFault {} fault)
