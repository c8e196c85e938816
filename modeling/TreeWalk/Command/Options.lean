import TreeWalk.Command.Outcome
import TreeWalk.Token.Lexer

/-! # Options

The arguments behind the name of a command: a path, and a limit on the depth of calls.
-/

namespace TreeWalk

structure RunOptions where
  path : Option String := none
  limit : Option Nat
  deriving DecidableEq, Repr

namespace RunOptions

/-- A number below `2 ^ 64` in decimal digits, after an optional plus sign. -/
def word? (text : List Char) : Option Nat :=
  let digits := match text with
    | '+' :: rest => rest
    | _ => text
  if digits ≠ [] ∧ digits.all Char.isDigit ∧ Lexer.decimal digits < UInt64.size then
    some (Lexer.decimal digits)
  else none

/-- Read a limit: a positive number, or `none` in any case of letters for no limit. -/
def readLimit (value : String) : Except CommandFault (Option Nat) :=
  if value.toList.map Char.toLower = ['n', 'o', 'n', 'e'] then .ok none
  else match word? value.toList with
    | some (limit + 1) => .ok (some (limit + 1))
    | _ => .error (.invalidMaxDepth value)

def limitValue? (arg : String) : Option String :=
  let option := "--max-depth=".toList
  let chars := arg.toList
  if option.isPrefixOf chars then some (String.ofList (chars.drop option.length)) else none

/-- Read the arguments one after another. The last limit counts; there is at most one path. -/
def read (options : RunOptions) : List String → Except CommandFault RunOptions
  | [] => .ok options
  | arg :: rest =>
      match limitValue? arg with
      | some value =>
          match readLimit value with
          | .ok limit => read { options with limit } rest
          | .error fault => .error fault
      | none =>
          if arg.toList.head? = some '-' ∨ options.path.isSome then .error (.unknownOption arg)
          else read { options with path := some arg } rest

end RunOptions

end TreeWalk
