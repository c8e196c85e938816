import TreeWalk.Machine
import TreeWalk.Value.Operate

/-! # Evaluation

Evaluation walks the tree. A signal, that is a failure or a pending `return`, ends every node that
meets one in a child and becomes the node's own value; only a call and a whole program take a
pending `return` off. Children are evaluated from left to right.

The walk is structural in the tree, given what a call does; a call is structural in a budget of
nested calls. With a limit on the depth of calls the budget is never spent, so evaluation always
ends.
-/

namespace TreeWalk

/-- A computation on a machine. It has no result when its budget of nested calls is spent. -/
abbrev Run := StateT Machine Option

/-- What evaluation does with a call, given the callee, the arguments and the span of the call. -/
abbrev Call := Value → List Value → Span → Run Value

namespace Run

def fail (failure : Failure) (span : Span) : Run Value := fun m =>
  let (cell, m) := m.newCell
  some (.error cell (failure.withSpan span), m)

def ret (value : Value) : Run Value := fun m =>
  let (cell, m) := m.newCell
  some (.returned cell value, m)

def closure (literal : FunctionLiteral) (scope : ScopeId) : Run Value := fun m =>
  let (cell, m) := m.newCell
  some (.closure cell literal scope, m)

def lookup (scope : ScopeId) (name : String) : Run (Option Value) := fun m =>
  some (m.lookup scope name, m)

def bindName (scope : ScopeId) (name : String) (value : Value) : Run Unit := fun m =>
  some ((), m.bind scope name value)

def operator (result : Except Failure Value) (span : Span) : Run Value :=
  match result with
  | .ok value => pure value
  | .error failure => fail failure span

/-- Go on with the value of a computation, unless it is a signal. -/
@[inline] def plainly (run : Run Value) (next : Value → Run Value) : Run Value := do
  let value ← run
  if value.isSignal then return value else next value

end Run

mutual

def Expr.eval (call : Call) (scope : ScopeId) : Expr → Run Value
  | .int _ value => pure (.int value)
  | .bool _ value => pure (.bool value)
  | .ident span name => do
      match ← Run.lookup scope name with
      | some value => pure value
      | none => Run.fail { cause := .identifierNotFound name } span
  | .unary span op operand =>
      Run.plainly (operand.eval call scope) fun value =>
        Run.operator (op.operate value) span
  | .binary span op left right =>
      Run.plainly (left.eval call scope) fun a =>
        Run.plainly (right.eval call scope) fun b =>
          Run.operator (op.operate a b) span
  | .cond _ condition consequence none =>
      Run.plainly (condition.eval call scope) fun value =>
        if value.isTruthy then consequence.eval call scope else pure .null
  | .cond _ condition consequence (some alternative) =>
      Run.plainly (condition.eval call scope) fun value =>
        if value.isTruthy then consequence.eval call scope
        else alternative.eval call scope
  | .fn _ literalSpan params body => Run.closure ⟨params, body, literalSpan⟩ scope
  | .call span callee args =>
      Run.plainly (callee.eval call scope) fun function => do
        match ← Expr.evalAll call scope args with
        | .ok values => call function values span
        | .error signal => return signal

/-- The values of some expressions, or the first signal among them. -/
def Expr.evalAll (call : Call) (scope : ScopeId) :
    List Expr → Run (Except Value (List Value))
  | [] => return .ok []
  | e :: es => do
      let value ← e.eval call scope
      if value.isSignal then return .error value
      else match ← Expr.evalAll call scope es with
        | .ok values => return .ok (value :: values)
        | .error signal => return .error signal

/-- The value of a statement in a scope. A binding has the value `null`. -/
def Stmt.eval (call : Call) (scope : ScopeId) : Stmt → Run Value
  | .expr _ value => value.eval call scope
  | .bind _ name value =>
      Run.plainly (value.eval call scope) fun value => do
        Run.bindName scope name value
        return .null
  | .ret _ none => Run.ret .null
  | .ret _ (some value) => Run.plainly (value.eval call scope) Run.ret

/-- The value of the last of some statements, `last` if there is none, or the first signal. -/
def Stmt.evalAll (call : Call) (scope : ScopeId) (last : Value) :
    List Stmt → Run Value
  | [] => return last
  | t :: ts =>
      Run.plainly (t.eval call scope) fun value => Stmt.evalAll call scope value ts

/-- The value of a block in a scope. A block opens no scope of its own. -/
def Block.eval (call : Call) (scope : ScopeId) : Block → Run Value
  | .mk _ statements => Stmt.evalAll call scope .null statements

end

/-- Apply a function to evaluated arguments. The body runs in a new scope below the one that the
    function was created in, and a pending `return` ends here. A callee that is no function is
    reported before a wrong number of arguments, and that before the limit on the depth of calls. -/
def applyWithin (limit : Option Nat) : (budget : Nat) → Call
  | budget, .closure _ literal captured, args, span => fun m =>
      if literal.params.length ≠ args.length then
        Run.fail { cause := .wrongArgumentCount literal.params.length args.length } span m
      else match limit.filter (· ≤ m.depth) with
        | some exceeded => Run.fail { cause := .callDepthExceeded exceeded } span m
        | none =>
            match budget with
            | 0 => none
            | budget + 1 =>
                let (scope, m) := m.newScope (some captured)
                let m := m.bindAll scope (literal.params.zip args)
                match literal.body.eval (applyWithin limit budget) scope
                    { m with depth := m.depth + 1 } with
                | none => none
                | some (value, m) => some (value.unwrapReturn, { m with depth := m.depth - 1 })
  | _, callee, _, span => Run.fail { cause := .notAFunction callee.type } span

/-- A node that can be evaluated on its own. -/
inductive Node where
  | program (p : Program)
  | block (b : Block)
  | statement (t : Stmt)
  | expression (e : Expr)

/-- The value of a node in a scope. A pending `return` ends at the end of a program. -/
def Node.eval (call : Call) (scope : ScopeId) : Node → Run Value
  | .program p => do
      let value ← Stmt.evalAll call scope .null p.statements
      return value.unwrapReturn
  | .block b => b.eval call scope
  | .statement t => t.eval call scope
  | .expression e => e.eval call scope

def defaultLimit : Option Nat := some 10000

/-- The budget of nested calls under a limit. Without a limit it exceeds what any memory holds. -/
def callBudget (limit : Option Nat) : Nat := limit.getD (Nat.pow 2 62)

/-- Run a computation to its end. A spent budget is reported like an exceeded limit. -/
def Machine.finish (m : Machine) (limit : Option Nat) (run : Run Value) : Value × Machine :=
  match run m with
  | some result => result
  | none =>
      let (cell, m) := m.newCell
      (.error cell { cause := .callDepthExceeded (callBudget limit) }, m)

def Machine.evaluate (m : Machine) (limit : Option Nat) (node : Node) (scope : ScopeId) :
    Value × Machine :=
  m.finish limit (node.eval (applyWithin limit (callBudget limit)) scope)

def Machine.apply (m : Machine) (limit : Option Nat) (function : Value) (args : List Value)
    (span : Span) : Value × Machine :=
  m.finish limit (applyWithin limit (callBudget limit) function args span)

end TreeWalk
