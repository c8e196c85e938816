import TreeWalk.Proofs.Walk

/-! # A reference evaluator with exceptions

Here `return` and failures are exceptions: they are raised where they arise and nothing between
there and the place that catches them takes part. A call and a whole program catch `return`, and
nothing catches a failure. No value of this evaluator is a signal, so none is ever tested for being
one.

A raised exception takes a cell of the machine, as every created value does. The number of running
calls is no part of the state: a call is told how many more may run at once.
-/

namespace TreeWalk

/-- What can be raised. -/
inductive Signal where
  | returned (cell : CellId) (value : Value)
  | failed (cell : CellId) (failure : Failure)

/-- A computation on a machine that may raise a signal. -/
abbrev Raising := ExceptT Signal (StateM Machine)

/-- How such a computation ends. -/
abbrev Ending := Except Signal Value

/-- The ending behind the place where `return` is caught. -/
def Ending.settled : Ending → Ending
  | .error (.returned _ value) => .ok value
  | ending => ending

namespace Raising

def fail (failure : Failure) (span : Span) : Raising Value := do
  let cell ← modifyGet Machine.newCell
  throw (.failed cell (failure.withSpan span))

def ret (value : Value) : Raising Value := do
  let cell ← modifyGet Machine.newCell
  throw (.returned cell value)

def closure (literal : FunctionLiteral) (scope : ScopeId) : Raising Value := do
  let cell ← modifyGet Machine.newCell
  return .closure cell literal scope

def ident (scope : ScopeId) (name : String) (span : Span) : Raising Value := do
  match (← get).lookup scope name with
  | some value => return value
  | none => fail { cause := .identifierNotFound name } span

def operator (result : Except Failure Value) (span : Span) : Raising Value :=
  match result with
  | .ok value => return value
  | .error failure => fail failure span

def bindName (scope : ScopeId) (name : String) (value : Value) : Raising Value := do
  modify (Machine.bind · scope name value)
  return .null

/-- Finish with the value of a raised `return`. -/
def catchReturn (body : Raising Value) : Raising Value :=
  tryCatch body fun signal =>
    match signal with
    | .returned _ value => return value
    | .failed cell failure => throw (.failed cell failure)

variable {m mid : Machine}

theorem bind_ok {raising : Raising Value} {v : Value} (ran : raising.run m = (.ok v, mid))
    (next : Value → Raising Value) : (raising >>= next).run m = (next v).run mid := by
  change (StateT.bind raising.run (ExceptT.bindCont next)) m = (next v).run mid
  simp only [StateT.bind, ran]
  rfl

theorem bind_error {raising : Raising Value} {signal : Signal}
    (ran : raising.run m = (.error signal, mid)) (next : Value → Raising Value) :
    (raising >>= next).run m = (.error signal, mid) := by
  change (StateT.bind raising.run (ExceptT.bindCont next)) m = (.error signal, mid)
  simp only [StateT.bind, ran]
  rfl

theorem ident_run (scope : ScopeId) (name : String) (span : Span) :
    (ident scope name span).run m =
      match m.lookup scope name with
      | some value => (.ok value, m)
      | none => (fail { cause := .identifierNotFound name } span).run m := by
  change (match m.lookup scope name with
    | some value => return value
    | none => fail { cause := .identifierNotFound name } span : Raising Value).run m = _
  cases m.lookup scope name with
  | some value => rfl
  | none => rfl

theorem catchReturn_run {body : Raising Value} {ending : Ending}
    (ran : body.run m = (ending, mid)) :
    (catchReturn body).run m = (ending.settled, mid) := by
  simp only [ExceptT.run] at ran
  simp only [catchReturn, tryCatch, tryCatchThe, MonadExceptOf.tryCatch, ExceptT.tryCatch,
    ExceptT.mk, ExceptT.run, bind, StateT.bind, ran]
  rcases ending with (⟨cell, value⟩ | ⟨cell, failure⟩) | value <;> rfl

end Raising

abbrev RaisingCall := Value → List Value → Span → Raising Value

mutual

def Expr.reference (call : RaisingCall) (scope : ScopeId) : Expr → Raising Value
  | .int _ value => return .int value
  | .bool _ value => return .bool value
  | .ident span name => Raising.ident scope name span
  | .unary span op operand => do
      let value ← operand.reference call scope
      Raising.operator (op.operate value) span
  | .binary span op left right => do
      let a ← left.reference call scope
      let b ← right.reference call scope
      Raising.operator (op.operate a b) span
  | .cond _ condition consequence none => do
      let value ← condition.reference call scope
      if value.isTruthy then consequence.reference call scope else return .null
  | .cond _ condition consequence (some alternative) => do
      let value ← condition.reference call scope
      if value.isTruthy then consequence.reference call scope
      else alternative.reference call scope
  | .fn _ literalSpan params body => Raising.closure ⟨params, body, literalSpan⟩ scope
  | .call span callee args => do
      let function ← callee.reference call scope
      let values ← Expr.referenceAll call scope args
      call function values span

def Expr.referenceAll (call : RaisingCall) (scope : ScopeId) : List Expr → Raising (List Value)
  | [] => return []
  | e :: es => do
      let value ← e.reference call scope
      let values ← Expr.referenceAll call scope es
      return value :: values

def Stmt.reference (call : RaisingCall) (scope : ScopeId) : Stmt → Raising Value
  | .expr _ value => value.reference call scope
  | .bind _ name value => do
      let value ← value.reference call scope
      Raising.bindName scope name value
  | .ret _ none => Raising.ret .null
  | .ret _ (some value) => do
      let value ← value.reference call scope
      Raising.ret value

def Stmt.referenceAll (call : RaisingCall) (scope : ScopeId) (last : Value) :
    List Stmt → Raising Value
  | [] => return last
  | t :: ts => do
      let value ← t.reference call scope
      Stmt.referenceAll call scope value ts

def Block.reference (call : RaisingCall) (scope : ScopeId) : Block → Raising Value
  | .mk _ statements => Stmt.referenceAll call scope .null statements

end

/-- Apply a function where `room` more calls may run at once under the limit. -/
def referenceCall (limit : Nat) : (room : Nat) → RaisingCall
  | room, .closure _ literal captured, args, span => do
      if literal.params.length ≠ args.length then
        Raising.fail { cause := .wrongArgumentCount literal.params.length args.length } span
      else match room with
        | 0 => Raising.fail { cause := .callDepthExceeded limit } span
        | room + 1 => do
            let scope ← modifyGet (Machine.newScope · (some captured))
            modify (Machine.bindAll · scope (literal.params.zip args))
            Raising.catchReturn (literal.body.reference (referenceCall limit room) scope)
  | _, callee, _, span => Raising.fail { cause := .notAFunction callee.type } span

def Node.reference (call : RaisingCall) (scope : ScopeId) : Node → Raising Value
  | .program p => Raising.catchReturn (Stmt.referenceAll call scope .null p.statements)
  | .block b => b.reference call scope
  | .statement t => t.reference call scope
  | .expression e => e.reference call scope

/-- Evaluate a node by exceptions, on a machine where some calls are running already. -/
def Machine.reference (m : Machine) (limit : Nat) (node : Node) (scope : ScopeId) :
    Ending × Machine :=
  (node.reference (referenceCall limit (limit - m.depth)) scope).run m

def referenceSteps (call : RaisingCall) (scope : ScopeId) : Steps (Raising Value) where
  value := pure
  andThen := bind
  ident := Raising.ident scope
  unary op value span := Raising.operator (op.operate value) span
  binary op a b span := Raising.operator (op.operate a b) span
  closure literal := Raising.closure literal scope
  call := call
  bind := Raising.bindName scope
  ret := Raising.ret
  settle := Raising.catchReturn

mutual

theorem Expr.reference_eq_walk (call : RaisingCall) (scope : ScopeId) :
    (e : Expr) → e.reference call scope = e.walk (referenceSteps call scope)
  | .int _ _ | .bool _ _ | .ident _ _ | .fn _ _ _ _ => rfl
  | .unary span op operand => by
      simp only [Expr.reference, Expr.walk, operand.reference_eq_walk call scope]
      rfl
  | .binary span op left right => by
      simp only [Expr.reference, Expr.walk, left.reference_eq_walk call scope,
        right.reference_eq_walk call scope]
      rfl
  | .cond _ condition consequence none => by
      simp only [Expr.reference, Expr.walk, condition.reference_eq_walk call scope,
        consequence.reference_eq_walk call scope]
      rfl
  | .cond _ condition consequence (some alternative) => by
      simp only [Expr.reference, Expr.walk, condition.reference_eq_walk call scope,
        consequence.reference_eq_walk call scope, alternative.reference_eq_walk call scope]
      rfl
  | .call span callee args => by
      simp only [Expr.reference, Expr.walk, callee.reference_eq_walk call scope,
        ← Expr.referenceAll_eq_walkAll call scope args]
      rfl

theorem Expr.referenceAll_eq_walkAll (call : RaisingCall) (scope : ScopeId) :
    (es : List Expr) → {next : List Value → Raising Value} →
      Expr.referenceAll call scope es >>= next = Expr.walkAll (referenceSteps call scope) es next
  | [], _ => by
      simp only [Expr.referenceAll, pure_bind]
      rfl
  | e :: es, _ => by
      simp only [Expr.referenceAll, Expr.walkAll, e.reference_eq_walk call scope,
        ← Expr.referenceAll_eq_walkAll call scope es, bind_assoc, pure_bind]
      rfl

theorem Stmt.reference_eq_walk (call : RaisingCall) (scope : ScopeId) :
    (t : Stmt) → t.reference call scope = t.walk (referenceSteps call scope)
  | .expr _ value => value.reference_eq_walk call scope
  | .bind _ name value => by
      simp only [Stmt.reference, Stmt.walk, value.reference_eq_walk call scope]
      rfl
  | .ret _ none => rfl
  | .ret _ (some value) => by
      simp only [Stmt.reference, Stmt.walk, value.reference_eq_walk call scope]
      rfl

theorem Stmt.referenceAll_eq_walkAll (call : RaisingCall) (scope : ScopeId) (last : Value) :
    (ts : List Stmt) →
      Stmt.referenceAll call scope last ts = Stmt.walkAll (referenceSteps call scope) last ts
  | [] => rfl
  | t :: ts => by
      simp only [Stmt.referenceAll, Stmt.walkAll, t.reference_eq_walk call scope,
        fun value => Stmt.referenceAll_eq_walkAll call scope value ts]
      rfl

theorem Block.reference_eq_walk (call : RaisingCall) (scope : ScopeId) :
    (b : Block) → b.reference call scope = b.walk (referenceSteps call scope)
  | .mk _ statements => Stmt.referenceAll_eq_walkAll call scope .null statements

end

theorem Node.reference_eq_walk (call : RaisingCall) (scope : ScopeId) (node : Node) :
    node.reference call scope = node.walk (referenceSteps call scope) := by
  cases node with
  | program p =>
      simp only [Node.reference, Node.walk, Stmt.referenceAll_eq_walkAll]
      rfl
  | block b => exact b.reference_eq_walk call scope
  | statement t => exact t.reference_eq_walk call scope
  | expression e => exact e.reference_eq_walk call scope

end TreeWalk
