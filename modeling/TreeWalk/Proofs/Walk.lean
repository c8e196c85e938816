import TreeWalk.Evaluator

/-! # The walk over a tree

Evaluation visits the nodes of a tree in one fixed order. What happens at each of them is a matter
of the steps that the walk is given: evaluation is the walk whose steps run on a machine and pass
signals on as values, and other steps give other readings of the same tree.

A relation between two sets of steps carries over to the walks of every tree. Facts about
evaluation are obtained from this one induction by saying what each step does.
-/

namespace TreeWalk

/-- What the steps of a walk do. -/
structure Steps (α : Type) where
  value : Value → α
  /-- Go on with the value of a part. -/
  andThen : α → (Value → α) → α
  ident : String → Span → α
  unary : UnaryOp → Value → Span → α
  binary : BinaryOp → Value → Value → Span → α
  closure : FunctionLiteral → α
  call : Value → List Value → Span → α
  bind : String → Value → α
  ret : Value → α
  /-- End a pending `return`. -/
  settle : α → α

mutual

def Expr.walk (s : Steps α) : Expr → α
  | .int _ value => s.value (.int value)
  | .bool _ value => s.value (.bool value)
  | .ident span name => s.ident name span
  | .unary span op operand => s.andThen (operand.walk s) fun value => s.unary op value span
  | .binary span op left right =>
      s.andThen (left.walk s) fun a => s.andThen (right.walk s) fun b => s.binary op a b span
  | .cond _ condition consequence none =>
      s.andThen (condition.walk s) fun value =>
        if value.isTruthy then consequence.walk s else s.value .null
  | .cond _ condition consequence (some alternative) =>
      s.andThen (condition.walk s) fun value =>
        if value.isTruthy then consequence.walk s else alternative.walk s
  | .fn _ literalSpan params body => s.closure ⟨params, body, literalSpan⟩
  | .call span callee args =>
      s.andThen (callee.walk s) fun function =>
        Expr.walkAll s args fun values => s.call function values span

def Expr.walkAll (s : Steps α) : List Expr → (List Value → α) → α
  | [], next => next []
  | e :: es, next =>
      s.andThen (e.walk s) fun value => Expr.walkAll s es fun values => next (value :: values)

def Stmt.walk (s : Steps α) : Stmt → α
  | .expr _ value => value.walk s
  | .bind _ name value => s.andThen (value.walk s) (s.bind name)
  | .ret _ none => s.ret .null
  | .ret _ (some value) => s.andThen (value.walk s) s.ret

/-- Walk some statements, behind one whose value was `last`. -/
def Stmt.walkAll (s : Steps α) (last : Value) : List Stmt → α
  | [] => s.value last
  | t :: ts => s.andThen (t.walk s) fun value => Stmt.walkAll s value ts

def Block.walk (s : Steps α) : Block → α
  | .mk _ statements => Stmt.walkAll s .null statements

end

def Node.walk (s : Steps α) : Node → α
  | .program p => s.settle (Stmt.walkAll s .null p.statements)
  | .block b => b.walk s
  | .statement t => t.walk s
  | .expression e => e.walk s

/-- The steps of two walks are related. Only plain values are handed from one step to the next. -/
structure Steps.Related (R : α → β → Prop) (s : Steps α) (t : Steps β) : Prop where
  value : ∀ {v}, v.isSignal = false → R (s.value v) (t.value v)
  andThen : ∀ {a b f g}, R a b → (∀ v, v.isSignal = false → R (f v) (g v)) →
    R (s.andThen a f) (t.andThen b g)
  ident : ∀ name span, R (s.ident name span) (t.ident name span)
  unary : ∀ op span {v}, v.isSignal = false → R (s.unary op v span) (t.unary op v span)
  binary : ∀ op span {v w}, v.isSignal = false → w.isSignal = false →
    R (s.binary op v w span) (t.binary op v w span)
  closure : ∀ literal, R (s.closure literal) (t.closure literal)
  call : ∀ span {function args}, function.isSignal = false → (∀ v ∈ args, v.isSignal = false) →
    R (s.call function args span) (t.call function args span)
  bind : ∀ name {v}, v.isSignal = false → R (s.bind name v) (t.bind name v)
  ret : ∀ {v}, v.isSignal = false → R (s.ret v) (t.ret v)
  settle : ∀ {a b}, R a b → R (s.settle a) (t.settle b)

section Related

variable {R : α → β → Prop} {s : Steps α} {t : Steps β}

mutual

theorem Expr.walk_related (related : Steps.Related R s t) : (e : Expr) → R (e.walk s) (e.walk t)
  | .int _ _ => related.value rfl
  | .bool _ _ => related.value rfl
  | .ident span name => related.ident name span
  | .unary span op operand =>
      related.andThen (operand.walk_related related) fun _ plain => related.unary op span plain
  | .binary span op left right =>
      related.andThen (left.walk_related related) fun _ plainLeft =>
        related.andThen (right.walk_related related) fun _ plainRight =>
          related.binary op span plainLeft plainRight
  | .cond _ condition consequence none =>
      related.andThen (condition.walk_related related) fun value _ => by
        cases value.isTruthy with
        | true => exact consequence.walk_related related
        | false => exact related.value rfl
  | .cond _ condition consequence (some alternative) =>
      related.andThen (condition.walk_related related) fun value _ => by
        cases value.isTruthy with
        | true => exact consequence.walk_related related
        | false => exact alternative.walk_related related
  | .fn _ literalSpan params body => related.closure ⟨params, body, literalSpan⟩
  | .call span callee args =>
      related.andThen (callee.walk_related related) fun _ plain =>
        Expr.walkAll_related related args fun _ plainArgs => related.call span plain plainArgs

theorem Expr.walkAll_related (related : Steps.Related R s t) :
    (es : List Expr) → {f : List Value → α} → {g : List Value → β} →
      (∀ values, (∀ v ∈ values, v.isSignal = false) → R (f values) (g values)) →
      R (Expr.walkAll s es f) (Expr.walkAll t es g)
  | [], _, _, next => next [] (fun _ h => absurd h List.not_mem_nil)
  | e :: es, _, _, next =>
      related.andThen (e.walk_related related) fun _ plain =>
        Expr.walkAll_related related es fun _ plainMore =>
          next _ (List.forall_mem_cons.mpr ⟨plain, plainMore⟩)

theorem Stmt.walk_related (related : Steps.Related R s t) : (x : Stmt) → R (x.walk s) (x.walk t)
  | .expr _ value => value.walk_related related
  | .bind _ name value =>
      related.andThen (value.walk_related related) fun _ plain => related.bind name plain
  | .ret _ none => related.ret rfl
  | .ret _ (some value) =>
      related.andThen (value.walk_related related) fun _ plain => related.ret plain

theorem Stmt.walkAll_related (related : Steps.Related R s t) {last : Value}
    (plain : last.isSignal = false) :
    (xs : List Stmt) → R (Stmt.walkAll s last xs) (Stmt.walkAll t last xs)
  | [] => related.value plain
  | x :: xs =>
      related.andThen (x.walk_related related) fun _ plainHead =>
        Stmt.walkAll_related related plainHead xs

theorem Block.walk_related (related : Steps.Related R s t) : (b : Block) → R (b.walk s) (b.walk t)
  | .mk _ statements => Stmt.walkAll_related related rfl statements

end

theorem Node.walk_related (related : Steps.Related R s t) (node : Node) :
    R (node.walk s) (node.walk t) := by
  cases node with
  | program p => exact related.settle (Stmt.walkAll_related related rfl p.statements)
  | block b => exact b.walk_related related
  | statement x => exact x.walk_related related
  | expression e => exact e.walk_related related

end Related

/-- The steps of evaluation in a scope. -/
def runSteps (call : Call) (scope : ScopeId) : Steps (Run Value) where
  value := pure
  andThen := Run.plainly
  ident name span := do
    match ← Run.lookup scope name with
    | some value => pure value
    | none => Run.fail { cause := .identifierNotFound name } span
  unary op value span := Run.operator (op.operate value) span
  binary op a b span := Run.operator (op.operate a b) span
  closure literal := Run.closure literal scope
  call := call
  bind name value := do
    Run.bindName scope name value
    return .null
  ret := Run.ret
  settle run := do
    let value ← run
    return value.unwrapReturn

section Running

variable {call : Call} {scope : ScopeId} {m mid : Machine} {run : Run Value}
  {next : Value → Run Value} {v : Value}

theorem Run.plainly_none (spent : run m = none) : Run.plainly run next m = none := by
  change (run m).bind _ = none
  rw [spent]
  rfl

theorem Run.plainly_signal (ran : run m = some (v, mid)) (signal : v.isSignal = true) :
    Run.plainly run next m = some (v, mid) := by
  change (run m).bind _ = some (v, mid)
  rw [ran]
  simp only [Option.bind_some, signal, if_true]
  rfl

theorem Run.plainly_plain (ran : run m = some (v, mid)) (plain : v.isSignal = false) :
    Run.plainly run next m = next v mid := by
  change (run m).bind _ = next v mid
  rw [ran]
  simp only [Option.bind_some, plain, Bool.false_eq_true, if_false]

theorem runSteps_ident (name : String) (span : Span) :
    (runSteps call scope).ident name span m =
      match m.lookup scope name with
      | some value => some (value, m)
      | none => Run.fail { cause := .identifierNotFound name } span m := by
  change (match m.lookup scope name with
    | some value => pure value
    | none => Run.fail { cause := .identifierNotFound name } span : Run Value) m = _
  cases m.lookup scope name with
  | some value => rfl
  | none => rfl

theorem runSteps_settle :
    (runSteps call scope).settle run m = (run m).map fun result =>
      (result.1.unwrapReturn, result.2) := by
  change (run m).bind _ = _
  cases run m with
  | none => rfl
  | some result => rfl

end Running

/-- The computation always ends, with as many calls running as before. -/
def Still (run : Run Value) : Prop := ∀ m, ∃ v m', run m = some (v, m') ∧ m'.depth = m.depth

theorem still_value (value : Value) : Still (pure value) := fun m => ⟨value, m, rfl, rfl⟩

theorem still_fail (failure : Failure) (span : Span) : Still (Run.fail failure span) :=
  fun _ => ⟨_, _, rfl, rfl⟩

theorem still_ret (value : Value) : Still (Run.ret value) := fun _ => ⟨_, _, rfl, rfl⟩

theorem still_closure (literal : FunctionLiteral) (scope : ScopeId) :
    Still (Run.closure literal scope) :=
  fun _ => ⟨_, _, rfl, rfl⟩

theorem still_bind (call : Call) (scope : ScopeId) (name : String) (value : Value) :
    Still ((runSteps call scope).bind name value) :=
  fun _ => ⟨_, _, rfl, rfl⟩

theorem still_operator (result : Except Failure Value) (span : Span) :
    Still (Run.operator result span) := by
  cases result with
  | ok value => exact still_value value
  | error failure => exact still_fail failure span

theorem still_ident (call : Call) (scope : ScopeId) (name : String) (span : Span) :
    Still ((runSteps call scope).ident name span) := by
  intro m
  rw [runSteps_ident]
  cases m.lookup scope name with
  | some value => exact ⟨value, m, rfl, rfl⟩
  | none => exact still_fail _ span m

mutual

theorem Expr.eval_eq_walk (call : Call) (scope : ScopeId) :
    (e : Expr) → e.eval call scope = e.walk (runSteps call scope)
  | .int _ _ | .bool _ _ | .ident _ _ | .fn _ _ _ _ => rfl
  | .unary span op operand => by
      simp only [Expr.eval, Expr.walk, operand.eval_eq_walk call scope]
      rfl
  | .binary span op left right => by
      simp only [Expr.eval, Expr.walk, left.eval_eq_walk call scope,
        right.eval_eq_walk call scope]
      rfl
  | .cond _ condition consequence none => by
      simp only [Expr.eval, Expr.walk, condition.eval_eq_walk call scope,
        consequence.eval_eq_walk call scope]
      rfl
  | .cond _ condition consequence (some alternative) => by
      simp only [Expr.eval, Expr.walk, condition.eval_eq_walk call scope,
        consequence.eval_eq_walk call scope, alternative.eval_eq_walk call scope]
      rfl
  | .call span callee args => by
      simp only [Expr.eval, Expr.walk, callee.eval_eq_walk call scope,
        ← Expr.evalAll_eq_walkAll call scope args]
      rfl

theorem Expr.evalAll_eq_walkAll (call : Call) (scope : ScopeId) :
    (es : List Expr) → {next : List Value → Run Value} →
      (do match ← Expr.evalAll call scope es with
          | .ok values => next values
          | .error signal => return signal) = Expr.walkAll (runSteps call scope) es next
  | [], next => rfl
  | e :: es, next => by
      simp only [Expr.evalAll, Expr.walkAll, e.eval_eq_walk call scope,
        ← Expr.evalAll_eq_walkAll call scope es]
      change _ = Run.plainly _ _
      simp only [Run.plainly, bind_assoc]
      congr 1
      funext value
      cases value.isSignal with
      | true => simp only [if_true, pure_bind]
      | false =>
          simp only [Bool.false_eq_true, if_false, bind_assoc]
          congr 1
          funext outcome
          cases outcome with
          | ok values => simp only [pure_bind]
          | error signal => simp only [pure_bind]

theorem Stmt.eval_eq_walk (call : Call) (scope : ScopeId) :
    (t : Stmt) → t.eval call scope = t.walk (runSteps call scope)
  | .expr _ value => value.eval_eq_walk call scope
  | .bind _ name value => by
      simp only [Stmt.eval, Stmt.walk, value.eval_eq_walk call scope]
      rfl
  | .ret _ none => rfl
  | .ret _ (some value) => by
      simp only [Stmt.eval, Stmt.walk, value.eval_eq_walk call scope]
      rfl

theorem Stmt.evalAll_eq_walkAll (call : Call) (scope : ScopeId) (last : Value) :
    (ts : List Stmt) → Stmt.evalAll call scope last ts = Stmt.walkAll (runSteps call scope) last ts
  | [] => rfl
  | t :: ts => by
      simp only [Stmt.evalAll, Stmt.walkAll, t.eval_eq_walk call scope,
        fun value => Stmt.evalAll_eq_walkAll call scope value ts]
      rfl

theorem Block.eval_eq_walk (call : Call) (scope : ScopeId) :
    (b : Block) → b.eval call scope = b.walk (runSteps call scope)
  | .mk _ statements => Stmt.evalAll_eq_walkAll call scope .null statements

end

theorem Node.eval_eq_walk (call : Call) (scope : ScopeId) (node : Node) :
    node.eval call scope = node.walk (runSteps call scope) := by
  cases node with
  | program p => simp only [Node.eval, Node.walk, Stmt.evalAll_eq_walkAll]; rfl
  | block b => exact b.eval_eq_walk call scope
  | statement t => exact t.eval_eq_walk call scope
  | expression e => exact e.eval_eq_walk call scope

end TreeWalk
