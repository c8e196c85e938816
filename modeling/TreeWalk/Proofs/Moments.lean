import TreeWalk.Proofs.Calls
import TreeWalk.Proofs.Walk

/-! # The moments of an evaluation

Traced evaluation does what evaluation does and lists, in order, the moments at which an operator is
applied, a name is bound or a value is called, each with the machine as it is just before. The list
is kept when the budget of nested calls is spent, so that what holds at every moment under every
budget also holds along evaluations that never end.
-/

namespace TreeWalk

/-- What is about to be done. -/
inductive Action where
  | unary (op : UnaryOp) (operand : Value)
  | binary (op : BinaryOp) (left right : Value)
  | bind (scope : ScopeId) (name : String) (value : Value)
  | call (function : Value) (args : List Value)

structure Moment where
  machine : Machine
  action : Action

/-- The moments of a computation and what it ends with, unless its budget is spent. -/
structure Trace where
  moments : List Moment
  result : Option (Value × Machine)

abbrev Traced := Machine → Trace

abbrev TracedCall := Value → List Value → Span → Traced

namespace Traced

def quiet (run : Run Value) : Traced := fun m => ⟨[], run m⟩

/-- Put a moment in front of a computation. -/
def behind (action : Action) (traced : Traced) : Traced := fun m =>
  { traced m with moments := ⟨m, action⟩ :: (traced m).moments }

/-- Go on with the value of a computation, unless it is a signal. -/
def andThen (first : Traced) (next : Value → Traced) : Traced := fun m =>
  match (first m).result with
  | none => first m
  | some (value, mid) =>
      if value.isSignal then first m
      else ⟨(first m).moments ++ (next value mid).moments, (next value mid).result⟩

def map (f : Value × Machine → Value × Machine) (traced : Traced) : Traced := fun m =>
  { traced m with result := (traced m).result.map f }

def settle (traced : Traced) : Traced :=
  traced.map fun result => (result.1.unwrapReturn, result.2)

def erase (traced : Traced) : Run Value := fun m => (traced m).result

end Traced

def traceSteps (call : TracedCall) (scope : ScopeId) : Steps Traced :=
  let steps := runSteps (fun function args span => (call function args span).erase) scope
  { value := fun v => .quiet (steps.value v)
    andThen := Traced.andThen
    ident := fun name span => .quiet (steps.ident name span)
    unary := fun op v span => .behind (.unary op v) (.quiet (steps.unary op v span))
    binary := fun op v w span => .behind (.binary op v w) (.quiet (steps.binary op v w span))
    closure := fun literal => .quiet (steps.closure literal)
    call := fun function args span => .behind (.call function args) (call function args span)
    bind := fun name v => .behind (.bind scope name v) (.quiet (steps.bind name v))
    ret := fun v => .quiet (steps.ret v)
    settle := Traced.settle }

/-- Apply a function and trace. A call that is refused has no moments. -/
def traceWithin (limit : Option Nat) : (budget : Nat) → TracedCall
  | budget + 1, .closure cell literal captured, args, span => fun m =>
      if literal.params.length = args.length ∧ ∀ most ∈ limit, m.depth < most then
        Traced.map leaveCall (literal.body.walk (traceSteps (traceWithin limit budget) m.scopes.size))
          (m.enter captured (literal.params.zip args))
      else Traced.quiet (applyWithin limit (budget + 1) (.closure cell literal captured) args span) m
  | budget, callee, args, span => .quiet (applyWithin limit budget callee args span)

def Node.trace (limit : Option Nat) (budget : Nat) (scope : ScopeId) (node : Node) : Traced :=
  node.walk (traceSteps (traceWithin limit budget) scope)

section Equations

variable {limit : Option Nat} {budget : Nat} {cell : CellId} {literal : FunctionLiteral}
  {captured : ScopeId} {args : List Value} {span : Span} {m : Machine}

theorem traceWithin_enter (count : literal.params.length = args.length)
    (below : ∀ most ∈ limit, m.depth < most) :
    traceWithin limit (budget + 1) (.closure cell literal captured) args span m =
      Traced.map leaveCall (literal.body.walk (traceSteps (traceWithin limit budget) m.scopes.size))
        (m.enter captured (literal.params.zip args)) :=
  if_pos ⟨count, below⟩

theorem traceWithin_zero (callee : Value) :
    traceWithin limit 0 callee args span = .quiet (applyWithin limit 0 callee args span) := by
  cases callee <;> rfl

theorem traceWithin_refused {callee : Value} (refused : ¬ Enters limit m args callee) :
    traceWithin limit budget callee args span m =
      Traced.quiet (applyWithin limit budget callee args span) m := by
  cases budget with
  | zero => rw [traceWithin_zero]
  | succ budget =>
      cases callee with
      | closure cell literal captured =>
          refine if_neg ?_
          rintro ⟨count, below⟩
          exact refused ⟨cell, literal, captured, rfl, count, below⟩
      | _ => rfl

variable {first : Traced} {next : Value → Traced} {v : Value} {mid : Machine}

theorem Traced.andThen_none (spent : (first m).result = none) : first.andThen next m = first m := by
  simp only [Traced.andThen, spent]

theorem Traced.andThen_signal (ran : (first m).result = some (v, mid))
    (signal : v.isSignal = true) : first.andThen next m = first m := by
  simp only [Traced.andThen, ran, signal, if_true]

theorem Traced.andThen_plain (ran : (first m).result = some (v, mid))
    (plain : v.isSignal = false) :
    first.andThen next m =
      ⟨(first m).moments ++ (next v mid).moments, (next v mid).result⟩ := by
  simp only [Traced.andThen, ran, plain, Bool.false_eq_true, if_false]

end Equations

section Erasing

theorem Traced.erase_andThen {first : Traced} {run : Run Value} {f : Value → Traced}
    {g : Value → Run Value} (same : first.erase = run)
    (next : ∀ v, v.isSignal = false → (f v).erase = g v) :
    (first.andThen f).erase = Run.plainly run g := by
  subst same
  funext m
  cases ran : (first m).result with
  | none =>
      rw [Run.plainly_none ran, Traced.erase, Traced.andThen_none ran, ran]
  | some result =>
      obtain ⟨v, mid⟩ := result
      cases kind : v.isSignal with
      | true => rw [Run.plainly_signal ran kind, Traced.erase, Traced.andThen_signal ran kind, ran]
      | false =>
          rw [Run.plainly_plain ran kind, Traced.erase, Traced.andThen_plain ran kind,
            ← next v kind]
          rfl

theorem traces_steps (call : TracedCall) (scope : ScopeId) :
    Steps.Related (fun traced run => traced.erase = run) (traceSteps call scope)
      (runSteps (fun function args span => (call function args span).erase) scope) where
  value _ := rfl
  andThen := Traced.erase_andThen
  ident _ _ := rfl
  unary _ _ _ _ := rfl
  binary _ _ _ _ _ _ := rfl
  closure _ := rfl
  call _ _ _ _ _ := rfl
  bind _ _ _ := rfl
  ret _ := rfl
  settle same := by
    subst same
    funext m
    rw [runSteps_settle]
    rfl

theorem erase_traceWithin (limit : Option Nat) (budget : Nat) :
    (fun function args span => (traceWithin limit budget function args span).erase) =
      applyWithin limit budget := by
  suffices same : (fun budget function args span =>
      (traceWithin limit budget function args span).erase) = applyWithin limit from
    congrFun same budget
  refine eq_applyWithin ?refused ?spent ?entered
  case refused =>
    intro budget function args span m refused
    rw [Traced.erase, traceWithin_refused refused]
    rfl
  case spent =>
    intro function args span
    rw [traceWithin_zero]
    rfl
  case entered =>
    intro budget cell literal captured args span m count below
    rw [← literal.body.walk_related (traces_steps (traceWithin limit budget) m.scopes.size),
      Traced.erase, traceWithin_enter count below]
    rfl

theorem Node.erase_trace (limit : Option Nat) (budget : Nat) (scope : ScopeId) (node : Node) :
    (node.trace limit budget scope).erase = node.eval (applyWithin limit budget) scope := by
  have erased := node.walk_related (traces_steps (traceWithin limit budget) scope)
  rw [erase_traceWithin, ← Node.eval_eq_walk] at erased
  exact erased

end Erasing

end TreeWalk
