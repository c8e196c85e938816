import TreeWalk.Proofs.Calls
import TreeWalk.Proofs.Walk

/-! # Watched evaluation

Watched evaluation does what evaluation does and tells, beside the result, how many function calls
ran at once at most. The count is taken whenever a call starts: it is the number of calls that are
running then, the new one included, and zero if none starts.
-/

namespace TreeWalk

/-- A result and the greatest number of calls that ran at once on the way to it. -/
structure Observed where
  value : Value
  peak : Nat
  machine : Machine

def Observed.result (seen : Observed) : Value × Machine := (seen.value, seen.machine)

abbrev Watched := Machine → Option Observed

abbrev WatchedCall := Value → List Value → Span → Watched

namespace Watched

def quiet (run : Run Value) : Watched := fun m =>
  (run m).map fun result => ⟨result.1, 0, result.2⟩

/-- Go on with the value of a computation, unless it is a signal. -/
def andThen (first : Watched) (next : Value → Watched) : Watched := fun m =>
  (first m).bind fun seen =>
    if seen.value.isSignal then some seen
    else (next seen.value seen.machine).map fun later =>
      { later with peak := max seen.peak later.peak }

def settle (watched : Watched) : Watched := fun m =>
  (watched m).map fun seen => { seen with value := seen.value.unwrapReturn }

def erase (watched : Watched) : Run Value := fun m => (watched m).map Observed.result

end Watched

def watchSteps (call : WatchedCall) (scope : ScopeId) : Steps Watched :=
  let steps := runSteps (fun function args span => (call function args span).erase) scope
  { value := fun v => .quiet (steps.value v)
    andThen := Watched.andThen
    ident := fun name span => .quiet (steps.ident name span)
    unary := fun op v span => .quiet (steps.unary op v span)
    binary := fun op v w span => .quiet (steps.binary op v w span)
    closure := fun literal => .quiet (steps.closure literal)
    call := call
    bind := fun name v => .quiet (steps.bind name v)
    ret := fun v => .quiet (steps.ret v)
    settle := Watched.settle }

/-- Behind a call that started with `depth` calls running: it was one more. -/
def Observed.leave (depth : Nat) (inner : Observed) : Observed :=
  ⟨inner.value.unwrapReturn, max (depth + 1) inner.peak, inner.machine.leave⟩

/-- Apply a function and watch. A call that is refused starts nothing. -/
def watchWithin (limit : Option Nat) : (budget : Nat) → WatchedCall
  | budget + 1, .closure cell literal captured, args, span => fun m =>
      if literal.params.length = args.length ∧ ∀ most ∈ limit, m.depth < most then
        (literal.body.walk (watchSteps (watchWithin limit budget) m.scopes.size)
          (m.enter captured (literal.params.zip args))).map (Observed.leave m.depth)
      else Watched.quiet (applyWithin limit (budget + 1) (.closure cell literal captured) args span) m
  | budget, callee, args, span => .quiet (applyWithin limit budget callee args span)

def Node.watch (limit : Option Nat) (budget : Nat) (scope : ScopeId) (node : Node) : Watched :=
  node.walk (watchSteps (watchWithin limit budget) scope)

section Equations

variable {limit : Option Nat} {budget : Nat} {cell : CellId} {literal : FunctionLiteral}
  {captured : ScopeId} {args : List Value} {span : Span} {m : Machine}

theorem watchWithin_enter (count : literal.params.length = args.length)
    (below : ∀ most ∈ limit, m.depth < most) :
    watchWithin limit (budget + 1) (.closure cell literal captured) args span m =
      (literal.body.walk (watchSteps (watchWithin limit budget) m.scopes.size)
        (m.enter captured (literal.params.zip args))).map (Observed.leave m.depth) := by
  exact if_pos ⟨count, below⟩

theorem watchWithin_zero (callee : Value) :
    watchWithin limit 0 callee args span = .quiet (applyWithin limit 0 callee args span) := by
  cases callee <;> rfl

theorem watchWithin_refused {callee : Value} (refused : ¬ Enters limit m args callee) :
    watchWithin limit budget callee args span m =
      Watched.quiet (applyWithin limit budget callee args span) m := by
  cases budget with
  | zero => rw [watchWithin_zero]
  | succ budget =>
      cases callee with
      | closure cell literal captured =>
          refine if_neg ?_
          rintro ⟨count, below⟩
          exact refused ⟨cell, literal, captured, rfl, count, below⟩
      | _ => rfl

end Equations

section Erasing

variable {watched : Watched} {run : Run Value}

theorem erase_quiet (run : Run Value) : (Watched.quiet run).erase = run := by
  funext m
  simp only [Watched.erase, Watched.quiet]
  cases run m with
  | none => rfl
  | some result => rfl

theorem erase_andThen {f : Value → Watched} {g : Value → Run Value} (first : watched.erase = run)
    (next : ∀ v, v.isSignal = false → (f v).erase = g v) :
    (watched.andThen f).erase = Run.plainly run g := by
  subst first
  funext m
  cases seen : watched m with
  | none =>
      have spent : watched.erase m = none := by rw [Watched.erase, seen, Option.map_none]
      rw [Run.plainly_none spent]
      simp only [Watched.erase, Watched.andThen, seen, Option.bind_none, Option.map_none]
  | some first =>
      have ran : watched.erase m = some (first.value, first.machine) := by
        rw [Watched.erase, seen]
        rfl
      cases kind : first.value.isSignal with
      | true =>
          rw [Run.plainly_signal ran kind]
          simp only [Watched.erase, Watched.andThen, seen, Option.bind_some, kind, if_true]
          rfl
      | false =>
          rw [Run.plainly_plain ran kind, ← next first.value kind]
          simp only [Watched.erase, Watched.andThen, seen, Option.bind_some, kind,
            Bool.false_eq_true, if_false, Option.map_map]
          rfl

theorem erase_settle (call : Call) (scope : ScopeId) (same : watched.erase = run) :
    watched.settle.erase = (runSteps call scope).settle run := by
  subst same
  funext m
  rw [runSteps_settle]
  simp only [Watched.erase, Watched.settle, Option.map_map]
  rfl

theorem erases_steps (call : WatchedCall) (scope : ScopeId) :
    Steps.Related (fun watched run => watched.erase = run) (watchSteps call scope)
      (runSteps (fun function args span => (call function args span).erase) scope) where
  value _ := erase_quiet (pure _)
  andThen := erase_andThen
  ident _ _ := erase_quiet _
  unary _ _ _ _ := erase_quiet _
  binary _ _ _ _ _ _ := erase_quiet _
  closure literal := erase_quiet (Run.closure literal scope)
  call _ _ _ _ _ := rfl
  bind name v _ := erase_quiet (do Run.bindName scope name v; return .null)
  ret _ := erase_quiet (Run.ret _)
  settle := erase_settle _ scope

theorem erase_watchWithin (limit : Option Nat) (budget : Nat) :
    (fun function args span => (watchWithin limit budget function args span).erase) =
      applyWithin limit budget := by
  suffices same : (fun budget function args span =>
      (watchWithin limit budget function args span).erase) = applyWithin limit from
    congrFun same budget
  refine eq_applyWithin ?refused ?spent ?entered
  case refused =>
    intro budget function args span m refused
    rw [← congrFun (erase_quiet (applyWithin limit budget function args span)) m, Watched.erase,
      watchWithin_refused refused]
    rfl
  case spent =>
    intro function args span
    rw [watchWithin_zero, erase_quiet]
  case entered =>
    intro budget cell literal captured args span m count below
    rw [← literal.body.walk_related (erases_steps (watchWithin limit budget) m.scopes.size)]
    simp only [Watched.erase, watchWithin_enter count below, Option.map_map]
    rfl

theorem Node.erase_watch (limit : Option Nat) (budget : Nat) (scope : ScopeId) (node : Node) :
    (node.watch limit budget scope).erase = node.eval (applyWithin limit budget) scope := by
  have erased := node.walk_related (erases_steps (watchWithin limit budget) scope)
  rw [erase_watchWithin, ← Node.eval_eq_walk] at erased
  exact erased

end Erasing

end TreeWalk
