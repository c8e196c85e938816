import TreeWalk.Proofs.Bound
import TreeWalk.Proofs.Parts

/-! # Where failures come from

A failure is raised at one expression and keeps its span. If all expressions of a node and of the
functions that a machine binds are known, so is the expression that any failure points at, and it is
of the kind that raises failures of that cause.

Under a limit on the depth of calls the budget is never spent, so evaluation always has a result and
no failure is without a span.
-/

namespace TreeWalk

/-- Does evaluation of such an expression itself, not of its parts, fail for such a cause? -/
def Cause.raisedBy : Cause → Expr → Bool
  | .identifierNotFound name, .ident _ found => found = name
  | .notAFunction _, .call _ _ _ => true
  | .wrongArgumentCount _ _, .call _ _ _ => true
  | .callDepthExceeded _, .call _ _ _ => true
  | .typeMismatch _ op _, .binary _ found _ _ => found = op
  | .unknownBinary _ op _, .binary _ found _ _ => found = op
  | .divisionByZero, .binary _ .div _ _ => true
  | .integerOverflow "addition", .binary _ .add _ _ => true
  | .integerOverflow "subtraction", .binary _ .sub _ _ => true
  | .integerOverflow "multiplication", .binary _ .mul _ _ => true
  | .integerOverflow "division", .binary _ .div _ _ => true
  | .integerOverflow "negation", .unary _ .neg _ => true
  | .unknownUnary .neg _, .unary _ .neg _ => true
  | _, _ => false

/-- All expressions within the node satisfy the predicate. -/
def Node.All (known : Expr → Prop) (node : Node) : Prop :=
  ∀ e, Node.Within (.expression e) node → known e

/-- The value is made of known expressions: all those of a function, and the one that a failure
    points at, which raises such failures. -/
def Value.Grounded (known : Expr → Prop) : Value → Prop
  | .closure _ literal _ => Node.All known (.block literal.body)
  | .error _ failure =>
      ∃ e, known e ∧ failure.span = some e.span ∧ failure.cause.raisedBy e = true
  | .returned _ value => value.Grounded known
  | _ => True

/-- With `depth` calls running, the computation ends with a grounded value if the bound values are
    grounded, and leaves them so. -/
def Grounds (known : Expr → Prop) (depth : Nat) (run : Run Value) : Prop :=
  ∀ m : Machine, m.depth = depth → m.Binds (Value.Grounded known) →
    ∃ v m', run m = some (v, m') ∧ v.Grounded known ∧ m'.depth = depth ∧
      m'.Binds (Value.Grounded known)

theorem Node.All.child {known : Expr → Prop} {node child : Node} (all : node.All known)
    (member : child ∈ node.children) : child.All known :=
  fun e within => all e (within.tail member)

theorem Node.All.throughout {known : Expr → Prop} {node : Node} (all : node.All known) :
    Throughout (Node.All known) node :=
  fun _ partOf e within => all e (within.trans partOf.within)

def Value.failure? : Value → Option (CellId × Failure)
  | .error cell failure => some (cell, failure)
  | _ => none

theorem Value.eq_error_of_failure? {v : Value} {cell : CellId} {failure : Failure}
    (found : v.failure? = some (cell, failure)) : v = .error cell failure := by
  cases v <;> cases found
  rfl

theorem Value.grounded_scalar {known : Expr → Prop} {v : Value} (plain : v.isSignal = false)
    (noFunction : v.type ≠ .function) : v.Grounded known := by
  cases v with
  | closure => exact absurd rfl noFunction
  | error | returned => cases plain
  | _ => trivial

theorem Value.Grounded.unwrapReturn {known : Expr → Prop} {v : Value}
    (grounded : v.Grounded known) : v.unwrapReturn.Grounded known := by
  cases v <;> exact grounded

theorem Value.Grounded.imp {known known' : Expr → Prop} (more : ∀ e, known e → known' e)
    {v : Value} (grounded : v.Grounded known) : v.Grounded known' := by
  induction v with
  | closure => exact fun e within => more e (grounded e within)
  | error cell failure =>
      obtain ⟨e, here, pointed, raised⟩ := grounded
      exact ⟨e, more e here, pointed, raised⟩
  | returned cell value ih => exact ih grounded
  | _ => trivial

/-- An operator at this expression gives a scalar, or fails in a way that the expression raises. -/
def Explained (e : Expr) : Except Failure Value → Prop
  | .ok v => v.isSignal = false ∧ v.type ≠ .function
  | .error failure => failure.span = none ∧ failure.cause.raisedBy e = true

theorem explained_checked {e : Expr} {operation : String} (exact : Int)
    (raised : (Cause.integerOverflow operation).raisedBy e = true) :
    Explained e (checked operation exact) := by
  unfold checked
  split
  · exact ⟨rfl, nofun⟩
  · exact ⟨rfl, raised⟩

theorem explained_unary (span : Span) (op : UnaryOp) (operand : Expr) (v : Value) :
    Explained (.unary span op operand) (op.operate v) := by
  cases op with
  | not => exact ⟨rfl, nofun⟩
  | neg =>
      cases v with
      | int a => exact explained_checked _ rfl
      | _ => exact ⟨rfl, rfl⟩

theorem explained_onInts (span : Span) (op : BinaryOp) (left right : Expr) (a b : Int64) :
    Explained (.binary span op left right) (op.onInts a b) := by
  cases op with
  | add | sub | mul => exact explained_checked _ rfl
  | div =>
      simp only [BinaryOp.onInts]
      split
      · exact ⟨rfl, rfl⟩
      · exact explained_checked _ rfl
  | _ => exact ⟨rfl, nofun⟩

theorem explained_binary (span : Span) (op : BinaryOp) (left right : Expr) (v w : Value) :
    Explained (.binary span op left right) (op.operate v w) := by
  unfold BinaryOp.operate
  split
  · exact explained_onInts ..
  · split
    · exact ⟨rfl, nofun⟩
    · exact ⟨rfl, nofun⟩
    · split
      · exact ⟨rfl, decide_eq_true rfl⟩
      · exact ⟨rfl, decide_eq_true rfl⟩

section Steps

variable {known : Expr → Prop} {depth : Nat}

theorem grounds_value {v : Value} (grounded : v.Grounded known) : Grounds known depth (pure v) :=
  fun m same binds => ⟨v, m, rfl, grounded, same, binds⟩

theorem grounds_fail {failure : Failure} {e : Expr} (here : known e)
    (unplaced : failure.span = none) (raised : failure.cause.raisedBy e = true) :
    Grounds known depth (Run.fail failure e.span) := by
  intro m same binds
  refine ⟨_, _, rfl, ⟨e, here, ?_, raised⟩, same, binds.of_scopes rfl⟩
  simp [Failure.withSpan, unplaced]

theorem grounds_operator {result : Except Failure Value} {e : Expr} (here : known e)
    (explained : Explained e result) : Grounds known depth (Run.operator result e.span) := by
  cases result with
  | ok v => exact grounds_value (Value.grounded_scalar explained.1 explained.2)
  | error failure => exact grounds_fail here explained.1 explained.2

theorem grounds_ident (call : Call) (scope : ScopeId) {name : String} {span : Span}
    (here : known (.ident span name)) :
    Grounds known depth ((runSteps call scope).ident name span) := by
  intro m same binds
  rw [runSteps_ident]
  cases found : m.lookup scope name with
  | some v => exact ⟨v, m, rfl, binds.lookup found, same, binds⟩
  | none =>
      have raised : (Cause.identifierNotFound name).raisedBy (.ident span name) = true :=
        decide_eq_true rfl
      exact grounds_fail here rfl raised m same binds

theorem grounds_andThen {run : Run Value} {next : Value → Run Value}
    (first : Grounds known depth run)
    (later : ∀ v, v.Grounded known → Grounds known depth (next v)) :
    Grounds known depth (Run.plainly run next) := by
  intro m same binds
  obtain ⟨v, mid, ran, grounded, sameMid, bindsMid⟩ := first m same binds
  cases kind : v.isSignal with
  | true => exact ⟨v, mid, Run.plainly_signal ran kind, grounded, sameMid, bindsMid⟩
  | false =>
      rw [Run.plainly_plain ran kind]
      exact later v grounded mid sameMid bindsMid

theorem grounds_settle (call : Call) (scope : ScopeId) {run : Run Value}
    (body : Grounds known depth run) : Grounds known depth ((runSteps call scope).settle run) := by
  intro m same binds
  obtain ⟨v, m', ran, grounded, sameDepth, bindsLater⟩ := body m same binds
  rw [runSteps_settle, ran]
  exact ⟨_, _, rfl, grounded.unwrapReturn, sameDepth, bindsLater⟩

theorem keeps_grounds {call : Call} (scope : ScopeId)
    (calls : ∀ {span callee args function values}, known (.call span callee args) →
      function.Grounded known → (∀ v ∈ values, v.Grounded known) →
      Grounds known depth (call function values span)) :
    (runSteps call scope).Keeps (Grounds known depth) (Value.Grounded known) (Node.All known) where
  scalar plain noFunction := Value.grounded_scalar plain noFunction
  value grounded := grounds_value grounded
  andThen first later := grounds_andThen first later
  ident here := grounds_ident call scope (here _ .refl)
  unary here _ := grounds_operator (here _ .refl) (explained_unary ..)
  binary here _ _ := grounds_operator (here _ .refl) (explained_binary ..)
  closure here := fun _ same binds =>
    ⟨_, _, rfl, here.child List.mem_cons_self, same, binds.of_scopes rfl⟩
  call here groundedFunction groundedArgs := calls (here _ .refl) groundedFunction groundedArgs
  bind _ grounded := fun _ same binds => ⟨.null, _, rfl, trivial, same, binds.bind scope _ grounded⟩
  ret grounded := fun _ same binds => ⟨_, _, rfl, grounded, same, binds.of_scopes rfl⟩
  settle body := grounds_settle call scope body

theorem Cause.raisedBy_call {cause : Cause} (refuses : cause.refusesCall = true) (span : Span)
    (callee : Expr) (args : List Expr) : cause.raisedBy (.call span callee args) = true := by
  cases cause <;> first | rfl | cases refuses

/-- Calls under a limit, with a budget for all the calls that the limit allows. -/
theorem grounds_call {limit budget : Nat} (enough : limit ≤ depth + budget) {span : Span}
    {callee : Expr} {args : List Expr} {function : Value} {values : List Value}
    (here : known (.call span callee args)) (groundedFunction : function.Grounded known)
    (groundedArgs : ∀ v ∈ values, v.Grounded known) :
    Grounds known depth (applyWithin (some limit) budget function values span) := by
  induction budget using Nat.strongRecOn generalizing depth span callee args function values with
  | ind budget ih =>
      intro m same binds
      rcases applyWithin_refuses_or_enters (some limit) budget function values span m with
        ⟨cause, refuses, refused⟩ | ⟨cell, literal, captured, rfl, count, below⟩
      · rw [refused]
        exact grounds_fail here rfl (Cause.raisedBy_call refuses ..) m same binds
      · -- The limit lets the call in, so the budget is not spent.
        have room := below limit rfl
        obtain ⟨less, rfl⟩ : ∃ less, budget = less + 1 := ⟨budget - 1, by omega⟩
        have body : Grounds known (depth + 1)
            (literal.body.eval (applyWithin (some limit) less) m.scopes.size) := by
          rw [Block.eval_eq_walk]
          refine literal.body.walk_keeps (keeps_grounds _ ?_) (Node.All.throughout groundedFunction)
          intro span callee args function values here groundedFunction groundedArgs
          exact ih less (Nat.lt_succ_self _) (by omega) here groundedFunction groundedArgs
        obtain ⟨v, m', ran, grounded, deeper, bindsLater⟩ :=
          body (m.enter captured (literal.params.zip values)) (by simp [same])
            (binds.enter captured groundedArgs)
        rw [applyWithin_enter count below, ran]
        refine ⟨_, _, rfl, grounded.unwrapReturn, ?_, bindsLater.of_scopes rfl⟩
        simp [Machine.leave, deeper]

end Steps

/-- Evaluation under a limit, on a machine where no call is running. -/
theorem evaluate_grounded {known : Expr → Prop} {m : Machine} {node : Node} (limit : Nat)
    (scope : ScopeId) (idle : m.depth = 0) (binds : m.Binds (Value.Grounded known))
    (all : node.All known) :
    (m.evaluate (some limit) node scope).1.Grounded known ∧
      (m.evaluate (some limit) node scope).2.depth = 0 ∧
      (m.evaluate (some limit) node scope).2.Binds (Value.Grounded known) := by
  have grounds : Grounds known 0
      (node.eval (applyWithin (some limit) (callBudget (some limit))) scope) := by
    rw [Node.eval_eq_walk]
    refine node.walk_keeps (keeps_grounds scope ?_) all.throughout
    intro span callee args function values here groundedFunction groundedArgs
    exact grounds_call (Nat.le_add_left _ _) here groundedFunction groundedArgs
  obtain ⟨v, m', ran, grounded, sameDepth, bindsLater⟩ := grounds m idle binds
  simp only [Machine.evaluate, Machine.finish, ran]
  exact ⟨grounded, sameDepth, bindsLater⟩

end TreeWalk
