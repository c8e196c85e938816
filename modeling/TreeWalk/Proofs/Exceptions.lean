import TreeWalk.Proofs.Clean
import TreeWalk.Proofs.Reference

/-! # Signals are exceptions

Evaluation passes failures and pending returns on as values. On a machine that binds no signal this
agrees with the reference evaluator, which raises them: both end the same way and leave the same
machine behind.

The proof relates a computation to a raising one. They start from one machine, but for the number of
running calls, which the reference evaluator does not keep; the relation fixes it for the one and
leaves it alone for the other.
-/

namespace TreeWalk

/-- The value that evaluation has in the place of an ending. -/
def Ending.value : Ending → Value
  | .ok value => value
  | .error (.returned cell value) => .returned cell value
  | .error (.failed cell failure) => .error cell failure

def Ending.Plain : Ending → Prop
  | .ok value | .error (.returned _ value) => value.isSignal = false
  | .error (.failed _ _) => True

/-- The result of evaluation agrees with that of the reference evaluator. -/
structure Agrees (result : Value × Machine) (reference : Ending × Machine) : Prop where
  returned : ∀ cell value,
    result.1 = .returned cell value ↔ reference.1 = .error (.returned cell value)
  failed : ∀ cell failure,
    result.1 = .error cell failure ↔ reference.1 = .error (.failed cell failure)
  finished : ∀ value, value.isSignal = false ∧ result.1 = value ↔ reference.1 = .ok value
  /-- The scopes with their bindings and the number of running calls are the same. -/
  machine : result.2 = reference.2

section Ending

variable {ending : Ending} (plain : ending.Plain)

include plain

theorem Ending.value_eq_returned (cell : CellId) (v : Value) :
    ending.value = .returned cell v ↔ ending = .error (.returned cell v) := by
  rcases ending with (⟨other, w⟩ | ⟨other, failure⟩) | w
  · simp [Ending.value]
  · simp [Ending.value]
  · simp only [Ending.value, reduceCtorEq, iff_false]
    rintro rfl
    cases plain

theorem Ending.value_eq_error (cell : CellId) (failure : Failure) :
    ending.value = .error cell failure ↔ ending = .error (.failed cell failure) := by
  rcases ending with (⟨other, w⟩ | ⟨other, cause⟩) | w
  · simp [Ending.value]
  · simp [Ending.value]
  · simp only [Ending.value, reduceCtorEq, iff_false]
    rintro rfl
    cases plain

theorem Ending.value_eq_plain (v : Value) :
    v.isSignal = false ∧ ending.value = v ↔ ending = .ok v := by
  constructor
  · rintro ⟨plainValue, rfl⟩
    rcases ending with (⟨other, w⟩ | ⟨other, failure⟩) | w
    · cases plainValue
    · cases plainValue
    · rfl
  · rintro rfl
    exact ⟨plain, rfl⟩

theorem agrees_of_value (m : Machine) : Agrees (ending.value, m) (ending, m) where
  returned := Ending.value_eq_returned plain
  failed := Ending.value_eq_error plain
  finished := Ending.value_eq_plain plain
  machine := rfl

end Ending

namespace Machine

def atDepth (m : Machine) (depth : Nat) : Machine := { m with depth }

@[simp] theorem atDepth_self (m : Machine) : m.atDepth m.depth = m := rfl

theorem bindAll_atDepth (m : Machine) (depth : Nat) (scope : ScopeId)
    (arguments : List (String × Value)) :
    (m.atDepth depth).bindAll scope arguments = (m.bindAll scope arguments).atDepth depth := by
  induction arguments generalizing m with
  | nil => rfl
  | cons binding rest ih => exact ih (m.bind scope binding.1 binding.2)

theorem lookup_atDepth (m : Machine) (depth : Nat) (scope : ScopeId) (name : String) :
    (m.atDepth depth).lookup scope name = m.lookup scope name := by
  suffices same : ∀ steps scope,
      (m.atDepth depth).lookupWithin name steps scope = m.lookupWithin name steps scope from
    same m.scopes.size scope
  intro steps
  induction steps with
  | zero => exact fun _ => rfl
  | succ steps ih =>
      intro scope
      simp only [lookupWithin, ih]
      rfl

/-- The machine inside a call, for the reference evaluator. -/
def openScope (m : Machine) (captured : ScopeId) (arguments : List (String × Value)) : Machine :=
  (m.newScope (some captured)).2.bindAll m.scopes.size arguments

theorem enter_atDepth (m : Machine) (depth : Nat) (captured : ScopeId)
    (arguments : List (String × Value)) :
    (m.atDepth depth).enter captured arguments =
      (m.openScope captured arguments).atDepth (depth + 1) := by
  have same := bindAll_atDepth (m.newScope (some captured)).2 depth m.scopes.size arguments
  simp only [enter]
  change atDepth (((m.newScope (some captured)).2.atDepth depth).bindAll m.scopes.size arguments)
    (((m.newScope (some captured)).2.atDepth depth).bindAll m.scopes.size arguments).depth.succ = _
  rw [same]
  rfl

end Machine

theorem checked_plain {operation : String} {exact : Int} {value : Value}
    (succeeds : checked operation exact = .ok value) : value.isSignal = false := by
  unfold checked at succeeds
  split at succeeds
  · cases succeeds
    rfl
  · cases succeeds

theorem UnaryOp.operate_plain {op : UnaryOp} {operand value : Value}
    (succeeds : op.operate operand = .ok value) : value.isSignal = false := by
  unfold UnaryOp.operate at succeeds
  split at succeeds
  · cases succeeds
    rfl
  · exact checked_plain succeeds
  · cases succeeds

theorem BinaryOp.onInts_plain {op : BinaryOp} {a b : Int64} {value : Value}
    (succeeds : op.onInts a b = .ok value) : value.isSignal = false := by
  cases op with
  | add | sub | mul => exact checked_plain succeeds
  | div =>
      simp only [BinaryOp.onInts] at succeeds
      split at succeeds
      · cases succeeds
      · exact checked_plain succeeds
  | less | greater | equal | notEqual =>
      cases succeeds
      rfl

theorem BinaryOp.operate_plain {op : BinaryOp} {left right value : Value}
    (succeeds : op.operate left right = .ok value) : value.isSignal = false := by
  unfold BinaryOp.operate at succeeds
  split at succeeds
  · exact onInts_plain succeeds
  · split at succeeds
    · cases succeeds
      rfl
    · cases succeeds
      rfl
    · split at succeeds <;> cases succeeds

/-- With `depth` calls running, the computation does on the machine what the raising one does, and
    leaves a clean machine behind. -/
def MirrorsOn (depth : Nat) (m : Machine) (run : Run Value) (raising : Raising Value) : Prop :=
  ∃ (ending : Ending) (m' : Machine), raising.run m = (ending, m') ∧
    run (m.atDepth depth) = some (ending.value, m'.atDepth depth) ∧ ending.Plain ∧ m'.Clean ∧
      m'.depth = m.depth

/-- The computation does what the raising one does on every clean machine. -/
def Mirrors (depth : Nat) (run : Run Value) (raising : Raising Value) : Prop :=
  ∀ m : Machine, m.Clean → MirrorsOn depth m run raising

section Mirrors

variable {depth : Nat}

theorem mirrors_value {v : Value} (plain : v.isSignal = false) :
    Mirrors depth (pure v) (pure v) := by
  intro m clean
  exact ⟨.ok v, m, rfl, rfl, plain, clean, rfl⟩

theorem mirrors_fail (failure : Failure) (span : Span) :
    Mirrors depth (Run.fail failure span) (Raising.fail failure span) := by
  intro m clean
  exact ⟨.error (.failed m.nextCell (failure.withSpan span)), m.newCell.2, rfl, rfl, trivial,
    clean.of_scopes rfl, rfl⟩

theorem mirrors_ret {v : Value} (plain : v.isSignal = false) :
    Mirrors depth (Run.ret v) (Raising.ret v) := by
  intro m clean
  exact ⟨.error (.returned m.nextCell v), m.newCell.2, rfl, rfl, plain, clean.of_scopes rfl, rfl⟩

theorem mirrors_closure (literal : FunctionLiteral) (scope : ScopeId) :
    Mirrors depth (Run.closure literal scope) (Raising.closure literal scope) := by
  intro m clean
  exact ⟨.ok (.closure m.nextCell literal scope), m.newCell.2, rfl, rfl, rfl,
    clean.of_scopes rfl, rfl⟩

theorem mirrors_bindName (scope : ScopeId) (name : String) {v : Value}
    (plain : v.isSignal = false) :
    Mirrors depth (do Run.bindName scope name v; return .null) (Raising.bindName scope name v) := by
  intro m clean
  exact ⟨.ok .null, m.bind scope name v, rfl, rfl, rfl, clean.bind scope name plain, rfl⟩

theorem mirrors_operator {result : Except Failure Value} (span : Span)
    (plain : ∀ v, result = .ok v → v.isSignal = false) :
    Mirrors depth (Run.operator result span) (Raising.operator result span) := by
  cases result with
  | ok v => exact mirrors_value (plain v rfl)
  | error failure => exact mirrors_fail failure span

theorem mirrors_ident (call : Call) (scope : ScopeId) (name : String) (span : Span) :
    Mirrors depth ((runSteps call scope).ident name span) (Raising.ident scope name span) := by
  intro m clean
  rw [MirrorsOn, runSteps_ident, Raising.ident_run, m.lookup_atDepth depth scope name]
  cases found : m.lookup scope name with
  | some v => exact ⟨.ok v, m, rfl, rfl, clean.lookup found, clean, rfl⟩
  | none => exact mirrors_fail { cause := .identifierNotFound name } span m clean

theorem mirrors_andThen {run : Run Value} {raising : Raising Value} {f : Value → Run Value}
    {g : Value → Raising Value} (first : Mirrors depth run raising)
    (next : ∀ v, v.isSignal = false → Mirrors depth (f v) (g v)) :
    Mirrors depth (Run.plainly run f) (raising >>= g) := by
  intro m clean
  obtain ⟨ending, mid, raised, ran, plain, cleanMid, sameDepth⟩ := first m clean
  cases ending with
  | ok v =>
      obtain ⟨ending, m', raisedNext, ranNext, plainNext, cleanNext, sameNext⟩ :=
        next v plain mid cleanMid
      refine ⟨ending, m', ?_, ?_, plainNext, cleanNext, sameNext.trans sameDepth⟩
      · rw [Raising.bind_ok raised, raisedNext]
      · exact (Run.plainly_plain ran plain).trans ranNext
  | error signal =>
      have stops : (Ending.value (.error signal)).isSignal = true := by cases signal <;> rfl
      exact ⟨.error signal, mid, Raising.bind_error raised g, Run.plainly_signal ran stops, plain,
        cleanMid, sameDepth⟩

theorem Ending.value_settled {ending : Ending} (plain : ending.Plain) :
    ending.settled.value = ending.value.unwrapReturn := by
  rcases ending with (⟨cell, value⟩ | ⟨cell, failure⟩) | value
  · rfl
  · rfl
  · cases value with
    | returned => cases plain
    | _ => rfl

theorem Ending.Plain.settled {ending : Ending} (plain : ending.Plain) : ending.settled.Plain := by
  rcases ending with (⟨cell, value⟩ | ⟨cell, failure⟩) | value
  · exact plain
  · trivial
  · exact plain

theorem mirrors_settle (call : Call) (scope : ScopeId) {run : Run Value} {raising : Raising Value}
    (body : Mirrors depth run raising) :
    Mirrors depth ((runSteps call scope).settle run) (Raising.catchReturn raising) := by
  intro m clean
  obtain ⟨ending, m', raised, ran, plain, cleanLast, sameDepth⟩ := body m clean
  refine ⟨ending.settled, m', Raising.catchReturn_run raised, ?_, plain.settled, cleanLast,
    sameDepth⟩
  rw [runSteps_settle, ran, Ending.value_settled plain]
  rfl

def MirrorsCalls (depth : Nat) (call : Call) (raisingCall : RaisingCall) : Prop :=
  ∀ function args span, (∀ v ∈ args, v.isSignal = false) →
    Mirrors depth (call function args span) (raisingCall function args span)

theorem mirrors_steps {call : Call} {raisingCall : RaisingCall} (scope : ScopeId)
    (calls : MirrorsCalls depth call raisingCall) :
    Steps.Related (Mirrors depth) (runSteps call scope) (referenceSteps raisingCall scope) where
  value := mirrors_value
  andThen := mirrors_andThen
  ident := mirrors_ident call scope
  unary op span _ _ := mirrors_operator span fun _ => op.operate_plain
  binary op span _ _ _ _ := mirrors_operator span fun _ => op.operate_plain
  closure literal := mirrors_closure literal scope
  call span function args _ plainArgs := calls function args span plainArgs
  bind name _ plain := mirrors_bindName scope name plain
  ret := mirrors_ret
  settle := mirrors_settle call scope

theorem referenceCall_noFunction {callee : Value} (noFunction : callee.type ≠ .function)
    (limit room : Nat) (args : List Value) (span : Span) :
    referenceCall limit room callee args span =
      Raising.fail { cause := .notAFunction callee.type } span := by
  cases callee with
  | closure => exact absurd rfl noFunction
  | _ => cases room <;> rfl

theorem referenceCall_wrongCount {literal : FunctionLiteral} {args : List Value}
    (wrong : literal.params.length ≠ args.length) (limit room : Nat) (cell : CellId)
    (captured : ScopeId) (span : Span) :
    referenceCall limit room (.closure cell literal captured) args span =
      Raising.fail { cause := .wrongArgumentCount literal.params.length args.length } span := by
  cases room <;> simp only [referenceCall, wrong, ne_eq, not_false_eq_true, if_true]

theorem referenceCall_zero {literal : FunctionLiteral} {args : List Value}
    (count : literal.params.length = args.length) (limit : Nat) (cell : CellId)
    (captured : ScopeId) (span : Span) :
    referenceCall limit 0 (.closure cell literal captured) args span =
      Raising.fail { cause := .callDepthExceeded limit } span := by
  simp only [referenceCall, count, ne_eq, not_true_eq_false, if_false]

theorem referenceCall_succ {literal : FunctionLiteral} {args : List Value}
    (count : literal.params.length = args.length) (limit room : Nat) (cell : CellId)
    (captured : ScopeId) (span : Span) (m : Machine) :
    (referenceCall limit (room + 1) (.closure cell literal captured) args span).run m =
      (Raising.catchReturn
        (literal.body.reference (referenceCall limit room) m.scopes.size)).run
          (m.openScope captured (literal.params.zip args)) := by
  simp only [referenceCall, count, ne_eq, not_true_eq_false, if_false]
  rfl

section Calls

variable {limit budget : Nat} {args : List Value} {m : Machine}

theorem mirrors_enter {cell : CellId} {literal : FunctionLiteral} {captured : ScopeId}
    (count : literal.params.length = args.length) (plain : ∀ v ∈ args, v.isSignal = false)
    (below : ∀ most ∈ some limit, depth < most) (clean : m.Clean) (span : Span)
    (calls : MirrorsCalls (depth + 1) (applyWithin (some limit) budget)
      (referenceCall limit (limit - (depth + 1)))) :
    MirrorsOn depth m
      (applyWithin (some limit) (budget + 1) (.closure cell literal captured) args span)
      (referenceCall limit (limit - depth) (.closure cell literal captured) args span) := by
  have body : Mirrors (depth + 1)
      (literal.body.eval (applyWithin (some limit) budget) m.scopes.size)
      (literal.body.reference (referenceCall limit (limit - (depth + 1))) m.scopes.size) := by
    rw [Block.eval_eq_walk, Block.reference_eq_walk]
    exact literal.body.walk_related (mirrors_steps m.scopes.size calls)
  have cleanInside : (m.openScope captured (literal.params.zip args)).Clean :=
    (clean.enter captured plain).of_scopes rfl
  obtain ⟨ending, m', raised, ran, plainEnding, cleanLast, sameDepth⟩ := body _ cleanInside
  refine ⟨ending.settled, m', ?_, ?_, plainEnding.settled, cleanLast, ?_⟩
  · have room : limit - depth = limit - (depth + 1) + 1 := by
      have := below limit rfl
      omega
    rw [room, referenceCall_succ count]
    exact Raising.catchReturn_run raised
  · rw [applyWithin_enter count below, m.enter_atDepth depth]
    change (literal.body.eval _ m.scopes.size _).map leaveCall = _
    rw [ran, Ending.value_settled plainEnding]
    rfl
  · exact sameDepth.trans (Machine.depth_bindAll _ _ _)

theorem mirrors_call_step (inner : depth < limit → ∃ less, budget = less + 1 ∧
      MirrorsCalls (depth + 1) (applyWithin (some limit) less)
        (referenceCall limit (limit - (depth + 1)))) :
    MirrorsCalls depth (applyWithin (some limit) budget) (referenceCall limit (limit - depth)) := by
  intro function args span plain m clean
  cases attempt (some limit) (m.atDepth depth) args function with
  | noFunction other =>
      rw [applyWithin_noFunction other, referenceCall_noFunction other]
      exact mirrors_fail _ span m clean
  | wrongCount wrong =>
      rw [applyWithin_wrongCount wrong, referenceCall_wrongCount wrong]
      exact mirrors_fail _ span m clean
  | exceeded count chosen reached =>
      cases chosen
      have noRoom : limit - depth = 0 := Nat.sub_eq_zero_of_le reached
      rw [MirrorsOn, applyWithin_exceeded count reached, noRoom, referenceCall_zero count]
      exact mirrors_fail _ span m clean
  | enters count below =>
      obtain ⟨less, rfl, calls⟩ := inner (below limit rfl)
      exact mirrors_enter count plain below clean span calls

/-- With room for as many calls as the limit leaves, a call does what its reference does. The budget
    is at least that room, so it is never spent. -/
theorem mirrors_call (enough : limit ≤ depth + budget) :
    MirrorsCalls depth (applyWithin (some limit) budget) (referenceCall limit (limit - depth)) := by
  induction budget generalizing depth with
  | zero => exact mirrors_call_step fun below => absurd below (Nat.not_lt.mpr enough)
  | succ budget ih => exact mirrors_call_step fun _ => ⟨budget, rfl, ih (by omega)⟩

end Calls

end Mirrors

/-- Evaluation under a limit is the reference evaluator, where `return` and failures are exceptions:
    it yields a pending `return` exactly when `return` is raised, a failure exactly when that failure
    is raised, and a plain value exactly when the reference evaluator finishes with it. The machine
    left behind is the same, with as many running calls as before. -/
theorem evaluate_agrees_reference (m : Machine) (clean : m.Clean) (limit : Nat) (node : Node)
    (scope : ScopeId) :
    Agrees (m.evaluate (some limit) node scope) (m.reference limit node scope) ∧
      (m.evaluate (some limit) node scope).2.depth = m.depth := by
  have calls : MirrorsCalls m.depth (applyWithin (some limit) limit)
      (referenceCall limit (limit - m.depth)) := mirrors_call (Nat.le_add_left _ _)
  have mirrors := node.walk_related (mirrors_steps scope calls)
  rw [← Node.eval_eq_walk, ← Node.reference_eq_walk] at mirrors
  obtain ⟨ending, m', raised, ran, plain, _, sameDepth⟩ := mirrors m clean
  have evaluated : m.evaluate (some limit) node scope = (ending.value, m') := by
    have sameMachine : m'.atDepth m.depth = m' := by rw [← sameDepth, Machine.atDepth_self]
    rw [Machine.atDepth_self, sameMachine] at ran
    simp only [Machine.evaluate, Machine.finish, callBudget, Option.getD_some, ran]
  have referred : m.reference limit node scope = (ending, m') := raised
  rw [evaluated, referred]
  exact ⟨agrees_of_value plain m', sameDepth⟩

/-- `return f(1)` where `f` is `fn(x) { return x + 1 }`: the inner `return` is caught by the call, and
    the outer one is raised. -/
theorem evaluate_agrees_reference_return :
    let f : Value := .closure 0
      ⟨["x"], .mk .zero [.ret .zero (some (.binary .zero .add (.ident .zero "x") (.int .zero 1)))],
        .zero⟩ 0
    let m : Machine := { scopes := #[{ bindings := [("f", f)] }], nextCell := 1 }
    let node : Node := .statement (.ret .zero (some
      (.call .zero (.ident .zero "f") [.int .zero 1])))
    Agrees (m.evaluate (some 1) node 0)
      (.error (.returned 2 (.int 2)),
        { scopes := #[{ bindings := [("f", f)] }, { bindings := [("x", .int 1)], parent := some 0 }],
          nextCell := 3 }) ∧
      (m.evaluate (some 1) node 0).2.depth = 0 := by
  refine evaluate_agrees_reference _ ?_ 1 _ 0
  intro scope s found
  cases scope with
  | zero =>
      cases found
      intro binding member
      cases List.mem_singleton.mp member
      rfl
  | succ scope => simp at found

end TreeWalk
