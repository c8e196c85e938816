import TreeWalk.Proofs.Exceptions
import TreeWalk.Proofs.Moments
import TreeWalk.Proofs.Parts

/-! # Signals do not leak

A pending `return` and a failure are values, but no program gets hold of them: they are never bound,
never handed to an operator or a function, never put into one another, and a pending `return` goes no
further than the call or the program that it ends. This holds at every moment of every evaluation and
application, over any sequence of them, on a machine that binds no signal to start with.
-/

namespace TreeWalk

def ValueType.isSignal : ValueType → Bool
  | .returnValue | .error => true
  | _ => false

/-- The type tags that the wording of a cause names. -/
def Cause.types : Cause → List ValueType
  | .typeMismatch left _ right | .unknownBinary left _ right => [left, right]
  | .unknownUnary _ operand => [operand]
  | .notAFunction type => [type]
  | _ => []

/-- Neither an operator nor a binding nor a call is handed a signal. -/
def Action.Plain : Action → Prop
  | .unary _ operand => operand.isSignal = false
  | .binary _ left right => left.isSignal = false ∧ right.isSignal = false
  | .bind _ _ value => value.isSignal = false
  | .call function args => function.isSignal = false ∧ ∀ v ∈ args, v.isSignal = false

def Moment.Plain (moment : Moment) : Prop := moment.machine.Clean ∧ moment.action.Plain

/-- The cause names no signal. -/
def Cause.Plain (cause : Cause) : Prop := ∀ type ∈ cause.types, type.isSignal = false

/-- A pending `return` holds no signal, and a failure names none. -/
def Value.Simple : Value → Prop
  | .returned _ value => value.isSignal = false
  | .error _ failure => failure.cause.Plain
  | _ => True

/-- What the trace shows is plain, and it ends with a machine that binds no signal. -/
structure Trace.Contained (trace : Trace) : Prop where
  moments : ∀ moment ∈ trace.moments, moment.Plain
  clean : ∀ v m, trace.result = some (v, m) → m.Clean
  simple : ∀ v m, trace.result = some (v, m) → v.Simple

def Contains (traced : Traced) : Prop := ∀ m : Machine, m.Clean → (traced m).Contained

@[simp] theorem Value.type_isSignal (v : Value) : v.type.isSignal = v.isSignal := by
  cases v <;> rfl

theorem Value.simple_of_plain {v : Value} (plain : v.isSignal = false) : v.Simple := by
  cases v with
  | returned | error => cases plain
  | _ => trivial

theorem Value.Simple.unwrapReturn {v : Value} (simple : v.Simple) : v.unwrapReturn.Simple := by
  cases v with
  | returned cell value => exact simple_of_plain simple
  | _ => exact simple

theorem Value.Simple.settled {v : Value} (simple : v.Simple) :
    v.unwrapReturn.type ≠ .returnValue := by
  cases v with
  | returned cell value =>
      cases value with
      | returned => cases simple
      | _ => exact nofun
  | _ => exact nofun

theorem checked_failure {operation : String} {exact : Int} {failure : Failure}
    (fails : checked operation exact = .error failure) : failure.cause.Plain := by
  unfold checked at fails
  split at fails
  · cases fails
  · cases fails
    exact List.forall_mem_nil _

theorem UnaryOp.operate_failure {op : UnaryOp} {v : Value} (plain : v.isSignal = false)
    {failure : Failure} (fails : op.operate v = .error failure) : failure.cause.Plain := by
  unfold UnaryOp.operate at fails
  split at fails
  · cases fails
  · exact checked_failure fails
  · cases fails
    simpa [Cause.Plain, Cause.types] using plain

theorem BinaryOp.onInts_failure {op : BinaryOp} {a b : Int64} {failure : Failure}
    (fails : op.onInts a b = .error failure) : failure.cause.Plain := by
  cases op with
  | add | sub | mul => exact checked_failure fails
  | div =>
      simp only [BinaryOp.onInts] at fails
      split at fails
      · cases fails
        exact List.forall_mem_nil _
      · exact checked_failure fails
  | less | greater | equal | notEqual => cases fails

theorem BinaryOp.operate_failure {op : BinaryOp} {v w : Value} (plainLeft : v.isSignal = false)
    (plainRight : w.isSignal = false) {failure : Failure}
    (fails : op.operate v w = .error failure) : failure.cause.Plain := by
  unfold BinaryOp.operate at fails
  split at fails
  · exact onInts_failure fails
  · split at fails
    · cases fails
    · cases fails
    · split at fails <;> cases fails <;>
        simp [Cause.Plain, Cause.types, plainLeft, plainRight]

theorem contains_quiet {run : Run Value}
    (ends : ∀ m v m', m.Clean → run m = some (v, m') → m'.Clean ∧ v.Simple) :
    Contains (.quiet run) := by
  intro m clean
  exact ⟨nofun, fun v m' ran => (ends m v m' clean ran).1, fun v m' ran => (ends m v m' clean ran).2⟩

theorem contains_behind {action : Action} {traced : Traced} (plain : action.Plain)
    (rest : Contains traced) : Contains (.behind action traced) := by
  intro m clean
  have inner := rest m clean
  refine ⟨?_, inner.clean, inner.simple⟩
  intro moment member
  rcases List.mem_cons.mp member with rfl | later
  · exact ⟨clean, plain⟩
  · exact inner.moments moment later

theorem contains_value {v : Value} (plain : v.isSignal = false) : Contains (.quiet (pure v)) := by
  refine contains_quiet ?_
  rintro m _ _ clean ⟨⟩
  exact ⟨clean, Value.simple_of_plain plain⟩

theorem contains_fail {failure : Failure} (span : Span) (plain : failure.cause.Plain) :
    Contains (.quiet (Run.fail failure span)) := by
  refine contains_quiet ?_
  rintro m _ _ clean ⟨⟩
  exact ⟨clean.of_scopes rfl, plain⟩

theorem contains_operator {result : Except Failure Value} (span : Span)
    (succeeds : ∀ v, result = .ok v → v.isSignal = false)
    (fails : ∀ failure, result = .error failure → failure.cause.Plain) :
    Contains (.quiet (Run.operator result span)) := by
  cases result with
  | ok v => exact contains_value (succeeds v rfl)
  | error failure => exact contains_fail span (fails failure rfl)

theorem contains_ident (call : Call) (scope : ScopeId) (name : String) (span : Span) :
    Contains (.quiet ((runSteps call scope).ident name span)) := by
  refine contains_quiet ?_
  intro m v m' clean ran
  rw [runSteps_ident] at ran
  cases found : m.lookup scope name with
  | some w =>
      rw [found] at ran
      cases ran
      exact ⟨clean, Value.simple_of_plain (clean.lookup found)⟩
  | none =>
      rw [found] at ran
      cases ran
      exact ⟨clean.of_scopes rfl, fun _ member => nomatch member⟩

theorem contains_andThen {first : Traced} {next : Value → Traced} (begins : Contains first)
    (later : ∀ v, v.isSignal = false → Contains (next v)) : Contains (first.andThen next) := by
  intro m clean
  have front := begins m clean
  cases ran : (first m).result with
  | none =>
      rw [Traced.andThen_none ran]
      exact front
  | some result =>
      obtain ⟨v, mid⟩ := result
      cases kind : v.isSignal with
      | true =>
          rw [Traced.andThen_signal ran kind]
          exact front
      | false =>
          have back := later v kind mid (front.clean v mid ran)
          rw [Traced.andThen_plain ran kind]
          refine ⟨?_, back.clean, back.simple⟩
          intro moment member
          rcases List.mem_append.mp member with early | late
          · exact front.moments moment early
          · exact back.moments moment late

theorem contains_map {f : Value × Machine → Value × Machine} {traced : Traced}
    (scopes : ∀ result, (f result).2.scopes = result.2.scopes)
    (value : ∀ result, (f result).1 = result.1.unwrapReturn) (body : Contains traced) :
    Contains (traced.map f) := by
  intro m clean
  have inner := body m clean
  refine ⟨inner.moments, ?_, ?_⟩
  · intro v m' ran
    obtain ⟨result, begun, same⟩ := Option.map_eq_some_iff.mp ran
    have last := scopes result
    rw [same] at last
    exact (inner.clean result.1 result.2 begun).of_scopes last
  · intro v m' ran
    obtain ⟨result, begun, same⟩ := Option.map_eq_some_iff.mp ran
    have settled := value result
    rw [same] at settled
    subst settled
    exact (inner.simple result.1 result.2 begun).unwrapReturn

theorem keeps_contains {call : TracedCall} (scope : ScopeId)
    (calls : ∀ {function args}, function.isSignal = false → (∀ v ∈ args, v.isSignal = false) →
      ∀ span, Contains (call function args span)) :
    (traceSteps call scope).Keeps Contains (fun v => v.isSignal = false) (fun _ => True) where
  scalar plain _ := plain
  value plain := contains_value plain
  andThen begins later := contains_andThen begins later
  ident _ := contains_ident _ scope _ _
  unary _ plain := contains_behind plain <|
    contains_operator _ (fun _ => UnaryOp.operate_plain) fun _ => UnaryOp.operate_failure plain
  binary _ plainLeft plainRight := contains_behind ⟨plainLeft, plainRight⟩ <|
    contains_operator _ (fun _ => BinaryOp.operate_plain) fun _ =>
      BinaryOp.operate_failure plainLeft plainRight
  closure _ := contains_quiet <| by
    rintro m _ _ clean ⟨⟩
    exact ⟨clean.of_scopes rfl, trivial⟩
  call _ plain plainArgs := contains_behind ⟨plain, plainArgs⟩ (calls plain plainArgs _)
  bind _ plain := contains_behind plain <| contains_quiet <| by
    rintro m _ _ clean ⟨⟩
    exact ⟨clean.bind scope _ plain, trivial⟩
  ret plain := contains_quiet <| by
    rintro m _ _ clean ⟨⟩
    exact ⟨clean.of_scopes rfl, plain⟩
  settle body := contains_map (fun _ => rfl) (fun _ => rfl) body

/-- A call that does not start fails, and the failure names at most the type of the callee. -/
theorem refused_names_callee {limit : Option Nat} {function : Value} {args : List Value}
    {m : Machine} (refused : ¬ Enters limit m args function) (budget : Nat) (span : Span) :
    ∃ cause : Cause, (∀ type ∈ cause.types, type = function.type ∧ function.type ≠ .function) ∧
      applyWithin limit budget function args span m = Run.fail { cause } span m := by
  cases attempt limit m args function with
  | noFunction other =>
      refine ⟨_, ?_, congrFun (applyWithin_noFunction other) m⟩
      exact fun _ member => ⟨List.mem_singleton.mp member, other⟩
  | wrongCount wrong =>
      refine ⟨_, ?_, congrFun (applyWithin_wrongCount wrong) m⟩
      exact nofun
  | exceeded count chosen reached =>
      cases chosen
      refine ⟨_, ?_, applyWithin_exceeded count reached⟩
      exact nofun
  | enters count below => exact absurd ⟨_, _, _, rfl, count, below⟩ refused

theorem contains_call (limit : Option Nat) (budget : Nat) {function : Value} {args : List Value}
    (plain : function.isSignal = false) (plainArgs : ∀ v ∈ args, v.isSignal = false) (span : Span) :
    Contains (traceWithin limit budget function args span) := by
  -- The body runs on a smaller budget, in a scope that binds plain arguments.
  induction budget using Nat.strongRecOn generalizing function args span with
  | ind budget ih =>
      intro m clean
      by_cases enters : Enters limit m args function
      · obtain ⟨cell, literal, captured, rfl, count, below⟩ := enters
        cases budget with
        | zero =>
            rw [traceWithin_zero, Traced.quiet, applyWithin_spent count below]
            exact ⟨nofun, nofun, nofun⟩
        | succ budget =>
            rw [traceWithin_enter count below]
            have body : Contains
                (literal.body.walk (traceSteps (traceWithin limit budget) m.scopes.size)) :=
              literal.body.walk_keeps (keeps_contains m.scopes.size (ih budget (Nat.lt_succ_self _)))
                fun _ _ => trivial
            exact contains_map (f := leaveCall) (fun _ => rfl) (fun _ => rfl) body _
              (clean.enter captured plainArgs)
      · obtain ⟨cause, names, fails⟩ := refused_names_callee enters budget span
        have plainCause : cause.Plain := by
          intro type member
          rw [(names type member).1, Value.type_isSignal, plain]
        rw [traceWithin_refused enters, Traced.quiet, fails]
        exact contains_fail span plainCause m clean

theorem contains_node (limit : Option Nat) (budget : Nat) (scope : ScopeId) (node : Node) :
    Contains (node.trace limit budget scope) :=
  node.walk_keeps (keeps_contains scope (contains_call limit budget)) fun _ _ => trivial

/-- What can be asked of a machine. -/
inductive Operation where
  | evaluate (limit : Option Nat) (node : Node) (scope : ScopeId)
  | apply (limit : Option Nat) (function : Value) (args : List Value) (span : Span)

namespace Operation

def perform (m : Machine) : Operation → Value × Machine
  | .evaluate limit node scope => m.evaluate limit node scope
  | .apply limit function args span => m.apply limit function args span

def limit : Operation → Option Nat
  | .evaluate limit _ _ | .apply limit _ _ _ => limit

/-- The operation on a budget of nested calls. -/
def run (budget : Nat) : Operation → Run Value
  | .evaluate limit node scope => node.eval (applyWithin limit budget) scope
  | .apply limit function args span => applyWithin limit budget function args span

def trace (budget : Nat) : Operation → Traced
  | .evaluate limit node scope => node.trace limit budget scope
  | .apply limit function args span => traceWithin limit budget function args span

/-- No argument is a signal. -/
def PlainArgs : Operation → Prop
  | .evaluate _ _ _ => True
  | .apply _ _ args _ => ∀ v ∈ args, v.isSignal = false

/-- The value to be applied, if there is one, is no signal. -/
def PlainCallee : Operation → Prop
  | .evaluate _ _ _ => True
  | .apply _ function _ _ => function.isSignal = false

/-- Does a pending `return` end with the operation? -/
def settles : Operation → Bool
  | .evaluate _ (.program _) _ | .apply _ _ _ _ => true
  | .evaluate _ _ _ => false

/-- The result binds no signal, and is a pending `return`, which holds none, only where it may be
    one. As a failure it names none, provided that the operation did not itself apply one. -/
structure EndsPlain (op : Operation) (result : Value × Machine) : Prop where
  clean : result.2.Clean
  settled : op.settles = true → result.1.type ≠ .returnValue
  content : ∀ cell v, result.1 = .returned cell v → v.isSignal = false
  named : op.PlainCallee → ∀ cell failure, result.1 = .error cell failure → failure.cause.Plain

/-- The operation contains its signals on this machine: no scope binds one and none is handed on at
    any moment, however many nested calls are waited for, and it ends as it should. -/
structure Contained (op : Operation) (m : Machine) : Prop where
  traced : ∀ budget, (op.trace budget m).result = op.run budget m
  moments : ∀ budget, ∀ moment ∈ (op.trace budget m).moments, moment.Plain
  ends : op.EndsPlain (op.perform m)

theorem erase_trace (op : Operation) (budget : Nat) : (op.trace budget).erase = op.run budget := by
  cases op with
  | evaluate limit node scope => exact node.erase_trace limit budget scope
  | apply limit function args span =>
      exact congrFun (congrFun (congrFun (erase_traceWithin limit budget) function) args) span

variable {op : Operation} {m : Machine}

theorem endsPlain_of_simple {v : Value} (clean : m.Clean) (simple : v.Simple)
    (settled : op.settles = true → v.type ≠ .returnValue) : op.EndsPlain (v, m) where
  clean := clean
  settled := settled
  content := by
    rintro cell w rfl
    exact simple
  named := by
    rintro _ cell failure rfl
    exact simple

/-- The operation ends as its trace does, or is cut off on the machine where it started. -/
theorem endsPlain_perform (clean : m.Clean)
    (ended : ∀ v m', (op.trace (callBudget op.limit) m).result = some (v, m') →
      op.EndsPlain (v, m')) : op.EndsPlain (op.perform m) := by
  have same : op.perform m = m.finish op.limit (op.trace (callBudget op.limit)).erase := by
    rw [erase_trace]
    cases op <;> rfl
  rw [same, Machine.finish]
  split
  · rename_i result ran
    exact ended result.1 result.2 ran
  · refine endsPlain_of_simple (clean.of_scopes rfl) (List.forall_mem_nil _) ?_
    intro _ returned
    cases returned

end Operation

theorem settled_of_map {f : Value × Machine → Value × Machine} {traced : Traced} {m m' : Machine}
    {v : Value} (value : ∀ result, (f result).1 = result.1.unwrapReturn)
    (body : (traced m).Contained) (ran : (traced.map f m).result = some (v, m')) :
    v.type ≠ .returnValue := by
  obtain ⟨result, begun, same⟩ := Option.map_eq_some_iff.mp ran
  have settled := value result
  rw [same] at settled
  subst settled
  exact (body.simple result.1 result.2 begun).settled

theorem settled_of_enters {limit : Option Nat} {budget : Nat} {cell : CellId}
    {literal : FunctionLiteral} {captured : ScopeId} {args : List Value} {span : Span}
    {m m' : Machine} {v : Value} (count : literal.params.length = args.length)
    (below : ∀ most ∈ limit, m.depth < most) (clean : m.Clean)
    (plainArgs : ∀ v ∈ args, v.isSignal = false)
    (ran : (traceWithin limit budget (.closure cell literal captured) args span m).result =
      some (v, m')) : v.type ≠ .returnValue := by
  cases budget with
  | zero =>
      rw [traceWithin_zero, Traced.quiet, applyWithin_spent count below] at ran
      cases ran
  | succ budget =>
      rw [traceWithin_enter count below] at ran
      have body := contains_node limit budget m.scopes.size (.block literal.body)
      exact settled_of_map (fun _ => rfl) (body _ (clean.enter captured plainArgs)) ran

theorem contained_evaluate (limit : Option Nat) (node : Node) (scope : ScopeId) {m : Machine}
    (clean : m.Clean) : (Operation.evaluate limit node scope).Contained m where
  traced budget := congrFun (Operation.erase_trace _ budget) m
  moments budget := (contains_node limit budget scope node m clean).moments
  ends := by
    refine Operation.endsPlain_perform clean ?_
    intro v m' ran
    have contained := contains_node limit (callBudget limit) scope node m clean
    refine Operation.endsPlain_of_simple (contained.clean v m' ran) (contained.simple v m' ran) ?_
    intro settles
    cases node with
    | program p =>
        have body := contains_node limit (callBudget limit) scope (.block (.mk .zero p.statements))
        exact settled_of_map (fun _ => rfl) (body m clean) ran
    | block | statement | expression => cases settles

theorem contained_apply (limit : Option Nat) (function : Value) {args : List Value} (span : Span)
    (plainArgs : ∀ v ∈ args, v.isSignal = false) {m : Machine} (clean : m.Clean) :
    (Operation.apply limit function args span).Contained m := by
  have traced budget := congrFun (Operation.erase_trace (.apply limit function args span) budget) m
  by_cases enters : Enters limit m args function
  · obtain ⟨cell, literal, captured, rfl, count, below⟩ := enters
    have contained budget : (traceWithin limit budget (.closure cell literal captured) args span
        m).Contained := contains_call limit budget rfl plainArgs span m clean
    refine ⟨traced, fun budget => (contained budget).moments,
      Operation.endsPlain_perform clean ?_⟩
    intro v m' ran
    refine Operation.endsPlain_of_simple ((contained _).clean v m' ran)
      ((contained _).simple v m' ran) fun _ => ?_
    exact settled_of_enters count below clean plainArgs ran
  · -- A call that does not start has no moments, whatever the callee is.
    have quiet budget : (Operation.apply limit function args span).trace budget m =
        ⟨[], applyWithin limit budget function args span m⟩ := traceWithin_refused enters
    refine ⟨traced, ?_, Operation.endsPlain_perform clean ?_⟩
    · intro budget
      rw [quiet]
      exact nofun
    · intro v m' ran
      obtain ⟨cause, names, fails⟩ := refused_names_callee enters
        (callBudget (Operation.limit (.apply limit function args span))) span
      rw [quiet, fails] at ran
      cases ran
      refine ⟨clean.of_scopes rfl, fun _ => nofun, nofun, ?_⟩
      rintro plain _ _ ⟨⟩ type member
      rw [(names type member).1, Value.type_isSignal]
      exact plain

theorem Operation.contained {op : Operation} (plain : op.PlainArgs) {m : Machine}
    (clean : m.Clean) : op.Contained m := by
  cases op with
  | evaluate limit node scope => exact contained_evaluate limit node scope clean
  | apply limit function args span => exact contained_apply limit function span plain clean

def Machine.after (m : Machine) (ops : List Operation) : Machine :=
  ops.foldl (fun m op => (op.perform m).2) m

theorem Machine.Clean.after {m : Machine} (clean : m.Clean) {ops : List Operation}
    (plain : ∀ op ∈ ops, op.PlainArgs) : (m.after ops).Clean := by
  induction ops generalizing m with
  | nil => exact clean
  | cons op ops ih =>
      obtain ⟨plainFirst, plainRest⟩ := List.forall_mem_cons.mp plain
      exact ih (op.contained plainFirst clean).ends.clean plainRest

/-- Signals never leak. Behind any evaluations and applications to plain arguments, on a machine that
    bound no signal, no scope binds one, and whatever is evaluated or applied next contains its
    signals: at no moment does a scope bind one or is one handed to an operator, a binding or a call;
    a program and an application yield no pending `return`; a pending `return` holds no signal; and
    no failure names the type of one, provided that the operation does not itself apply one. -/
theorem signals_never_leak (m : Machine) (clean : m.Clean) (ops : List Operation)
    (plain : ∀ op ∈ ops, op.PlainArgs) :
    (m.after ops).Clean ∧ ∀ op : Operation, op.PlainArgs → op.Contained (m.after ops) := by
  have cleanAfter := clean.after plain
  exact ⟨cleanAfter, fun op plainNext => op.contained plainNext cleanAfter⟩

/-- Behind `let f = fn(x) { return -x; }` and an application of `f` to one, `f(f(1))` has four
    moments: two calls and two operators. An application of `f` to `true` fails, and the failure
    names the type of a boolean. -/
theorem signals_never_leak_twice :
    let m : Machine := { scopes := #[{}] }
    let body : Block := .mk .zero [.ret .zero (some (.unary .zero .neg (.ident .zero "x")))]
    let define : Operation :=
      .evaluate none (.statement (.bind .zero "f" (.fn .zero .zero ["x"] body))) 0
    let f : Value := .closure 0 { params := ["x"], body, span := .zero } 0
    let negate (v : Value) : Operation := .apply (some 1) f [v] .zero
    let twice : Operation := .evaluate (some 1) (.expression (.call .zero (.ident .zero "f")
      [.call .zero (.ident .zero "f") [.int .zero 1]])) 0
    let m' := m.after [define, negate (.int 1)]
    (m.after [define]).lookup 0 "f" = some f ∧ m'.Clean ∧
      twice.Contained m' ∧ (twice.trace 1 m').moments.length = 4 ∧
      (negate (.bool true)).Contained m' ∧
      ((negate (.bool true)).perform m').1.inspect = "ERROR: unknown operator: -BOOLEAN" := by
  intro m body define f negate twice m'
  have clean : m.Clean := by
    intro scope s found
    cases scope with
    | zero =>
        cases found
        exact nofun
    | succ scope => simp [m] at found
  have plainArgs {v : Value} (plain : v.isSignal = false) : (negate v).PlainArgs :=
    List.forall_mem_singleton.mpr plain
  have plain : ∀ op ∈ [define, negate (.int 1)], op.PlainArgs :=
    List.forall_mem_cons.mpr ⟨trivial, List.forall_mem_singleton.mpr (plainArgs rfl)⟩
  obtain ⟨cleanAfter, contains⟩ := signals_never_leak m clean [define, negate (.int 1)] plain
  exact ⟨rfl, cleanAfter, contains twice trivial, by decide +kernel,
    contains (negate (.bool true)) (plainArgs rfl), by decide +kernel⟩

end TreeWalk
