import TreeWalk.Proofs.Blame
import TreeWalk.Proofs.Containment
import TreeWalk.Proofs.Correspondence

/-! # Evaluations in step

Two trees that differ only in spans, evaluated on machines that correspond, have results that
correspond, and the machines behind them correspond again. Numbers of scopes and cells may differ
from the start, and so may the places of failures; nothing that is evaluated later can tell.
-/

namespace TreeWalk

/-- The values and the machines of two results correspond, with whatever has been created since. -/
def EndInStep (l : Likeness) (ρ : Pairing) (result result' : Value × Machine) : Prop :=
  ∃ later, ρ ≤ later ∧ result.1.Corresponds l later result'.1 ∧
    result.2.Corresponds l later result'.2

/-- The computations, run on machines that correspond, have results that do. -/
def RunInStep (l : Likeness) (ρ : Pairing) (run run' : Run Value) : Prop :=
  ∀ m m' : Machine, m.Corresponds l ρ m' → Option.Rel (EndInStep l ρ) (run m) (run' m')

def CallInStep (l : Likeness) (call call' : Call) : Prop :=
  ∀ {ρ function function' args args' span span'}, l.view span = l.view span' →
    function.Corresponds l ρ function' → List.Forall₂ (Value.Corresponds l ρ) args args' →
    RunInStep l ρ (call function args span) (call' function' args' span')

section Steps

variable {l : Likeness} {ρ : Pairing} {v v' : Value} {run run' : Run Value} {span span' : Span}

theorem EndInStep.earlier {ρ' : Pairing} (later : ρ ≤ ρ') {result result' : Value × Machine}
    (ends : EndInStep l ρ' result result') : EndInStep l ρ result result' := by
  obtain ⟨last, since, values, machines⟩ := ends
  exact ⟨last, le_trans later since, values, machines⟩

theorem runInStep_value (values : v.Corresponds l ρ v') : RunInStep l ρ (pure v) (pure v') :=
  fun _ _ alike => .some ⟨ρ, le_refl ρ, values, alike⟩

theorem runInStep_fail (spans : l.view span = l.view span') (cause : Cause) :
    RunInStep l ρ (Run.fail { cause } span) (Run.fail { cause } span') := by
  intro m m' alike
  obtain ⟨later, since, cells, machines⟩ := alike.newCell
  exact .some ⟨later, since, .error cells rfl (l.located spans l.nowhere), machines⟩

theorem runInStep_ret (values : v.Corresponds l ρ v') :
    RunInStep l ρ (Run.ret v) (Run.ret v') := by
  intro m m' alike
  obtain ⟨later, since, cells, machines⟩ := alike.newCell
  exact .some ⟨later, since, .returned cells (values.mono since), machines⟩

theorem runInStep_closure {literal literal' : FunctionLiteral} {scope scope' : ScopeId}
    (literals : literal.mapSpans l.view = literal'.mapSpans l.view)
    (paired : ρ.scopes scope scope') :
    RunInStep l ρ (Run.closure literal scope) (Run.closure literal' scope') := by
  intro m m' alike
  obtain ⟨later, since, cells, machines⟩ := alike.newCell
  exact .some ⟨later, since, .closure cells literals (Pairing.scopes_mono since paired), machines⟩

theorem runInStep_operator {result : Except Failure Value} {e : Expr}
    (explained : Explained e result) (spans : l.view span = l.view span') :
    RunInStep l ρ (Run.operator result span) (Run.operator result span') := by
  cases result with
  | ok v => exact runInStep_value (.scalar explained.1 explained.2)
  | error failure =>
      obtain ⟨cause, place⟩ := failure
      cases explained.1
      exact runInStep_fail spans cause

theorem runInStep_ident (call call' : Call) {scope scope' : ScopeId}
    (paired : ρ.scopes scope scope') (name : String) (spans : l.view span = l.view span') :
    RunInStep l ρ ((runSteps call scope).ident name span)
      ((runSteps call' scope').ident name span') := by
  intro m m' alike
  rw [runSteps_ident, runSteps_ident]
  have found := alike.lookup name paired
  generalize m.lookup scope name = value, m'.lookup scope' name = value' at found
  cases found with
  | some values => exact runInStep_value values m m' alike
  | none => exact runInStep_fail spans _ m m' alike

theorem runInStep_andThen {next next' : Value → Run Value} (first : RunInStep l ρ run run')
    (goesOn : ∀ later v v', ρ ≤ later → v.Corresponds l later v' →
      RunInStep l later (next v) (next' v')) :
    RunInStep l ρ (Run.plainly run next) (Run.plainly run' next') := by
  intro m m' alike
  have begun := first m m' alike
  cases ran : run m with
  | none =>
      cases ran' : run' m' with
      | none =>
          rw [Run.plainly_none ran, Run.plainly_none ran']
          exact .none
      | some result' =>
          rw [ran, ran'] at begun
          cases begun
  | some result =>
      obtain ⟨v, mid⟩ := result
      cases ran' : run' m' with
      | none =>
          rw [ran, ran'] at begun
          cases begun
      | some result' =>
          obtain ⟨v', mid'⟩ := result'
          rw [ran, ran'] at begun
          obtain ⟨⟨later, since, values, machines⟩⟩ := begun
          cases kind : v.isSignal with
          | true =>
              rw [Run.plainly_signal ran kind,
                Run.plainly_signal ran' (values.isSignal_eq.trans kind)]
              exact .some ⟨later, since, values, machines⟩
          | false =>
              rw [Run.plainly_plain ran kind,
                Run.plainly_plain ran' (values.isSignal_eq.trans kind)]
              exact Option.Rel.imp (fun _ _ => EndInStep.earlier since)
                (goesOn later v v' since values mid mid' machines)

theorem parallel_runSteps {call call' : Call} (calls : CallInStep l call call')
    (scope scope' : ScopeId) :
    (runSteps call scope).Parallel l.view (Value.Corresponds l)
      (fun ρ run run' => ρ.scopes scope scope' → RunInStep l ρ run run')
      (runSteps call' scope') where
  grows later values := values.mono later
  scalar plain noFunction := .scalar plain noFunction
  truth values := values.isTruthy_eq
  value values _ := runInStep_value values
  andThen first goesOn paired := runInStep_andThen (first paired)
    fun later v v' since values => goesOn later v v' since values (Pairing.scopes_mono since paired)
  ident name spans paired := runInStep_ident call call' paired name spans
  unary {_ span _ v _} op spans values _ := by
    change RunInStep l _ (Run.operator _ _) (Run.operator _ _)
    rw [op.operate_corresponds values]
    exact runInStep_operator (explained_unary span op (.ident span "") v) spans
  binary {_ span _ v _ w _} op spans values values' _ := by
    change RunInStep l _ (Run.operator _ _) (Run.operator _ _)
    rw [op.operate_corresponds values values']
    exact runInStep_operator (explained_binary span op (.ident span "") (.ident span "") v w) spans
  closure literals paired := runInStep_closure literals paired
  call spans functions args _ := calls spans functions args
  bind name values paired _ _ alike :=
    .some ⟨_, le_refl _, .null, alike.bind paired name values⟩
  ret values _ := runInStep_ret values
  settle body paired m m' alike := by
    rw [runSteps_settle, runSteps_settle]
    refine Option.Rel.map ?_ (body paired m m' alike)
    rintro result result' ⟨later, since, values, machines⟩
    exact ⟨later, since, values.unwrapReturn, machines⟩

end Steps

theorem callInStep_applyWithin (l : Likeness) (limit : Option Nat) (budget : Nat) :
    CallInStep l (applyWithin limit budget) (applyWithin limit budget) := by
  -- The bodies run on a smaller budget, in new scopes that are paired.
  induction budget using Nat.strongRecOn with
  | ind budget ih =>
      intro ρ function function' args args' span span' spans functions values m m' alike
      by_cases other : function.type ≠ .function
      · rw [applyWithin_noFunction other, applyWithin_noFunction (functions.type_eq ▸ other),
          functions.type_eq]
        exact runInStep_fail spans _ m m' alike
      cases functions with
      | int | bool | null | returned | error =>
          refine absurd ?_ other
          rintro ⟨⟩
      | @closure cell cell' captured captured' literal literal' cells literals scopes =>
          obtain ⟨params, bodies, -⟩ := FunctionLiteral.mk.inj literals
          have counts : literal'.params.length = args'.length ↔
              literal.params.length = args.length := by
            rw [params, values.length_eq]
          cases attempt limit m args (.closure cell literal captured) with
          | noFunction noFunction => exact absurd noFunction other
          | wrongCount wrong =>
              rw [applyWithin_wrongCount wrong, applyWithin_wrongCount (mt counts.mp wrong), params,
                values.length_eq]
              exact runInStep_fail spans _ m m' alike
          | exceeded count chosen reached =>
              cases chosen
              have reached' := reached
              rw [← alike.depth] at reached'
              rw [applyWithin_exceeded count reached,
                applyWithin_exceeded (counts.mpr count) reached']
              exact runInStep_fail spans _ m m' alike
          | enters count below =>
              have below' : ∀ most ∈ limit, m'.depth < most := by
                rw [alike.depth]
                exact below
              cases budget with
              | zero =>
                  rw [applyWithin_spent count below, applyWithin_spent (counts.mpr count) below']
                  exact .none
              | succ budget =>
                  rw [applyWithin_enter count below, applyWithin_enter (counts.mpr count) below']
                  obtain ⟨later, since, paired, entered⟩ := alike.enter scopes literal.params values
                  have inside := literal.body.walk_parallel
                    (parallel_runSteps (ih budget (Nat.lt_succ_self _)) m.scopes.size
                      m'.scopes.size) bodies later paired
                  rw [← Block.eval_eq_walk, ← Block.eval_eq_walk] at inside
                  rw [← params]
                  refine Option.Rel.map ?_ (inside _ _ entered)
                  rintro result result' ⟨last, grown, results, machines⟩
                  exact ⟨last, le_trans since grown, results.unwrapReturn, machines.leave⟩

theorem Machine.Corresponds.finish {l : Likeness} {ρ : Pairing} {m m' : Machine}
    {run run' : Run Value} (alike : m.Corresponds l ρ m') (limit : Option Nat)
    (inStep : RunInStep l ρ run run') :
    EndInStep l ρ (m.finish limit run) (m'.finish limit run') := by
  have ended := inStep m m' alike
  unfold Machine.finish
  generalize run m = result, run' m' = result' at ended
  cases ended with
  | some ends => exact ends
  | none =>
      obtain ⟨later, since, cells, machines⟩ := alike.newCell
      exact ⟨later, since, .error cells rfl l.nowhere, machines⟩

/-- The operations ask for the same, up to numbers and spans. -/
inductive Operation.Corresponds (l : Likeness) (ρ : Pairing) : Operation → Operation → Prop where
  | evaluate {limit : Option Nat} {node node' : Node} :
      node.mapSpans l.view = node'.mapSpans l.view → ρ.scopes scope scope' →
      Corresponds l ρ (.evaluate limit node scope) (.evaluate limit node' scope')
  | apply {limit : Option Nat} : function.Corresponds l ρ function' →
      List.Forall₂ (Value.Corresponds l ρ) args args' → l.view span = l.view span' →
      Corresponds l ρ (.apply limit function args span) (.apply limit function' args' span')

theorem Machine.Corresponds.perform {l : Likeness} {ρ : Pairing} {m m' : Machine}
    {op op' : Operation} (alike : m.Corresponds l ρ m') (ops : op.Corresponds l ρ op') :
    EndInStep l ρ (op.perform m) (op'.perform m') := by
  cases ops with
  | @evaluate scope scope' limit node node' nodes paired =>
      refine alike.finish limit ?_
      rw [Node.eval_eq_walk, Node.eval_eq_walk]
      exact Node.walk_parallel (parallel_runSteps (callInStep_applyWithin l limit _) scope scope')
        nodes ρ paired
  | @apply _ _ _ _ _ _ limit functions values spans =>
      exact alike.finish limit (callInStep_applyWithin l limit _ spans functions values)

/-- Nothing is seen of spans. -/
def Likeness.blind : Likeness where
  view _ := .zero
  place _ _ := True
  nowhere := trivial
  located _ _ := trivial

/-- The machines are the same up to numbers and spans, and stay so for some rounds. In each round
    the same is asked of both, up to numbers and spans, and the results are the same in this sense
    too. Equality never tells the machines apart. -/
def Machine.AgreeFor : (rounds : Nat) → Pairing → Machine → Machine → Prop
  | 0, ρ, m, m' => m.Corresponds .blind ρ m'
  | rounds + 1, ρ, m, m' => m.Corresponds .blind ρ m' ∧
      (∀ {v v' w w'}, v.Corresponds .blind ρ v' → w.Corresponds .blind ρ w' →
        BinaryOp.equal.operate v' w' = BinaryOp.equal.operate v w ∧
        BinaryOp.notEqual.operate v' w' = BinaryOp.notEqual.operate v w) ∧
      ∀ {op op' : Operation}, op.Corresponds .blind ρ op' → ∃ later, ρ ≤ later ∧
        (op.perform m).1.Corresponds .blind later (op'.perform m').1 ∧
        AgreeFor rounds later (op.perform m).2 (op'.perform m').2

/-- Spans are metadata. Machines that are the same up to spans, however their scopes and cells are
    numbered, stay so over any number of evaluations and applications, and so do all results. -/
theorem spans_are_metadata {ρ : Pairing} {m m' : Machine} (alike : m.Corresponds .blind ρ m')
    (rounds : Nat) : m.AgreeFor rounds ρ m' := by
  induction rounds generalizing ρ m m' with
  | zero => exact alike
  | succ rounds ih =>
      refine ⟨alike, ?_, ?_⟩
      · intro v v' w w' first second
        exact ⟨BinaryOp.operate_corresponds _ first second,
          BinaryOp.operate_corresponds _ first second⟩
      · intro op op' ops
        obtain ⟨later, since, values, machines⟩ := alike.perform ops
        exact ⟨later, since, values, ih machines⟩

/-- The only scope of one machine is the second of the other, which has taken three cells before.
    Both bind a function and a failure, in other cells, with other spans and in another order. The
    functions that they create differ in everything but what they do. -/
theorem spans_are_metadata_renumbered :
    let body span : Block := .mk span [.expr span (.ident span "x")]
    let f cell span scope : Value := .closure cell { params := ["x"], body := body span, span } scope
    let e cell span : Value := .error cell { cause := .divisionByZero, span := some span }
    let m : Machine :=
      { scopes := #[{ bindings := [("f", f 0 .zero 0), ("e", e 1 .zero)] }], nextCell := 2 }
    let m' : Machine :=
      { scopes := #[{}, { bindings := [("e", e 4 ⟨2, 5⟩), ("f", f 3 ⟨5, 9⟩ 1)] }], nextCell := 5 }
    let op : Operation := .evaluate none (.expression (.fn .zero .zero ["x"] (body .zero))) 0
    let op' : Operation :=
      .evaluate none (.expression (.fn ⟨5, 9⟩ ⟨5, 9⟩ ["x"] (body ⟨5, 9⟩))) 1
    let find name span scope : Operation := .evaluate none (.expression (.ident span name)) scope
    ∃ ρ : Pairing, m.AgreeFor 2 ρ m' ∧
      op.Corresponds .blind ρ op' ∧ (op.perform m).1.inspect = "fn(x) \x7b\nx\n\x7d" ∧
      (op'.perform m').1.identical (op.perform m).1 = false ∧
      (∀ name, (find name .zero 0).Corresponds .blind ρ (find name ⟨6, 7⟩ 1)) ∧
      ((find "f" .zero 0).perform m).1 = f 0 .zero 0 ∧
      ((find "f" ⟨6, 7⟩ 1).perform m').1 = f 3 ⟨5, 9⟩ 1 ∧
      ((find "e" .zero 0).perform m).1 = e 1 .zero ∧
      ((find "e" ⟨6, 7⟩ 1).perform m').1 = e 4 ⟨2, 5⟩ := by
  intro body f e m m' op op' find
  let ρ : Pairing :=
    { scopes := fun a a' => a = 0 ∧ a' = 1
      cells := fun c c' => c < 2 ∧ c' = 3 + c
      oneScope := by
        rintro a a' b b' ⟨rfl, rfl⟩ ⟨rfl, rfl⟩
        exact iff_of_true rfl rfl
      oneCell := by
        rintro c _ d _ ⟨_, rfl⟩ ⟨_, rfl⟩
        exact Nat.add_left_cancel_iff.symm }
  have bindings (name : String) : Option.Rel (Value.Corresponds .blind ρ)
      ([("f", f 0 .zero 0), ("e", e 1 .zero)].lookup name)
      ([("e", e 4 ⟨2, 5⟩), ("f", f 3 ⟨5, 9⟩ 1)].lookup name) := by
    by_cases isFunction : name = "f"
    · subst isFunction
      exact .some (.closure ⟨Nat.zero_lt_two, rfl⟩ rfl ⟨rfl, rfl⟩)
    · by_cases isFailure : name = "e"
      · subst isFailure
        exact .some (.error ⟨Nat.one_lt_two, rfl⟩ rfl trivial)
      · simp only [Bindings.lookup_cons, if_neg isFunction, if_neg isFailure]
        exact .none
  have alike : m.Corresponds .blind ρ m' := by
    refine ⟨rfl, ?_, ?_⟩
    · rintro a a' ⟨rfl, rfl⟩
      exact ⟨_, _, rfl, rfl, bindings, .none⟩
    · rintro c _ ⟨inside, rfl⟩
      exact ⟨inside, Nat.add_lt_add_left inside 3⟩
  exact ⟨ρ, spans_are_metadata alike 2, .evaluate rfl ⟨rfl, rfl⟩, rfl, rfl,
    fun _ => .evaluate rfl ⟨rfl, rfl⟩, rfl, rfl, rfl, rfl⟩

end TreeWalk
