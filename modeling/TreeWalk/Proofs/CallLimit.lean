import TreeWalk.Proofs.Watch

/-! # The limit on the depth of calls

A limit cuts evaluation off or does nothing. Where it does not cut off, no larger limit and no
absence of a limit changes the result or the machine; and it cuts off exactly when evaluation
without a limit would have more calls running at once than the limit allows.
-/

namespace TreeWalk

/-- Is the value the failure of a call beyond the limit? -/
def Value.cutOff : Value → Bool
  | .error _ ⟨.callDepthExceeded _, _⟩ => true
  | _ => false

theorem Value.uncut_of_plain {v : Value} (plain : v.isSignal = false) : v.cutOff = false := by
  cases v with
  | error => cases plain
  | _ => rfl

theorem Value.uncut_of_unwrapReturn {v : Value} (uncut : v.unwrapReturn.cutOff = false) :
    v.cutOff = false := by
  cases v with
  | returned => rfl
  | _ => exact uncut

/-- Evaluation without a limit ends: some number of nested calls is enough for it. -/
def Machine.Ends (m : Machine) (node : Node) (scope : ScopeId) (result : Value × Machine) : Prop :=
  ∃ budget, node.eval (applyWithin none budget) scope m = some result

/-- Evaluation without a limit ends, and `peak` is the greatest number of calls that run at once. -/
def Machine.EndsAt (m : Machine) (node : Node) (scope : ScopeId) (result : Value × Machine)
    (peak : Nat) : Prop :=
  ∃ budget, node.watch none budget scope m = some ⟨result.1, peak, result.2⟩

/-- Whenever evaluation without a limit ends, the calls that run at once can be counted. -/
theorem Machine.ends_iff {m : Machine} {node : Node} {scope : ScopeId} {result : Value × Machine} :
    m.Ends node scope result ↔ ∃ peak, m.EndsAt node scope result peak := by
  constructor
  · rintro ⟨budget, ended⟩
    rw [← Node.erase_watch] at ended
    obtain ⟨seen, watched, rfl⟩ := Option.map_eq_some_iff.mp ended
    exact ⟨seen.peak, budget, watched⟩
  · rintro ⟨peak, budget, watched⟩
    refine ⟨budget, ?_⟩
    rw [← Node.erase_watch, Watched.erase, watched]
    rfl

/-- The second computation does what the first does, unless that is cut off. -/
def Extends (run longer : Run Value) : Prop :=
  ∀ m v m', run m = some (v, m') → v.cutOff = false → longer m = some (v, m')

theorem extends_refl (run : Run Value) : Extends run run := fun _ _ _ ran _ => ran

theorem extends_andThen {run longer : Run Value} {f g : Value → Run Value}
    (first : Extends run longer) (next : ∀ v, v.isSignal = false → Extends (f v) (g v)) :
    Extends (Run.plainly run f) (Run.plainly longer g) := by
  intro m v m' ran uncut
  cases begun : run m with
  | none =>
      rw [Run.plainly_none begun] at ran
      cases ran
  | some result =>
      obtain ⟨w, mid⟩ := result
      cases kind : w.isSignal with
      | true =>
          rw [Run.plainly_signal begun kind] at ran
          cases ran
          exact Run.plainly_signal (first m v m' begun uncut) kind
      | false =>
          rw [Run.plainly_plain begun kind] at ran
          rw [Run.plainly_plain (first m w mid begun (Value.uncut_of_plain kind)) kind]
          exact next w kind mid v m' ran uncut

theorem extends_map {run longer : Run Value} {f : Value × Machine → Value × Machine}
    (keeps : ∀ result, (f result).1.cutOff = false → result.1.cutOff = false) {m m' : Machine}
    {v : Value} (body : Extends run longer) (ran : (run m).map f = some (v, m'))
    (uncut : v.cutOff = false) : (longer m).map f = some (v, m') := by
  obtain ⟨result, begun, same⟩ := Option.map_eq_some_iff.mp ran
  have uncutBody : result.1.cutOff = false := keeps result (by rw [same]; exact uncut)
  rw [body m result.1 result.2 begun uncutBody]
  exact congrArg some same

theorem extends_steps {call longer : Call} (scope : ScopeId)
    (calls : ∀ function args span, Extends (call function args span) (longer function args span)) :
    Steps.Related Extends (runSteps call scope) (runSteps longer scope) where
  value _ := extends_refl _
  andThen := extends_andThen
  ident _ _ := extends_refl _
  unary _ _ _ _ := extends_refl _
  binary _ _ _ _ _ _ := extends_refl _
  closure _ := extends_refl _
  call span function args _ _ := calls function args span
  bind _ _ _ := extends_refl _
  ret _ := extends_refl _
  settle body := fun m v m' ran uncut => by
    rw [runSteps_settle] at ran ⊢
    exact extends_map (fun _ => Value.uncut_of_unwrapReturn) body ran uncut

theorem fail_cutOff {most : Nat} {span : Span} {m m' : Machine} {v : Value}
    (failed : Run.fail { cause := .callDepthExceeded most } span m = some (v, m')) :
    v.cutOff = true := by
  cases failed
  rfl

/-- A looser limit refuses no call that a stricter one lets pass. -/
theorem extends_call {limit larger : Option Nat} {budget more : Nat} (enough : budget ≤ more)
    (looser : ∀ high ∈ larger, ∃ low ∈ limit, low ≤ high) (function : Value) (args : List Value)
    (span : Span) :
    Extends (applyWithin limit budget function args span)
      (applyWithin larger more function args span) := by
  induction budget using Nat.strongRecOn generalizing more function args span with
  | ind budget ih =>
      intro m v m' ran uncut
      cases attempt limit m args function with
      | noFunction other =>
          rw [applyWithin_noFunction other] at ran ⊢
          exact ran
      | wrongCount wrong =>
          rw [applyWithin_wrongCount wrong] at ran ⊢
          exact ran
      | exceeded count chosen reached =>
          cases chosen
          rw [applyWithin_exceeded count reached] at ran
          rw [fail_cutOff ran] at uncut
          cases uncut
      | enters count below =>
          have belowLarger : ∀ high ∈ larger, m.depth < high := by
            intro high chosen
            obtain ⟨low, chosenLow, le⟩ := looser high chosen
            exact Nat.lt_of_lt_of_le (below low chosenLow) le
          cases budget with
          | zero =>
              rw [applyWithin_spent count below] at ran
              cases ran
          | succ budget =>
              obtain ⟨more, rfl⟩ : ∃ less, more = less + 1 := ⟨more - 1, by omega⟩
              rw [applyWithin_enter count below, Block.eval_eq_walk] at ran
              rw [applyWithin_enter count belowLarger, Block.eval_eq_walk]
              have inner := ih budget (Nat.lt_succ_self _) (Nat.le_of_succ_le_succ enough)
              exact extends_map (fun _ => Value.uncut_of_unwrapReturn)
                (Block.walk_related (extends_steps m.scopes.size inner) _) ran uncut

/-- A result under the limit beside what was observed without one: the same as long as the observed
    peak stays within the limit, and cut off otherwise. -/
structure CutsOff (limit : Nat) (m : Machine) (seen : Observed) (result : Option (Value × Machine)) :
    Prop where
  depth : seen.machine.depth = m.depth
  within : seen.peak ≤ limit → result = some seen.result
  beyond : limit < seen.peak → ∃ cell failure m',
    result = some (.error cell failure, m') ∧ failure.cause = .callDepthExceeded limit

/-- The computation is cut off at the limit and otherwise does what the watched one does. The budget
    is at least what the limit leaves. -/
def CutAt (limit budget : Nat) (watched : Watched) (run : Run Value) : Prop :=
  ∀ m seen, limit ≤ m.depth + budget → watched m = some seen → CutsOff limit m seen (run m)

/-- The computation leaves as many calls running as there were. -/
def KeepsDepth (run : Run Value) : Prop :=
  ∀ m v m', run m = some (v, m') → m'.depth = m.depth

theorem Still.keepsDepth {run : Run Value} (still : Still run) : KeepsDepth run := by
  intro m v m' ran
  obtain ⟨w, last, ended, same⟩ := still m
  cases ran.symm.trans ended
  exact same

section CutAt

variable {limit budget : Nat}

theorem cutAt_quiet {run : Run Value} (keeps : KeepsDepth run) :
    CutAt limit budget (.quiet run) run := by
  intro m seen _ watched
  obtain ⟨⟨v, m'⟩, ran, rfl⟩ := Option.map_eq_some_iff.mp watched
  exact ⟨keeps m v m' ran, fun _ => ran, fun above => absurd above (Nat.not_lt_zero limit)⟩

theorem cutAt_andThen {watched : Watched} {run : Run Value} {f : Value → Watched}
    {g : Value → Run Value} (first : CutAt limit budget watched run)
    (next : ∀ v, v.isSignal = false → CutAt limit budget (f v) (g v)) :
    CutAt limit budget (watched.andThen f) (Run.plainly run g) := by
  intro m seen enough ended
  obtain ⟨begun, watchedFirst, rest⟩ := Option.bind_eq_some_iff.mp ended
  have cuts := first m begun enough watchedFirst
  have stops (above : limit < begun.peak) : ∃ cell failure m',
      Run.plainly run g m = some (.error cell failure, m') ∧
        failure.cause = .callDepthExceeded limit := by
    obtain ⟨cell, failure, m', ran, cause⟩ := cuts.beyond above
    exact ⟨cell, failure, m', Run.plainly_signal ran rfl, cause⟩
  cases kind : begun.value.isSignal with
  | true =>
      simp only [kind, if_true, Option.some.injEq] at rest
      subst rest
      exact ⟨cuts.depth, fun inside => Run.plainly_signal (cuts.within inside) kind, stops⟩
  | false =>
      simp only [kind, Bool.false_eq_true, if_false] at rest
      obtain ⟨later, watchedNext, rfl⟩ := Option.map_eq_some_iff.mp rest
      have enoughNext : limit ≤ begun.machine.depth + budget := by rw [cuts.depth]; exact enough
      have cutsNext := next begun.value kind begun.machine later enoughNext watchedNext
      constructor
      case depth => exact cutsNext.depth.trans cuts.depth
      case within =>
        intro inside
        obtain ⟨insideFirst, insideNext⟩ := Nat.max_le.mp inside
        rw [Run.plainly_plain (cuts.within insideFirst) kind]
        exact cutsNext.within insideNext
      case beyond =>
        intro above
        by_cases insideFirst : begun.peak ≤ limit
        · rw [Run.plainly_plain (cuts.within insideFirst) kind]
          refine cutsNext.beyond ?_
          simp only [Nat.max_def] at above
          split at above <;> omega
        · exact stops (Nat.lt_of_not_le insideFirst)

theorem cutAt_settle (call : Call) (scope : ScopeId) {watched : Watched} {run : Run Value}
    (body : CutAt limit budget watched run) :
    CutAt limit budget watched.settle ((runSteps call scope).settle run) := by
  intro m seen enough ended
  obtain ⟨inner, watchedBody, rfl⟩ := Option.map_eq_some_iff.mp ended
  have cuts := body m inner enough watchedBody
  rw [runSteps_settle]
  constructor
  case depth => exact cuts.depth
  case within =>
    intro inside
    rw [cuts.within inside]
    rfl
  case beyond =>
    intro above
    obtain ⟨cell, failure, m', ran, cause⟩ := cuts.beyond above
    rw [ran]
    exact ⟨cell, failure, m', rfl, cause⟩

theorem cutAt_steps {watchedCall : WatchedCall} {call : Call} (scope : ScopeId)
    (calls : ∀ function args span,
      CutAt limit budget (watchedCall function args span) (call function args span)) :
    Steps.Related (CutAt limit budget) (watchSteps watchedCall scope) (runSteps call scope) where
  value _ := cutAt_quiet (still_value _).keepsDepth
  andThen := cutAt_andThen
  ident name span := cutAt_quiet (still_ident call scope name span).keepsDepth
  unary op span v _ := cutAt_quiet (still_operator (op.operate v) span).keepsDepth
  binary op span v w _ _ := cutAt_quiet (still_operator (op.operate v w) span).keepsDepth
  closure literal := cutAt_quiet (still_closure literal scope).keepsDepth
  call span function args _ _ := calls function args span
  bind name v _ := cutAt_quiet (still_bind call scope name v).keepsDepth
  ret _ := cutAt_quiet (still_ret _).keepsDepth
  settle := cutAt_settle call scope

theorem cutsOff_enter {cell : CellId} {literal : FunctionLiteral} {captured : ScopeId}
    {args : List Value} {span : Span} {most : Nat} {m : Machine} {seen : Observed}
    (count : literal.params.length = args.length) (enough : limit ≤ m.depth + budget)
    (body : CutAt limit (budget - 1)
      (literal.body.walk (watchSteps (watchWithin none most) m.scopes.size))
      (literal.body.eval (applyWithin (some limit) (budget - 1)) m.scopes.size))
    (ended : watchWithin none (most + 1) (.closure cell literal captured) args span m = some seen) :
    CutsOff limit m seen
      (applyWithin (some limit) budget (.closure cell literal captured) args span m) := by
  have unlimited : ∀ high ∈ (none : Option Nat), m.depth < high := nofun
  rw [watchWithin_enter count unlimited] at ended
  obtain ⟨inner, watchedBody, rfl⟩ := Option.map_eq_some_iff.mp ended
  have cuts := body _ inner (by rw [Machine.depth_enter]; omega) watchedBody
  have entered (below : m.depth < limit) :
      applyWithin (some limit) budget (.closure cell literal captured) args span m =
        (literal.body.eval (applyWithin (some limit) (budget - 1)) m.scopes.size
          (m.enter captured (literal.params.zip args))).map leaveCall := by
    obtain ⟨less, rfl⟩ : ∃ less, budget = less + 1 := ⟨budget - 1, by omega⟩
    refine applyWithin_enter count ?_
    rintro _ ⟨⟩
    exact below
  constructor
  case depth =>
    change inner.machine.depth - 1 = m.depth
    rw [cuts.depth, Machine.depth_enter]
    rfl
  case within =>
    intro inside
    obtain ⟨below, insideBody⟩ := Nat.max_le.mp inside
    rw [entered below, cuts.within insideBody]
    rfl
  case beyond =>
    intro above
    by_cases reached : limit ≤ m.depth
    · rw [applyWithin_exceeded count reached]
      exact ⟨_, _, _, rfl, rfl⟩
    · have aboveBody : limit < inner.peak := by
        simp only [Observed.leave, Nat.max_def] at above
        split at above <;> omega
      obtain ⟨cell', failure, m', ran, cause⟩ := cuts.beyond aboveBody
      rw [entered (Nat.lt_of_not_le reached), ran]
      exact ⟨cell', failure, m'.leave, rfl, cause⟩

theorem cutAt_call (most : Nat) (function : Value) (args : List Value) (span : Span) :
    CutAt limit budget (watchWithin none most function args span)
      (applyWithin (some limit) budget function args span) := by
  induction most using Nat.strongRecOn generalizing budget function args span with
  | ind most ih =>
      intro m seen enough ended
      by_cases enters : Enters none m args function
      · obtain ⟨cell, literal, captured, rfl, count, below⟩ := enters
        cases most with
        | zero =>
            rw [watchWithin_zero, Watched.quiet, applyWithin_spent count below] at ended
            cases ended
        | succ most =>
            refine cutsOff_enter count enough ?_ ended
            rw [Block.eval_eq_walk]
            exact Block.walk_related (cutAt_steps m.scopes.size (ih most (Nat.lt_succ_self _))) _
      · obtain ⟨failure, fails⟩ := applyWithin_refused enters span
        rw [watchWithin_refused enters, fails] at ended
        rw [fails]
        exact cutAt_quiet (still_fail failure span).keepsDepth m seen enough ended

end CutAt

section Evaluate

variable {m : Machine} {node : Node} {scope : ScopeId} {limit : Nat}

theorem evaluate_of_eval {limit : Option Nat} {result : Value × Machine}
    (ran : node.eval (applyWithin limit (callBudget limit)) scope m = some result) :
    m.evaluate limit node scope = result := by
  simp only [Machine.evaluate, Machine.finish, ran]

theorem eval_of_uncut (uncut : (m.evaluate (some limit) node scope).1.cutOff = false) :
    node.eval (applyWithin (some limit) limit) scope m =
      some (m.evaluate (some limit) node scope) := by
  cases ran : node.eval (applyWithin (some limit) limit) scope m with
  | some result => rw [evaluate_of_eval ran]
  | none =>
      simp only [Machine.evaluate, Machine.finish, callBudget, Option.getD_some, ran] at uncut
      cases uncut

theorem eval_larger {larger : Option Nat} {more : Nat}
    (uncut : (m.evaluate (some limit) node scope).1.cutOff = false) (enough : limit ≤ more)
    (looser : ∀ high ∈ larger, limit ≤ high) :
    node.eval (applyWithin larger more) scope m = some (m.evaluate (some limit) node scope) := by
  have ran := eval_of_uncut uncut
  rw [Node.eval_eq_walk] at ran ⊢
  have calls : ∀ function args span, Extends (applyWithin (some limit) limit function args span)
      (applyWithin larger more function args span) :=
    extends_call enough fun high chosen => ⟨limit, rfl, looser high chosen⟩
  exact node.walk_related (extends_steps scope calls) m _ _ ran uncut

theorem cutsOff_evaluate {result : Value × Machine} {peak : Nat}
    (ended : m.EndsAt node scope result peak) (limit : Nat) :
    CutsOff limit m ⟨result.1, peak, result.2⟩
      (node.eval (applyWithin (some limit) limit) scope m) := by
  obtain ⟨most, watched⟩ := ended
  rw [Node.eval_eq_walk]
  exact node.walk_related (cutAt_steps scope (cutAt_call most)) m _ (Nat.le_add_left _ _) watched

end Evaluate

/-- The limit on the depth of calls never changes a result except to cut it off. A result that is not
    cut off stays the same under every larger limit and without one. And where evaluation without a
    limit ends with at most `peak` calls running at once, a limit from `peak` on gives that result
    and a lower one gives the failure of exceeding it. -/
theorem evaluate_cut_off_or_same (m : Machine) (node : Node) (scope : ScopeId) :
    (∀ limit, (m.evaluate (some limit) node scope).1.cutOff = false →
      (∀ larger, limit ≤ larger →
        m.evaluate (some larger) node scope = m.evaluate (some limit) node scope) ∧
      m.Ends node scope (m.evaluate (some limit) node scope) ∧
      (limit ≤ callBudget none →
        m.evaluate none node scope = m.evaluate (some limit) node scope)) ∧
    ∀ result peak, m.EndsAt node scope result peak →
      (∀ limit, peak ≤ limit → m.evaluate (some limit) node scope = result) ∧
      ∀ limit, limit < peak → ∃ cell failure,
        (m.evaluate (some limit) node scope).1 = .error cell failure ∧
          failure.cause = .callDepthExceeded limit := by
  constructor
  · intro limit uncut
    refine ⟨?_, ?_, ?_⟩
    · intro larger le
      refine evaluate_of_eval (eval_larger uncut le ?_)
      rintro _ ⟨⟩
      exact le
    · exact ⟨limit, eval_larger uncut (Nat.le_refl limit) nofun⟩
    · intro le
      exact evaluate_of_eval (eval_larger uncut le nofun)
  · intro result peak ended
    refine ⟨?_, ?_⟩
    · intro limit le
      exact evaluate_of_eval ((cutsOff_evaluate ended limit).within le)
    · intro limit lt
      obtain ⟨cell, failure, m', ran, cause⟩ := (cutsOff_evaluate ended limit).beyond lt
      refine ⟨cell, failure, ?_, cause⟩
      rw [evaluate_of_eval ran]

/-- `let f = fn(n) { if (n < 1) { 0 } else { f(n - 1) } }; f(1)` has two calls running at once. -/
theorem evaluate_cut_off_or_same_countdown :
    let m : Machine := { scopes := #[{}] }
    let f : Expr := .fn .zero .zero ["n"] (.mk .zero [.expr .zero
      (.cond .zero (.binary .zero .less (.ident .zero "n") (.int .zero 1))
        (.mk .zero [.expr .zero (.int .zero 0)])
        (some (.mk .zero [.expr .zero (.call .zero (.ident .zero "f")
          [.binary .zero .sub (.ident .zero "n") (.int .zero 1)])])))])
    let node : Node := .program
      ⟨[.bind .zero "f" f, .expr .zero (.call .zero (.ident .zero "f") [.int .zero 1])]⟩
    m.evaluate (some 7) node 0 = m.evaluate (some 2) node 0 ∧
      ∃ cell failure, (m.evaluate (some 1) node 0).1 = .error cell failure ∧
        failure.cause = .callDepthExceeded 1 := by
  intro m f node
  obtain ⟨uncut, counted⟩ := evaluate_cut_off_or_same m node 0
  have passes : (m.evaluate (some 2) node 0).1.cutOff = false := by decide +kernel
  have peak : (node.watch none 2 0 m).map Observed.peak = some 2 := by decide +kernel
  obtain ⟨seen, watched, same⟩ := Option.map_eq_some_iff.mp peak
  have ended : m.EndsAt node 0 seen.result 2 := ⟨2, by rw [watched, ← same]; rfl⟩
  exact ⟨(uncut 2 passes).1 7 (by decide), (counted _ 2 ended).2 1 (by decide)⟩

end TreeWalk
