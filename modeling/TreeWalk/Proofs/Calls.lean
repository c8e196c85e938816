import TreeWalk.Proofs.Walk

/-! # What a call does

A call enters a new scope with its arguments bound in it, one call deeper, and leaves it again with
the value of the body. The equations below say when it does so and what it does otherwise.
-/

namespace TreeWalk

namespace Machine

/-- The machine inside a call of a function that captured a scope. -/
def enter (m : Machine) (captured : ScopeId) (arguments : List (String × Value)) : Machine :=
  let m := (m.newScope (some captured)).2.bindAll m.scopes.size arguments
  { m with depth := m.depth + 1 }

def leave (m : Machine) : Machine := { m with depth := m.depth - 1 }

@[simp] theorem depth_bindAll (m : Machine) (scope : ScopeId) (arguments : List (String × Value)) :
    (m.bindAll scope arguments).depth = m.depth := by
  induction arguments generalizing m with
  | nil => rfl
  | cons binding rest ih => exact ih (m.bind scope binding.1 binding.2)

@[simp] theorem depth_enter (m : Machine) (captured : ScopeId)
    (arguments : List (String × Value)) : (m.enter captured arguments).depth = m.depth + 1 :=
  congrArg (· + 1) (depth_bindAll _ _ _)

end Machine

/-- What becomes of an attempt to call a value under a limit. -/
inductive Attempt (limit : Option Nat) (m : Machine) (args : List Value) : Value → Prop where
  | noFunction (other : callee.type ≠ .function) : Attempt limit m args callee
  | wrongCount (wrong : literal.params.length ≠ args.length) :
      Attempt limit m args (.closure cell literal captured)
  | exceeded (count : literal.params.length = args.length) (chosen : limit = some most)
      (reached : most ≤ m.depth) : Attempt limit m args (.closure cell literal captured)
  | enters (count : literal.params.length = args.length)
      (below : ∀ most ∈ limit, m.depth < most) :
      Attempt limit m args (.closure cell literal captured)

theorem attempt (limit : Option Nat) (m : Machine) (args : List Value) (callee : Value) :
    Attempt limit m args callee := by
  cases callee with
  | closure cell literal captured =>
      by_cases count : literal.params.length = args.length
      · cases limit with
        | none => exact .enters count fun _ chosen => nomatch chosen
        | some most =>
            by_cases reached : most ≤ m.depth
            · exact .exceeded count rfl reached
            · refine .enters count ?_
              rintro most ⟨⟩
              exact Nat.lt_of_not_le reached
      · exact .wrongCount count
  | _ => exact .noFunction nofun

/-- The call starts: it is one of a function with the right number of arguments, below the limit. -/
def Enters (limit : Option Nat) (m : Machine) (args : List Value) (callee : Value) : Prop :=
  ∃ cell literal captured, callee = .closure cell literal captured ∧
    literal.params.length = args.length ∧ ∀ most ∈ limit, m.depth < most

/-- The causes of calls that do not start. -/
def Cause.refusesCall : Cause → Bool
  | .notAFunction _ | .wrongArgumentCount _ _ | .callDepthExceeded _ => true
  | _ => false

def leaveCall (result : Value × Machine) : Value × Machine :=
  (result.1.unwrapReturn, result.2.leave)

section Equations

variable {limit : Option Nat} {budget : Nat} {cell : CellId} {literal : FunctionLiteral}
  {captured : ScopeId} {args : List Value} {span : Span} {m : Machine}

theorem applyWithin_noFunction {callee : Value} (noFunction : callee.type ≠ .function) :
    applyWithin limit budget callee args span =
      Run.fail { cause := .notAFunction callee.type } span := by
  cases callee with
  | closure => exact absurd rfl noFunction
  | _ => cases budget <;> rfl

theorem applyWithin_wrongCount (wrong : literal.params.length ≠ args.length) :
    applyWithin limit budget (.closure cell literal captured) args span =
      Run.fail { cause := .wrongArgumentCount literal.params.length args.length } span := by
  funext m
  cases budget <;> simp only [applyWithin, wrong, ne_eq, not_false_eq_true, if_true]

theorem applyWithin_exceeded {most : Nat} (count : literal.params.length = args.length)
    (reached : most ≤ m.depth) :
    applyWithin (some most) budget (.closure cell literal captured) args span m =
      Run.fail { cause := .callDepthExceeded most } span m := by
  cases budget <;>
    simp only [applyWithin, count, ne_eq, not_true_eq_false, if_false, Option.filter, reached,
      decide_true, if_true]

theorem passes_of_below (below : ∀ most ∈ limit, m.depth < most) :
    limit.filter (· ≤ m.depth) = none := by
  rw [Option.filter_eq_none_iff]
  intro most chosen
  simpa using below most chosen

theorem applyWithin_spent (count : literal.params.length = args.length)
    (below : ∀ most ∈ limit, m.depth < most) :
    applyWithin limit 0 (.closure cell literal captured) args span m = none := by
  simp only [applyWithin, count, ne_eq, not_true_eq_false, if_false, passes_of_below below]

theorem applyWithin_enter (count : literal.params.length = args.length)
    (below : ∀ most ∈ limit, m.depth < most) :
    applyWithin limit (budget + 1) (.closure cell literal captured) args span m =
      (literal.body.eval (applyWithin limit budget) m.scopes.size
        (m.enter captured (literal.params.zip args))).map leaveCall := by
  simp only [applyWithin, count, ne_eq, not_true_eq_false, if_false, passes_of_below below]
  split
  · rename_i spent
    exact (congrArg (Option.map leaveCall) spent).symm
  · rename_i value last ran
    exact (congrArg (Option.map leaveCall) ran).symm

/-- Whatever its budget, a call that does not start fails at the span of the call. -/
theorem applyWithin_refuses_or_enters (limit : Option Nat) (budget : Nat) (callee : Value)
    (args : List Value) (span : Span) (m : Machine) :
    (∃ cause : Cause, cause.refusesCall = true ∧
      applyWithin limit budget callee args span m = Run.fail { cause } span m) ∨
      Enters limit m args callee := by
  cases attempt limit m args callee with
  | noFunction other => exact .inl ⟨_, rfl, by rw [applyWithin_noFunction other]⟩
  | wrongCount wrong => exact .inl ⟨_, rfl, by rw [applyWithin_wrongCount wrong]⟩
  | exceeded count chosen reached =>
      cases chosen
      exact .inl ⟨_, rfl, applyWithin_exceeded count reached⟩
  | enters count below => exact .inr ⟨_, _, _, rfl, count, below⟩

/-- A call that does not start although there is no limit fails in the same way under any limit. -/
theorem applyWithin_refused {callee : Value} (refused : ¬ Enters none m args callee) (span : Span) :
    ∃ failure, ∀ limit budget,
      applyWithin limit budget callee args span = Run.fail failure span := by
  cases attempt none m args callee with
  | noFunction other => exact ⟨_, fun _ _ => applyWithin_noFunction other⟩
  | wrongCount wrong => exact ⟨_, fun _ _ => applyWithin_wrongCount wrong⟩
  | exceeded count chosen reached => cases chosen
  | enters count below => exact absurd ⟨_, _, _, rfl, count, below⟩ refused

end Equations

/-- What refuses calls as application does, and otherwise runs the body on one nested call less, is
    application. -/
theorem eq_applyWithin {limit : Option Nat} {apply : Nat → Call}
    (refused : ∀ {budget function args span m}, ¬ Enters limit m args function →
      apply budget function args span m = applyWithin limit budget function args span m)
    (spent : ∀ function args span, apply 0 function args span =
      applyWithin limit 0 function args span)
    (entered : ∀ {budget cell literal captured args span} {m : Machine},
      literal.params.length = args.length → (∀ most ∈ limit, m.depth < most) →
        apply (budget + 1) (.closure cell literal captured) args span m =
          (literal.body.walk (runSteps (apply budget) m.scopes.size)
            (m.enter captured (literal.params.zip args))).map leaveCall) :
    apply = applyWithin limit := by
  funext budget
  induction budget with
  | zero =>
      funext function args span
      exact spent function args span
  | succ budget ih =>
      funext function args span m
      by_cases enters : Enters limit m args function
      · obtain ⟨cell, literal, captured, rfl, count, below⟩ := enters
        rw [entered count below, applyWithin_enter count below, ih, ← Block.eval_eq_walk]
      · exact refused enters

end TreeWalk
