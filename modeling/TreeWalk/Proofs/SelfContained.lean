import Mathlib.Order.Basic
import TreeWalk.Proofs.Forest

/-! # Machines that know what they name

What a machine names by number are scopes and the cells of created values. It is self-contained if
all of them exist. Nothing that can be asked of a self-contained machine, in terms of what it knows,
makes it name what does not exist; the machine grows, and no call is left running.
-/

namespace TreeWalk

/-- All scopes and cells that the value is made of are among the first ones, so many of each. -/
def Value.KnownTo (extent : Nat × Nat) : Value → Prop
  | .closure cell _ scope => scope < extent.1 ∧ cell < extent.2
  | .returned cell value => cell < extent.2 ∧ value.KnownTo extent
  | .error cell _ => cell < extent.2
  | .int _ | .bool _ | .null => True

namespace Value.KnownTo

variable {extent more : Nat × Nat} {v : Value}

theorem mono (grows : extent ≤ more) (known : v.KnownTo extent) : v.KnownTo more := by
  induction v with
  | closure =>
      exact ⟨Nat.lt_of_lt_of_le known.1 grows.1, Nat.lt_of_lt_of_le known.2 grows.2⟩
  | returned cell value ih => exact ⟨Nat.lt_of_lt_of_le known.1 grows.2, ih known.2⟩
  | error => exact Nat.lt_of_lt_of_le known grows.2
  | _ => trivial

theorem unwrapReturn (known : v.KnownTo extent) : v.unwrapReturn.KnownTo extent := by
  cases v with
  | returned => exact known.2
  | _ => exact known

theorem scalar (plain : v.isSignal = false) (noFunction : v.type ≠ .function) :
    v.KnownTo extent := by
  cases v with
  | closure => exact absurd rfl noFunction
  | error | returned => cases plain
  | _ => trivial

end Value.KnownTo

namespace Machine

/-- How many scopes and how many cells there are. -/
def extent (m : Machine) : Nat × Nat := (m.scopes.size, m.nextCell)

/-- Every scope and every cell that is named in the machine exists in it. -/
structure SelfContained (m : Machine) : Prop where
  parents : ∀ {child parent}, m.HasParent child parent → parent < m.scopes.size
  values : m.Binds (Value.KnownTo m.extent)

/-- What a computation that began on the machine leaves behind when it ends with this result. -/
structure Yields (m : Machine) (result : Value × Machine) : Prop where
  grows : m.extent ≤ result.2.extent
  depth : result.2.depth = m.depth
  contained : result.2.SelfContained
  known : result.1.KnownTo result.2.extent

variable {m m' : Machine} {scope : ScopeId} {v : Value}

@[simp] theorem extent_bind (m : Machine) (scope : ScopeId) (name : String) (value : Value) :
    (m.bind scope name value).extent = m.extent :=
  congrArg (·, m.nextCell) (m.size_bind scope name value)

@[simp] theorem extent_bindAll (m : Machine) (scope : ScopeId) (arguments : List (String × Value)) :
    (m.bindAll scope arguments).extent = m.extent := by
  induction arguments generalizing m with
  | nil => rfl
  | cons binding rest ih => exact (ih _).trans (m.extent_bind scope binding.1 binding.2)

theorem extent_newScope (m : Machine) (parent : Option ScopeId) :
    (m.newScope parent).2.extent = (m.scopes.size + 1, m.nextCell) :=
  congrArg (·, m.nextCell) (m.size_newScope parent)

theorem extent_enter (m : Machine) (captured : ScopeId) (arguments : List (String × Value)) :
    (m.enter captured arguments).extent = (m.scopes.size + 1, m.nextCell) :=
  (extent_bindAll _ _ arguments).trans (m.extent_newScope _)

theorem extent_newCell (m : Machine) : m.extent ≤ m.newCell.2.extent :=
  ⟨Nat.le_refl _, Nat.le_succ _⟩

namespace SelfContained

theorem empty : ({} : Machine).SelfContained where
  parents above := by cases above
  values _ _ found := nomatch found

theorem of_parents (contained : m.SelfContained) (grows : m.extent ≤ m'.extent)
    (parents : m'.parent? = m.parent?) (values : m'.Binds (Value.KnownTo m'.extent)) :
    m'.SelfContained where
  parents above := by
    rw [HasParent, parents] at above
    exact Nat.lt_of_lt_of_le (contained.parents above) grows.1
  values := values

theorem newCell (contained : m.SelfContained) : m.newCell.2.SelfContained := by
  refine contained.of_parents m.extent_newCell rfl ?_
  exact (contained.values.imp fun _ => .mono m.extent_newCell).of_scopes rfl

theorem bind (contained : m.SelfContained) (scope : ScopeId) (name : String)
    (known : v.KnownTo m.extent) : (m.bind scope name v).SelfContained := by
  refine contained.of_parents (m.extent_bind scope name v).ge (m.parent?_bind scope name v) ?_
  rw [extent_bind]
  exact contained.values.bind scope name known

theorem add (contained : m.SelfContained) {parent : Option ScopeId}
    (extent : m'.extent = (m.scopes.size + 1, m.nextCell))
    (parents : ∀ scope, m'.parent? scope =
      if scope = m.scopes.size then parent else m.parent? scope)
    (inside : ∀ above ∈ parent, above < m.scopes.size)
    (values : m'.Binds (Value.KnownTo m.extent)) : m'.SelfContained where
  parents {child above} := by
    intro found
    have size : m'.scopes.size = m.scopes.size + 1 := congrArg Prod.fst extent
    rw [HasParent, parents] at found
    rw [size]
    split at found
    · exact Nat.lt_succ_of_lt (inside above found)
    · exact Nat.lt_succ_of_lt (contained.parents found)
  values := by
    have grows : m.extent ≤ m'.extent := by
      rw [extent]
      exact ⟨Nat.le_succ _, Nat.le_refl _⟩
    exact values.imp fun _ => .mono grows

theorem newScope (contained : m.SelfContained) {parent : Option ScopeId}
    (inside : ∀ above ∈ parent, above < m.scopes.size) : (m.newScope parent).2.SelfContained :=
  contained.add (m.extent_newScope parent) (m.parent?_newScope parent) inside
    (contained.values.newScope parent)

theorem enter (contained : m.SelfContained) {captured : ScopeId}
    (inside : captured < m.scopes.size) {params : List String} {args : List Value}
    (known : ∀ v ∈ args, v.KnownTo m.extent) :
    (m.enter captured (params.zip args)).SelfContained := by
  refine contained.add (m.extent_enter captured _) (m.parent?_enter captured _) ?_
    (contained.values.enter captured known)
  rintro above ⟨⟩
  exact inside

theorem leave (contained : m.SelfContained) : m.leave.SelfContained :=
  contained.of_parents (le_refl m.extent) rfl (contained.values.of_scopes rfl)

end SelfContained

namespace Yields

variable {result : Value × Machine}

theorem same (contained : m.SelfContained) (known : v.KnownTo m.extent) : m.Yields (v, m) where
  grows := le_refl _
  depth := rfl
  contained := contained
  known := known

theorem created (contained : m.SelfContained) (known : v.KnownTo m.newCell.2.extent) :
    m.Yields (v, m.newCell.2) where
  grows := m.extent_newCell
  depth := rfl
  contained := contained.newCell
  known := known

theorem fail (contained : m.SelfContained) (failure : Failure) (span : Span) :
    ∀ result, Run.fail failure span m = some result → m.Yields result := by
  rintro _ ⟨⟩
  exact created contained (Nat.lt_succ_self _)

theorem trans (first : m.Yields (v, m')) (second : m'.Yields result) : m.Yields result where
  grows := le_trans first.grows second.grows
  depth := second.depth.trans first.depth
  contained := second.contained
  known := second.known

theorem leave {captured : ScopeId} {arguments : List (String × Value)}
    (inside : (m.enter captured arguments).Yields result) : m.Yields (leaveCall result) where
  grows := by
    refine le_trans ?_ inside.grows
    rw [extent_enter]
    exact ⟨Nat.le_succ _, Nat.le_refl _⟩
  depth := by
    change result.2.depth - 1 = m.depth
    rw [inside.depth, depth_enter, Nat.add_sub_cancel]
  contained := inside.contained.leave
  known := inside.known.unwrapReturn

end Yields

end Machine

/-- On every self-contained machine of at least this extent that has the scope, the computation
    yields what it ends with. -/
def YieldsFrom (scope : ScopeId) (extent : Nat × Nat) (run : Run Value) : Prop :=
  ∀ m : Machine, m.SelfContained → scope < m.scopes.size → extent ≤ m.extent →
    ∀ result, run m = some result → m.Yields result

def YieldsCalls (call : Call) : Prop :=
  ∀ {m : Machine} {function : Value} {args : List Value} (span : Span), m.SelfContained →
    function.KnownTo m.extent → (∀ v ∈ args, v.KnownTo m.extent) →
    ∀ result, call function args span m = some result → m.Yields result

section Steps

variable {scope : ScopeId} {extent : Nat × Nat} {v : Value}

theorem yields_value (known : v.KnownTo extent) : YieldsFrom scope extent (pure v) := by
  rintro m contained _ grows _ ⟨⟩
  exact .same contained (known.mono grows)

theorem yields_fail (failure : Failure) (span : Span) :
    YieldsFrom scope extent (Run.fail failure span) :=
  fun _ contained _ _ => .fail contained failure span

theorem yields_operator {result : Except Failure Value} {e : Expr} {span : Span}
    (explained : Explained e result) : YieldsFrom scope extent (Run.operator result span) := by
  cases result with
  | ok v => exact yields_value (.scalar explained.1 explained.2)
  | error failure => exact yields_fail failure span

theorem yields_ident (call : Call) (name : String) (span : Span) :
    YieldsFrom scope extent ((runSteps call scope).ident name span) := by
  intro m contained inside grows result ran
  rw [runSteps_ident] at ran
  cases found : m.lookup scope name with
  | some v =>
      rw [found] at ran
      cases ran
      exact .same contained (contained.values.lookup found)
  | none =>
      rw [found] at ran
      exact .fail contained _ span result ran

theorem yields_andThen {run : Run Value} {next : Value → Run Value}
    (begins : YieldsFrom scope extent run)
    (goesOn : ∀ later v, extent ≤ later → v.KnownTo later → YieldsFrom scope later (next v)) :
    YieldsFrom scope extent (Run.plainly run next) := by
  intro m contained inside grows result ran
  cases begun : run m with
  | none =>
      rw [Run.plainly_none begun] at ran
      cases ran
  | some middle =>
      obtain ⟨v, mid⟩ := middle
      have first := begins m contained inside grows (v, mid) begun
      cases kind : v.isSignal with
      | true =>
          rw [Run.plainly_signal begun kind] at ran
          cases ran
          exact first
      | false =>
          rw [Run.plainly_plain begun kind] at ran
          have later := goesOn mid.extent v (le_trans grows first.grows) first.known
          exact first.trans (later mid first.contained (Nat.lt_of_lt_of_le inside first.grows.1)
            (le_refl _) result ran)

theorem yields_settle (call : Call) {run : Run Value} (body : YieldsFrom scope extent run) :
    YieldsFrom scope extent ((runSteps call scope).settle run) := by
  intro m contained inside grows result ran
  rw [runSteps_settle] at ran
  obtain ⟨inner, begun, rfl⟩ := Option.map_eq_some_iff.mp ran
  have first := body m contained inside grows inner begun
  exact ⟨first.grows, first.depth, first.contained, first.known.unwrapReturn⟩

theorem parallel_yields {call : Call} (calls : YieldsCalls call) (scope : ScopeId) :
    (runSteps call scope).Parallel id (fun extent v v' => v = v' ∧ v.KnownTo extent)
      (fun extent run _ => YieldsFrom scope extent run) (runSteps call scope) where
  grows later alike := ⟨alike.1, alike.2.mono later⟩
  scalar plain noFunction := ⟨rfl, .scalar plain noFunction⟩
  truth alike := alike.1 ▸ rfl
  value alike := yields_value alike.2
  andThen begins goesOn :=
    yields_andThen begins fun later v grows known => goesOn later v v grows ⟨rfl, known⟩
  ident name _ := yields_ident call name _
  unary op _ _ := yields_operator (explained_unary .zero op (.int .zero 0) _)
  binary op _ _ _ := yields_operator (explained_binary .zero op (.int .zero 0) (.int .zero 0) _ _)
  closure _ := by
    rintro m contained inside grows _ ⟨⟩
    exact .created contained ⟨inside, Nat.lt_succ_self _⟩
  call := by
    rintro extent span _ function _ args args' _ ⟨_, known⟩ alike m contained _ grows
    refine calls span contained (known.mono grows) fun v member => ?_
    obtain ⟨i, bound, rfl⟩ := List.getElem_of_mem member
    exact ((List.forall₂_iff_get.mp alike).2 i bound (alike.length_eq ▸ bound)).2.mono grows
  bind name alike := by
    rintro m contained _ grows _ ⟨⟩
    exact ⟨(m.extent_bind scope name _).ge, rfl, contained.bind scope name (alike.2.mono grows),
      trivial⟩
  ret alike := by
    rintro m contained _ grows _ ⟨⟩
    exact .created contained
      ⟨Nat.lt_succ_self _, alike.2.mono (le_trans grows m.extent_newCell)⟩
  settle body := yields_settle call body

end Steps

theorem yieldsCalls_applyWithin (limit : Option Nat) (budget : Nat) :
    YieldsCalls (applyWithin limit budget) := by
  -- The bodies run on a smaller budget, on machines that are self-contained again.
  induction budget using Nat.strongRecOn with
  | ind budget ih =>
      intro m function args span contained known knownArgs result ran
      rcases applyWithin_refuses_or_enters limit budget function args span m with
        ⟨cause, _, refused⟩ | ⟨cell, literal, captured, rfl, count, below⟩
      · rw [refused] at ran
        exact .fail contained _ span result ran
      · cases budget with
        | zero =>
            rw [applyWithin_spent count below] at ran
            cases ran
        | succ budget =>
            rw [applyWithin_enter count below, Block.eval_eq_walk] at ran
            obtain ⟨inner, begun, rfl⟩ := Option.map_eq_some_iff.mp ran
            have entered : (m.enter captured (literal.params.zip args)).SelfContained :=
              contained.enter known.1 knownArgs
            have new : m.scopes.size < (m.enter captured (literal.params.zip args)).scopes.size :=
              Nat.lt_of_lt_of_eq (Nat.lt_succ_self _) (m.size_enter captured _).symm
            have body := literal.body.walk_parallel
              (parallel_yields (ih budget (Nat.lt_succ_self _)) m.scopes.size) rfl (0, 0)
            exact .leave (body _ entered new ⟨Nat.zero_le _, Nat.zero_le _⟩ inner begun)

namespace Machine

variable {m : Machine} {limit : Option Nat} {node : Node} {scope : ScopeId} {function : Value}
  {args : List Value}

theorem Yields.finish {run : Run Value} (contained : m.SelfContained) (limit : Option Nat)
    (ended : ∀ result, run m = some result → m.Yields result) : m.Yields (m.finish limit run) := by
  unfold Machine.finish
  split
  · exact ended _ ‹_›
  · exact .created contained (Nat.lt_succ_self _)

/-- Evaluation in a scope that exists leaves a self-contained machine behind. -/
theorem SelfContained.evaluate (contained : m.SelfContained) (limit : Option Nat) (node : Node)
    (inside : scope < m.scopes.size) : m.Yields (m.evaluate limit node scope) := by
  refine .finish contained limit ?_
  rw [Node.eval_eq_walk]
  exact node.walk_parallel (parallel_yields (yieldsCalls_applyWithin limit _) scope) rfl m.extent m
    contained inside (le_refl _)

/-- So does the application of a known value to known arguments. -/
theorem SelfContained.apply (contained : m.SelfContained) (limit : Option Nat)
    (known : function.KnownTo m.extent) (knownArgs : ∀ v ∈ args, v.KnownTo m.extent)
    (span : Span) : m.Yields (m.apply limit function args span) :=
  .finish contained limit (yieldsCalls_applyWithin limit _ span contained known knownArgs)

/-- The request names only scopes that exist and values that are known. -/
def Request.Knowing (m : Machine) : Request → Prop
  | .newScope above => ∀ scope ∈ above, scope < m.scopes.size
  | .enclosed scope | .copy scope | .parent scope | .perform (.evaluate _ _ scope) =>
      scope < m.scopes.size
  | .bind _ _ value => value.KnownTo m.extent
  | .perform (.apply _ function args _) =>
      function.KnownTo m.extent ∧ ∀ v ∈ args, v.KnownTo m.extent

def KnowingAll (m : Machine) : List Request → Prop
  | [] => True
  | request :: rest => request.Knowing m ∧ (request.answer m).2.KnowingAll rest

theorem SelfContained.answer (contained : m.SelfContained) {request : Request}
    (knowing : request.Knowing m) : (request.answer m).2.SelfContained := by
  cases request with
  | newScope above => exact contained.newScope knowing
  | enclosed scope =>
      refine contained.newScope ?_
      rintro above ⟨⟩
      exact knowing
  | copy | parent => exact contained
  | bind scope name value => exact contained.bind scope name knowing
  | perform op =>
      cases op with
      | evaluate limit node scope => exact (contained.evaluate limit node knowing).contained
      | apply limit function args span =>
          exact (contained.apply limit knowing.1 knowing.2 span).contained

/-- Whatever is asked of a self-contained machine, in terms of what it knows by then, it stays
    self-contained. -/
theorem SelfContained.serve (contained : m.SelfContained) {requests : List Request}
    (knowing : m.KnowingAll requests) : (m.serve requests).SelfContained := by
  induction requests generalizing m with
  | nil => exact contained
  | cons request rest ih => exact ih (contained.answer knowing.1) knowing.2

end Machine

end TreeWalk
