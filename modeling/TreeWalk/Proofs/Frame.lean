import TreeWalk.Proofs.Calls
import TreeWalk.Proofs.Parts

/-! # What evaluation leaves alone

Evaluation of a node in a scope writes to that scope only, and there only to the names that the
node binds outside of function bodies. A call writes to no scope that exists before it: it runs in
a scope of its own, which is new.
-/

namespace TreeWalk

namespace Machine

/-- Every scope of the first machine is unchanged in the second. -/
def Untouched (m m' : Machine) : Prop :=
  ∀ (id : ScopeId) (s : Scope), m.scopes[id]? = some s → m'.scopes[id]? = some s

/-- Only one scope of the first machine is written to on the way to the second. -/
structure Frame (m : Machine) (scope : ScopeId) (names : String → Prop) (m' : Machine) : Prop where
  others : ∀ (id : ScopeId) (s : Scope), id ≠ scope → m.scopes[id]? = some s →
    m'.scopes[id]? = some s
  /-- The scope keeps its parent and every name, and names other than the given ones keep their
      values. -/
  own : ∀ s, m.scopes[scope]? = some s → ∃ s', m'.scopes[scope]? = some s' ∧
    s'.parent = s.parent ∧
    (∀ name, (s.bindings.lookup name).isSome → (s'.bindings.lookup name).isSome) ∧
    ∀ name, ¬ names name → s'.bindings.lookup name = s.bindings.lookup name

variable {m mid m' : Machine} {scope : ScopeId} {names : String → Prop}

theorem Untouched.of_scopes (same : m'.scopes = m.scopes) : m.Untouched m' := by
  intro id s found
  rw [same]
  exact found

theorem Untouched.trans (first : m.Untouched mid) (second : mid.Untouched m') : m.Untouched m' :=
  fun id s found => second id s (first id s found)

theorem Untouched.frame (untouched : m.Untouched m') : m.Frame scope names m' where
  others id s _ found := untouched id s found
  own s found := ⟨s, untouched scope s found, rfl, fun _ bound => bound, fun _ _ => rfl⟩

theorem Frame.trans (first : m.Frame scope names mid) (second : mid.Frame scope names m') :
    m.Frame scope names m' where
  others id s other found := second.others id s other (first.others id s other found)
  own s found := by
    obtain ⟨s₁, found₁, parent₁, keeps₁, same₁⟩ := first.own s found
    obtain ⟨s₂, found₂, parent₂, keeps₂, same₂⟩ := second.own s₁ found₁
    refine ⟨s₂, found₂, parent₂.trans parent₁, ?_, ?_⟩
    · exact fun name bound => keeps₂ name (keeps₁ name bound)
    · exact fun name free => (same₂ name free).trans (same₁ name free)

/-- Writing to a scope that is new touches none of the old ones. -/
theorem Frame.untouched_of_new (fresh : m.Untouched mid) (new : m.scopes[scope]? = none)
    (frame : mid.Frame scope names m') : m.Untouched m' := by
  intro id s found
  have other : id ≠ scope := by
    rintro rfl
    rw [new] at found
    cases found
  exact frame.others id s other (fresh id s found)

end Machine

theorem Bindings.lookup_cons (key other : String) (value : Value) (rest : Bindings) :
    List.lookup other ((key, value) :: rest) =
      if other = key then some value else rest.lookup other := by
  by_cases same : other = key
  · simp [same]
  · have differs : (other == key) = false := beq_eq_false_iff_ne.mpr same
    simp [List.lookup_cons, differs, same]

theorem Bindings.lookup_insert (name other : String) (value : Value) (bindings : Bindings) :
    (Bindings.insert name value bindings).lookup other =
      if other = name then some value else bindings.lookup other := by
  induction bindings with
  | nil => exact Bindings.lookup_cons name other value []
  | cons head rest ih =>
      obtain ⟨key, old⟩ := head
      by_cases here : key = name
      · subst here
        by_cases same : other = key <;> simp [Bindings.insert, Bindings.lookup_cons, same]
      · by_cases same : other = name
        · subst same
          simp [Bindings.insert, Bindings.lookup_cons, here, Ne.symm here, ih]
        · simp [Bindings.insert, Bindings.lookup_cons, here, ih, same]

namespace Machine

variable {scope : ScopeId} {names : String → Prop}

theorem frame_bind (m : Machine) {name : String} (value : Value) (bound : names name) :
    m.Frame scope names (m.bind scope name value) where
  others id s other found := by
    simp only [bind, Array.getElem?_modify, if_neg (Ne.symm other)]
    exact found
  own s found := by
    refine ⟨{ s with bindings := Bindings.insert name value s.bindings }, ?_, rfl, ?_, ?_⟩
    · simp only [bind, Array.getElem?_modify, if_true, found, Option.map_some]
    · intro other isBound
      rw [Bindings.lookup_insert]
      split
      · rfl
      · exact isBound
    · intro other free
      rw [Bindings.lookup_insert, if_neg]
      rintro rfl
      exact free bound

theorem frame_bindAll (m : Machine) (arguments : List (String × Value)) :
    m.Frame scope (fun _ => True) (m.bindAll scope arguments) := by
  induction arguments generalizing m with
  | nil => exact (Untouched.of_scopes rfl).frame
  | cons binding rest ih => exact (m.frame_bind binding.2 trivial).trans (ih _)

theorem untouched_newScope (m : Machine) (parent : Option ScopeId) :
    m.Untouched (m.newScope parent).2 := by
  intro id s found
  have inside : id < m.scopes.size := (Array.getElem?_eq_some_iff.mp found).1
  simp only [newScope, Array.getElem?_push, Nat.ne_of_lt inside, if_false]
  exact found

theorem scope_new (m : Machine) : m.scopes[m.scopes.size]? = none :=
  Array.getElem?_eq_none (Nat.le_refl _)

theorem untouched_enter (m : Machine) (captured : ScopeId) (arguments : List (String × Value)) :
    m.Untouched (m.enter captured arguments) :=
  ((frame_bindAll _ arguments).untouched_of_new (m.untouched_newScope _) m.scope_new).trans
    (.of_scopes rfl)

end Machine

/-- The computation writes only to the names of one scope. -/
def WritesOnly (scope : ScopeId) (names : String → Prop) (run : Run Value) : Prop :=
  ∀ m v m', run m = some (v, m') → m.Frame scope names m'

/-- The computation writes to no scope that exists before it. -/
def WritesNone (run : Run Value) : Prop := ∀ m v m', run m = some (v, m') → m.Untouched m'

section Writes

variable {scope : ScopeId} {names : String → Prop}

theorem WritesNone.only {run : Run Value} (none : WritesNone run) : WritesOnly scope names run :=
  fun m v m' ran => (none m v m' ran).frame

theorem writesNone_fail (failure : Failure) (span : Span) : WritesNone (Run.fail failure span) := by
  rintro m v m' ⟨⟩
  exact .of_scopes rfl

theorem writesNone_closure (literal : FunctionLiteral) (scope : ScopeId) :
    WritesNone (Run.closure literal scope) := by
  rintro m v m' ⟨⟩
  exact .of_scopes rfl

theorem writesNone_ret (value : Value) : WritesNone (Run.ret value) := by
  rintro m v m' ⟨⟩
  exact .of_scopes rfl

theorem writesNone_value (value : Value) : WritesNone (pure value) := by
  rintro m v m' ⟨⟩
  exact .of_scopes rfl

theorem writesNone_operator (result : Except Failure Value) (span : Span) :
    WritesNone (Run.operator result span) := by
  cases result with
  | ok value => exact writesNone_value value
  | error failure => exact writesNone_fail failure span

theorem writesNone_ident (call : Call) (name : String) (span : Span) :
    WritesNone ((runSteps call scope).ident name span) := by
  intro m v m' ran
  rw [runSteps_ident] at ran
  split at ran
  · exact writesNone_value _ m v m' ran
  · exact writesNone_fail _ span m v m' ran

theorem writesOnly_bind (call : Call) {name : String} (bound : names name) (value : Value) :
    WritesOnly scope names ((runSteps call scope).bind name value) := by
  rintro m v m' ⟨⟩
  exact m.frame_bind value bound

theorem writesOnly_andThen {run : Run Value} {next : Value → Run Value}
    (first : WritesOnly scope names run) (later : ∀ v, WritesOnly scope names (next v)) :
    WritesOnly scope names (Run.plainly run next) := by
  intro m v m' ran
  cases begun : run m with
  | none =>
      rw [Run.plainly_none begun] at ran
      cases ran
  | some result =>
      obtain ⟨w, mid⟩ := result
      cases kind : w.isSignal with
      | true =>
          rw [Run.plainly_signal begun kind] at ran
          cases ran
          exact first m v m' begun
      | false =>
          rw [Run.plainly_plain begun kind] at ran
          exact (first m w mid begun).trans (later w mid v m' ran)

theorem writesOnly_settle (call : Call) {run : Run Value} (body : WritesOnly scope names run) :
    WritesOnly scope names ((runSteps call scope).settle run) := by
  intro m v m' ran
  rw [runSteps_settle] at ran
  obtain ⟨⟨w, last⟩, begun, same⟩ := Option.map_eq_some_iff.mp ran
  cases same
  exact body m w last begun

/-- The node binds, at itself, only these names. -/
def BindsAmong (names : String → Prop) : Node → Prop
  | .statement (.bind _ name _) => names name
  | _ => True

theorem keeps_writesOnly {call : Call}
    (calls : ∀ function args span, WritesNone (call function args span)) :
    (runSteps call scope).Keeps (WritesOnly scope names) (fun _ => True) (BindsAmong names) where
  scalar _ _ := trivial
  value _ := (writesNone_value _).only
  andThen first later := writesOnly_andThen first fun v => later v trivial
  ident _ := (writesNone_ident call _ _).only
  unary _ _ := (writesNone_operator _ _).only
  binary _ _ _ := (writesNone_operator _ _).only
  closure _ := (writesNone_closure _ scope).only
  call _ _ _ := (calls _ _ _).only
  bind bound _ := writesOnly_bind call bound _
  ret _ := (writesNone_ret _).only
  settle body := writesOnly_settle call body

theorem writesOnly_eval {call : Call}
    (calls : ∀ function args span, WritesNone (call function args span)) (node : Node) :
    WritesOnly scope node.Lets (node.eval call scope) := by
  rw [Node.eval_eq_walk]
  refine node.walk_keeps (keeps_writesOnly calls) ?_
  intro part inside
  unfold BindsAmong
  split
  · exact ⟨_, _, inside⟩
  · trivial

end Writes

theorem writesNone_call (limit : Option Nat) (budget : Nat) (function : Value) (args : List Value)
    (span : Span) : WritesNone (applyWithin limit budget function args span) := by
  -- The body runs on a smaller budget, in a scope that is new.
  induction budget using Nat.strongRecOn generalizing function args span with
  | ind budget ih =>
      intro m v m' ran
      rcases applyWithin_refuses_or_enters limit budget function args span m with
        ⟨cause, _, refused⟩ | ⟨cell, literal, captured, rfl, count, below⟩
      · rw [refused] at ran
        exact writesNone_fail _ span m v m' ran
      · cases budget with
        | zero =>
            rw [applyWithin_spent count below] at ran
            cases ran
        | succ budget =>
            rw [applyWithin_enter count below] at ran
            obtain ⟨⟨w, last⟩, ranBody, same⟩ := Option.map_eq_some_iff.mp ran
            cases same
            have body := writesOnly_eval (ih budget (Nat.lt_succ_self _)) (.block literal.body) _ w
              last ranBody
            exact (body.untouched_of_new (m.untouched_enter captured _) m.scope_new).trans
              (.of_scopes rfl)

theorem Machine.finish_elim {P : Machine → Prop} (m : Machine) (limit : Option Nat)
    (run : Run Value) (spent : P m.newCell.2) (ended : ∀ v m', run m = some (v, m') → P m') :
    P (m.finish limit run).2 := by
  unfold Machine.finish
  split
  · exact ended _ _ ‹_›
  · exact spent

/-- Evaluation in a scope writes to no other scope that exists before it. It leaves that scope its
    parent and all its names, and leaves the names alone that the node does not bind outside of
    function bodies. Applying a function writes to no scope that exists before the call. -/
theorem evaluate_writes_only_scope (m : Machine) (limit : Option Nat) :
    (∀ node scope, m.Frame scope node.Lets (m.evaluate limit node scope).2) ∧
      ∀ function args span, m.Untouched (m.apply limit function args span).2 := by
  have calls := writesNone_call limit (callBudget limit)
  have idle : m.Untouched m.newCell.2 := .of_scopes rfl
  constructor
  · intro node scope
    exact m.finish_elim limit _ idle.frame (writesOnly_eval calls node m)
  · intro function args span
    exact m.finish_elim limit _ idle (calls function args span m)

end TreeWalk
