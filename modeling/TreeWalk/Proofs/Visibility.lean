import TreeWalk.Proofs.Forest
import TreeWalk.Proofs.Frame

/-! # Who sees a binding

To bind a name in a scope changes what is found there and below, unless another scope on the way
binds the name itself. How far one binding reaches is told here by the chains of parents alone,
before it is made: a scope is exposed to another one in a name if the search for the name comes to
that other scope.

The search is taken apart into what each scope itself binds. Binding changes this in one place and no
parent at all, so both searches climb the same chain, and only where they meet the scope that is
written can they differ.
-/

namespace TreeWalk

namespace Machine

/-- What the scope itself binds the name to. -/
def bound? (m : Machine) (scope : ScopeId) (name : String) : Option Value :=
  m.scopes[scope]?.bind fun s => s.bindings.lookup name

/-- The search for the name from `env` comes to `scope`: it is on the chain of parents of `env`, and
    no scope of that chain that is strictly nearer to `env` binds the name. -/
structure Exposes (m : Machine) (name : String) (env scope : ScopeId) : Prop where
  chain : Relation.ReflTransGen m.HasParent env scope
  unshadowed : ∀ nearer, Relation.ReflTransGen m.HasParent env nearer →
    Relation.TransGen m.HasParent nearer scope → m.bound? nearer name = none

variable {m : Machine} {scope env : ScopeId} {x y : String} {v : Value}

theorem lookupWithin_succ (m : Machine) (name : String) (steps : Nat) (env : ScopeId) :
    m.lookupWithin name (steps + 1) env =
      (m.bound? env name).or ((m.parent? env).bind (m.lookupWithin name steps)) := by
  simp only [lookupWithin, bound?, parent?]
  cases m.scopes[env]? with
  | none => rfl
  | some s =>
      simp only [Option.bind_some]
      cases s.bindings.lookup name with
      | some value => rfl
      | none => cases s.parent <;> rfl

theorem bound?_bind (inside : scope < m.scopes.size) (x : String) (v : Value) (env : ScopeId)
    (y : String) : (m.bind scope x v).bound? env y =
      if env = scope ∧ y = x then some v else m.bound? env y := by
  simp only [bound?, bind, Array.getElem?_modify]
  by_cases here : scope = env
  · subst here
    have present : m.scopes[scope]? = some m.scopes[scope] := Array.getElem?_eq_getElem inside
    simp only [if_true, present, Option.map_some, Option.bind_some, Bindings.lookup_insert,
      true_and]
  · rw [if_neg here, if_neg fun both => here both.1.symm]

namespace Exposes

/-- A scope sees itself. Only on a cycle could it be nearer to itself than it is. -/
theorem self (acyclic : m.Acyclic) (name : String) (scope : ScopeId) : m.Exposes name scope scope where
  chain := .refl
  unshadowed _ reached strictly := absurd (.trans_right reached strictly) (acyclic scope)

theorem inner {parent : ScopeId} (above : m.HasParent env parent) (unbound : m.bound? env x = none)
    (rest : m.Exposes x parent scope) : m.Exposes x env scope where
  chain := .head above rest.chain
  unshadowed nearer reached strictly := by
    rcases reached.cases_head with rfl | ⟨next, first, later⟩
    · exact unbound
    · obtain rfl : next = parent := Option.some.inj (first.symm.trans above)
      exact rest.unshadowed nearer later strictly

theorem cases_head (exposed : m.Exposes x env scope) : env = scope ∨
    ∃ parent, m.HasParent env parent ∧ m.bound? env x = none ∧ m.Exposes x parent scope := by
  rcases exposed.chain.cases_head with rfl | ⟨parent, above, rest⟩
  · exact .inl rfl
  · have unbound := exposed.unshadowed env .refl (.head' above rest)
    exact .inr ⟨parent, above, unbound, rest, fun nearer reached =>
      exposed.unshadowed nearer (.head above reached)⟩

/-- Whatever is exposed to an existing scope exists, because it has a parent or is that scope. -/
theorem inside (exposed : m.Exposes x env scope) (inside : scope < m.scopes.size) :
    env < m.scopes.size := by
  rcases exposed.cases_head with rfl | ⟨parent, above, _⟩
  · exact inside
  · exact above.inside

/-- The search climbs to the written scope. It has enough steps, as it meets no scope twice. -/
theorem lookupWithin_bind {visited : List ScopeId} {steps : Nat} (acyclic : m.Acyclic)
    (inside : scope < m.scopes.size) (climbed : m.Climbed visited env)
    (total : visited.length + steps = m.scopes.size) (exposed : m.Exposes x env scope) :
    (m.bind scope x v).lookupWithin x steps env = some v := by
  induction steps generalizing visited env with
  | zero => exact absurd climbed.length_lt (by omega)
  | succ steps ih =>
      rw [lookupWithin_succ, bound?_bind inside, parent?_bind]
      by_cases here : env = scope
      · rw [if_pos ⟨here, rfl⟩, Option.some_or]
      · rcases exposed.cases_head with same | ⟨parent, above, unbound, rest⟩
        · exact absurd same here
        · have next := climbed.up acyclic above (rest.inside inside)
          have remaining : (env :: visited).length + steps = m.scopes.size := by
            rw [List.length_cons]
            omega
          rw [if_neg fun both => here both.1, unbound, Option.none_or, above, Option.bind_some]
          exact ih next remaining rest

end Exposes

theorem lookup_bind_exposed (acyclic : m.Acyclic) (inside : scope < m.scopes.size)
    (exposed : m.Exposes x env scope) : (m.bind scope x v).lookup env x = some v := by
  rw [lookup, size_bind]
  exact exposed.lookupWithin_bind acyclic inside (.start (exposed.inside inside)) (Nat.zero_add _)

theorem lookupWithin_bind_hidden (acyclic : m.Acyclic) (inside : scope < m.scopes.size)
    (hidden : ¬ (y = x ∧ m.Exposes x env scope)) (steps : Nat) :
    (m.bind scope x v).lookupWithin y steps env = m.lookupWithin y steps env := by
  have own : ∀ env, ¬ (y = x ∧ m.Exposes x env scope) →
      (m.bind scope x v).bound? env y = m.bound? env y := by
    intro env hidden
    rw [bound?_bind inside, if_neg]
    rintro ⟨rfl, same⟩
    exact hidden ⟨same, .self acyclic x _⟩
  induction steps generalizing env with
  | zero => exact own env hidden
  | succ steps ih =>
      rw [lookupWithin_succ, lookupWithin_succ, own env hidden, parent?_bind]
      cases unbound : m.bound? env y with
      | some value => rw [Option.some_or, Option.some_or]
      | none =>
          rw [Option.none_or, Option.none_or]
          cases above : m.parent? env with
          | none => rfl
          | some parent =>
              refine ih ?_
              rintro ⟨rfl, rest⟩
              exact hidden ⟨rfl, rest.inner above unbound⟩

theorem lookup_bind_hidden (acyclic : m.Acyclic) (inside : scope < m.scopes.size)
    (hidden : ¬ (y = x ∧ m.Exposes x env scope)) :
    (m.bind scope x v).lookup env y = m.lookup env y := by
  rw [lookup, size_bind]
  exact lookupWithin_bind_hidden acyclic inside hidden _

theorem bound?_bindAll {arguments : List (String × Value)} (inside : scope < m.scopes.size)
    (other : env ≠ scope ∨ x ∉ arguments.map Prod.fst) :
    (m.bindAll scope arguments).bound? env x = m.bound? env x := by
  induction arguments generalizing m with
  | nil => rfl
  | cons binding rest ih =>
      have still : scope < (m.bind scope binding.1 binding.2).scopes.size := by
        rw [size_bind]
        exact inside
      have later : env ≠ scope ∨ x ∉ rest.map Prod.fst :=
        other.imp_right fun free member => free (List.mem_cons_of_mem _ member)
      refine (ih still later).trans ?_
      rw [bound?_bind inside, if_neg]
      rintro ⟨here, rfl⟩
      exact other.elim (fun away => away here) fun free => free List.mem_cons_self

theorem bound?_newScope (m : Machine) (parent : Option ScopeId) (env : ScopeId) (x : String) :
    (m.newScope parent).2.bound? env x = m.bound? env x := by
  simp only [bound?, newScope, Array.getElem?_push]
  split
  case isTrue new =>
    subst new
    rw [Array.getElem?_eq_none (Nat.le_refl _)]
    rfl
  case isFalse old => rfl

theorem bound?_enter {captured : ScopeId} {arguments : List (String × Value)}
    (other : env ≠ m.scopes.size ∨ x ∉ arguments.map Prod.fst) :
    (m.enter captured arguments).bound? env x = m.bound? env x := by
  have inside : m.scopes.size < (m.newScope (some captured)).2.scopes.size := by
    rw [size_newScope]
    exact Nat.lt_succ_self _
  exact (bound?_bindAll inside other).trans (m.bound?_newScope (some captured) env x)

/-- What a call finds for a name that is not one of its parameters is what the scope that the callee
    captured finds for it. -/
theorem lookup_enter {captured : ScopeId} {arguments : List (String × Value)}
    (parents : ∀ {child parent}, m.HasParent child parent → parent < m.scopes.size)
    (inside : captured < m.scopes.size) (free : x ∉ arguments.map Prod.fst) :
    (m.enter captured arguments).lookup m.scopes.size x = m.lookup captured x := by
  -- The scopes that existed before are searched as before.
  have old : ∀ steps env, env < m.scopes.size →
      (m.enter captured arguments).lookupWithin x steps env = m.lookupWithin x steps env := by
    intro steps
    induction steps with
    | zero => exact fun env _ => bound?_enter (.inr free)
    | succ steps ih =>
        intro env inside
        rw [lookupWithin_succ, lookupWithin_succ, bound?_enter (.inr free), parent?_enter,
          if_neg (Nat.ne_of_lt inside)]
        cases above : m.parent? env with
        | none => rfl
        | some parent => rw [Option.bind_some, Option.bind_some, ih parent (parents above)]
  have empty : m.bound? m.scopes.size x = none := by
    rw [bound?, Array.getElem?_eq_none (Nat.le_refl _), Option.bind_none]
  rw [lookup, size_enter, lookupWithin_succ, bound?_enter (.inr free), empty, Option.none_or,
    parent?_enter, if_pos rfl, Option.bind_some, old _ captured inside, lookup]

end Machine

open Relation (ReflTransGen TransGen)

/-- A binding affects exactly the lookups it should. On scopes whose parents are acyclic, let `x` be
    bound to `v` in `scope`. A later search for `x` from a scope `env` finds `v` if `scope` is on the
    chain of parents of `env` and no scope of the chain that is strictly nearer to `env` binds `x`;
    every other search finds what it found before.

    In particular the scope itself sees the binding, and so does every call, started later, of a
    function that captured a scope exposed to it, if no parameter has the name. Scopes that are not
    nested in `scope` do not see it, siblings and ancestors among them, and neither do those below a
    scope that binds the name nearer by. -/
theorem binding_reaches_exposed_scopes {m : Machine} (acyclic : m.Acyclic) {scope : ScopeId}
    (inside : scope < m.scopes.size) (x : String) (v : Value) :
    let after := m.bind scope x v
    (∀ env y,
      (y = x ∧ m.Exposes x env scope → after.lookup env y = some v) ∧
      (¬ (y = x ∧ m.Exposes x env scope) → after.lookup env y = m.lookup env y)) ∧
    after.lookup scope x = some v ∧
    (∀ env, m.Exposes x env scope → ∀ params args, x ∉ params →
      (∀ child parent, m.HasParent child parent → parent < m.scopes.size) →
      (after.enter env (List.zip params args)).lookup m.scopes.size x = some v) ∧
    (∀ env, ¬ ReflTransGen m.HasParent env scope → ∀ y, after.lookup env y = m.lookup env y) ∧
    (∀ sibling parent, sibling ≠ scope → m.HasParent sibling parent → m.HasParent scope parent →
      ∀ y, after.lookup sibling y = m.lookup sibling y) ∧
    (∀ ancestor, TransGen m.HasParent scope ancestor →
      ∀ y, after.lookup ancestor y = m.lookup ancestor y) ∧
    (∀ env nearer value, ReflTransGen m.HasParent env nearer →
      TransGen m.HasParent nearer scope → m.bound? nearer x = some value →
      ∀ y, after.lookup env y = m.lookup env y) := by
  intro after
  have hidden : ∀ env y, ¬ (y = x ∧ m.Exposes x env scope) →
      after.lookup env y = m.lookup env y :=
    fun env y => Machine.lookup_bind_hidden acyclic inside
  have seen : ∀ env, m.Exposes x env scope → after.lookup env x = some v :=
    fun env => Machine.lookup_bind_exposed acyclic inside
  have apart : ∀ env, ¬ ReflTransGen m.HasParent env scope →
      ∀ y, after.lookup env y = m.lookup env y :=
    fun env away y => hidden env y fun both => away both.2.chain
  refine ⟨?_, seen scope (.self acyclic x scope), ?_, apart, ?_, ?_, ?_⟩
  · intro env y
    refine ⟨?_, hidden env y⟩
    rintro ⟨rfl, exposed⟩
    exact seen env exposed
  · intro env exposed params args free parents
    have known : ∀ {child parent}, after.HasParent child parent → parent < after.scopes.size := by
      intro child parent above
      rw [Machine.HasParent, Machine.parent?_bind] at above
      rw [Machine.size_bind]
      exact parents child parent above
    have captured : env < after.scopes.size := by
      rw [Machine.size_bind]
      exact exposed.inside inside
    have notNamed : x ∉ (List.zip params args).map Prod.fst := by
      intro member
      obtain ⟨pair, among, rfl⟩ := List.mem_map.mp member
      exact free (List.of_mem_zip among).1
    have called := Machine.lookup_enter known captured notNamed
    rw [Machine.size_bind] at called
    exact called.trans (seen env exposed)
  · intro sibling parent other above beside
    refine apart sibling fun nested => ?_
    rcases nested.cases_head with same | ⟨next, first, rest⟩
    · exact other same
    · obtain rfl : next = parent := Option.some.inj (first.symm.trans above)
      exact acyclic scope (.head' beside rest)
  · intro ancestor above
    exact apart ancestor fun back => acyclic ancestor (.trans_right back above)
  · intro env nearer value reached strictly bound y
    refine hidden env y fun both => ?_
    rw [both.2.unshadowed nearer reached strictly] at bound
    cases bound

/-- Scope 1 has the child 2 and the sibling 4, and the grandchild 3 binds the name itself. -/
theorem binding_reaches_exposed_scopes_family :
    let m := Machine.serve {} [.newScope none, .bind 0 "x" (.int 0), .enclosed 0, .enclosed 1,
      .enclosed 2, .bind 3 "x" (.int 3), .enclosed 0]
    let after := m.bind 1 "x" (.int 1)
    m.Acyclic ∧ 1 < m.scopes.size ∧
      after.lookup 1 "x" = some (.int 1) ∧ after.lookup 2 "x" = some (.int 1) ∧
      after.lookup 3 "x" = m.lookup 3 "x" ∧ m.lookup 3 "x" = some (.int 3) ∧
      after.lookup 4 "x" = m.lookup 4 "x" ∧ after.lookup 0 "x" = m.lookup 0 "x" := by
  intro m after
  have acyclic : m.Acyclic := (Machine.Forest.empty.serve (by decide +kernel)).sound.acyclic
  have inside : 1 < m.scopes.size := by decide +kernel
  have middle : m.HasParent 2 1 := rfl
  have child : m.Exposes "x" 2 1 := .inner middle rfl (.self acyclic "x" 1)
  obtain ⟨everywhere, self, _, _, siblings, ancestors, shadowed⟩ :=
    binding_reaches_exposed_scopes acyclic inside "x" (.int 1)
  refine ⟨acyclic, inside, self, (everywhere 2 "x").1 ⟨rfl, child⟩, ?_, rfl, ?_, ?_⟩
  · have above : TransGen m.HasParent 3 1 := .head rfl (.single middle)
    exact shadowed 3 3 (.int 3) .refl above rfl "x"
  · exact siblings 4 0 (by decide) rfl rfl "x"
  · exact ancestors 0 (.single rfl) "x"

end TreeWalk
