import TreeWalk.Proofs.Calls

/-! # What holds of all bound values

A property of all values that any scope of a machine binds is kept as long as only values with that
property are bound, and every value that is looked up has it.
-/

namespace TreeWalk

/-- Every value that a scope binds satisfies the predicate. -/
def Machine.Binds (m : Machine) (holds : Value → Prop) : Prop :=
  ∀ (scope : ScopeId) (s : Scope), m.scopes[scope]? = some s →
    ∀ binding ∈ s.bindings, holds binding.2

theorem Bindings.mem_insert {name : String} {value : Value} {binding : String × Value}
    {bindings : Bindings} (member : binding ∈ Bindings.insert name value bindings) :
    binding = (name, value) ∨ binding ∈ bindings := by
  induction bindings with
  | nil => exact .inl (List.mem_singleton.mp member)
  | cons head rest ih =>
      rw [Bindings.insert] at member
      split at member
      · rcases List.mem_cons.mp member with rfl | later
        · exact .inl rfl
        · exact .inr (List.mem_cons_of_mem _ later)
      · rcases List.mem_cons.mp member with rfl | later
        · exact .inr List.mem_cons_self
        · exact (ih later).imp_right (List.mem_cons_of_mem _)

theorem Bindings.mem_of_lookup {name : String} {value : Value} {bindings : Bindings}
    (found : bindings.lookup name = some value) : (name, value) ∈ bindings := by
  obtain ⟨before, after, rfl, _⟩ := List.lookup_eq_some_iff.mp found
  exact List.mem_append_right _ List.mem_cons_self

namespace Machine.Binds

variable {m : Machine} {holds holds' : Value → Prop}

theorem imp (binds : m.Binds holds) (weaker : ∀ v, holds v → holds' v) : m.Binds holds' :=
  fun scope s found binding member => weaker _ (binds scope s found binding member)

theorem of_scopes (binds : m.Binds holds) {m' : Machine} (same : m'.scopes = m.scopes) :
    m'.Binds holds := by
  intro scope s found
  rw [same] at found
  exact binds scope s found

theorem newScope (binds : m.Binds holds) (parent : Option ScopeId) :
    (m.newScope parent).2.Binds holds := by
  intro scope s found
  simp only [Machine.newScope, Array.getElem?_push] at found
  split at found
  · cases found
    intro binding member
    cases member
  · exact binds scope s found

theorem bind (binds : m.Binds holds) (scope : ScopeId) (name : String) {value : Value}
    (held : holds value) : (m.bind scope name value).Binds holds := by
  intro other s found
  simp only [Machine.bind, Array.getElem?_modify] at found
  split at found
  · obtain ⟨old, present, rfl⟩ := Option.map_eq_some_iff.mp found
    intro binding member
    rcases Bindings.mem_insert member with rfl | kept
    · exact held
    · exact binds other old present binding kept
  · exact binds other s found

theorem bindAll (binds : m.Binds holds) (scope : ScopeId) {arguments : List (String × Value)}
    (held : ∀ binding ∈ arguments, holds binding.2) : (m.bindAll scope arguments).Binds holds := by
  induction arguments generalizing m with
  | nil => exact binds
  | cons binding rest ih =>
      obtain ⟨heldFirst, heldRest⟩ := List.forall_mem_cons.mp held
      exact ih (binds.bind scope binding.1 heldFirst) heldRest

theorem enter (binds : m.Binds holds) (captured : ScopeId) {params : List String}
    {args : List Value} (held : ∀ v ∈ args, holds v) :
    (m.enter captured (params.zip args)).Binds holds := by
  have heldBindings : ∀ binding ∈ params.zip args, holds binding.2 := by
    intro binding member
    exact held binding.2 (List.of_mem_zip member).2
  exact of_scopes ((binds.newScope (some captured)).bindAll m.scopes.size heldBindings) rfl

theorem lookupWithin (binds : m.Binds holds) {name : String} {value : Value} {steps : Nat}
    {scope : ScopeId} (found : m.lookupWithin name steps scope = some value) : holds value := by
  induction steps generalizing scope with
  | zero =>
      obtain ⟨s, present, bound⟩ := Option.bind_eq_some_iff.mp found
      exact binds scope s present _ (Bindings.mem_of_lookup bound)
  | succ steps ih =>
      rw [Machine.lookupWithin] at found
      split at found
      · cases found
      · rename_i s present
        split at found
        · rename_i own bound
          cases found
          exact binds scope s present _ (Bindings.mem_of_lookup bound)
        · split at found
          · cases found
          · exact ih found

theorem lookup (binds : m.Binds holds) {scope : ScopeId} {name : String} {value : Value}
    (found : m.lookup scope name = some value) : holds value :=
  binds.lookupWithin found

end Machine.Binds

end TreeWalk
