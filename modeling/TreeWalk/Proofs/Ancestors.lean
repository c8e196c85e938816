import Mathlib.Data.List.Perm.Subperm
import Mathlib.Logic.Relation
import TreeWalk.Proofs.Bound

/-! # Ancestors of scopes

A scope names its parent by number, and a function names the scope that it was created in. A machine
is closed if all these scopes exist, and acyclic if no scope is an ancestor of itself.

The search for a name follows parents for as long as there are any. On a closed and acyclic machine
it ends, because no chain of parents visits a scope twice, and the search of a bounded number of
steps finds what it finds.
-/

namespace TreeWalk

/-- The functions within the value were created in one of the first `count` scopes. -/
def Value.LivesIn (count : Nat) : Value → Prop
  | .closure _ _ scope => scope < count
  | .returned _ value => value.LivesIn count
  | _ => True

theorem Value.LivesIn.mono {count more : Nat} (grows : count ≤ more) {v : Value}
    (lives : v.LivesIn count) : v.LivesIn more := by
  induction v with
  | closure => exact Nat.lt_of_lt_of_le lives grows
  | returned cell value ih => exact ih lives
  | _ => trivial

theorem Value.LivesIn.unwrapReturn {count : Nat} {v : Value} (lives : v.LivesIn count) :
    v.unwrapReturn.LivesIn count := by
  cases v <;> exact lives

namespace Machine

def HasParent (m : Machine) (child parent : ScopeId) : Prop := m.parent? child = some parent

/-- No scope is an ancestor of itself. -/
def Acyclic (m : Machine) : Prop := ∀ scope, ¬ Relation.TransGen m.HasParent scope scope

/-- Every scope that is named in the machine exists in it. -/
structure Closed (m : Machine) : Prop where
  parents : ∀ {child parent}, m.HasParent child parent → parent < m.scopes.size
  values : m.Binds (Value.LivesIn m.scopes.size)

/-- The search for a name from a scope outwards ends with this result. -/
inductive Finds (m : Machine) (name : String) : ScopeId → Option Value → Prop where
  | here {s : Scope} {value : Value} (present : m.scopes[scope]? = some s)
      (bound : s.bindings.lookup name = some value) : m.Finds name scope (some value)
  | nowhere {s : Scope} (present : m.scopes[scope]? = some s)
      (unbound : s.bindings.lookup name = none) (outermost : s.parent = none) :
      m.Finds name scope none
  | above {s : Scope} {result : Option Value} (present : m.scopes[scope]? = some s)
      (unbound : s.bindings.lookup name = none) (inner : s.parent = some parent)
      (found : m.Finds name parent result) : m.Finds name scope result

variable {m : Machine}

/-- A search that has left the visited scopes behind, innermost last, has reached this scope. -/
structure Climbed (m : Machine) (visited : List ScopeId) (scope : ScopeId) : Prop where
  inside : ∀ other ∈ scope :: visited, other < m.scopes.size
  descendants : ∀ other ∈ visited, Relation.TransGen m.HasParent other scope
  distinct : (scope :: visited).Nodup

theorem Climbed.start {scope : ScopeId} (inside : scope < m.scopes.size) : m.Climbed [] scope where
  inside := List.forall_mem_singleton.mpr inside
  descendants := List.forall_mem_nil _
  distinct := List.pairwise_singleton _ scope

variable {visited : List ScopeId} {scope : ScopeId}

theorem Climbed.up {parent : ScopeId} (climbed : m.Climbed visited scope) (acyclic : m.Acyclic)
    (above : m.HasParent scope parent) (inside : parent < m.scopes.size) :
    m.Climbed (scope :: visited) parent := by
  have descendants : ∀ other ∈ scope :: visited, Relation.TransGen m.HasParent other parent :=
    List.forall_mem_cons.mpr
      ⟨.single above, fun other member => (climbed.descendants other member).tail above⟩
  have new : parent ∉ scope :: visited := fun again => acyclic parent (descendants parent again)
  exact {
    inside := List.forall_mem_cons.mpr ⟨inside, climbed.inside⟩
    descendants := descendants
    distinct := List.nodup_cons.mpr ⟨new, climbed.distinct⟩ }

theorem Climbed.length_lt (climbed : m.Climbed visited scope) :
    visited.length < m.scopes.size := by
  have among : scope :: visited ⊆ List.range m.scopes.size := fun other member =>
    List.mem_range.mpr (climbed.inside other member)
  calc visited.length < (scope :: visited).length := Nat.lt_succ_self _
    _ ≤ (List.range m.scopes.size).length := (climbed.distinct.subperm among).length_le
    _ = m.scopes.size := List.length_range

theorem Climbed.finds (climbed : m.Climbed visited scope) (closed : m.Closed)
    (acyclic : m.Acyclic) {steps : Nat} (total : visited.length + steps = m.scopes.size)
    (name : String) : m.Finds name scope (m.lookupWithin name steps scope) := by
  induction steps generalizing visited scope with
  | zero => exact absurd climbed.length_lt (by omega)
  | succ steps ih =>
      have inside := climbed.inside scope List.mem_cons_self
      have present : m.scopes[scope]? = some m.scopes[scope] := Array.getElem?_eq_getElem inside
      simp only [Machine.lookupWithin, present]
      cases bound : m.scopes[scope].bindings.lookup name with
      | some value => exact .here present bound
      | none =>
          cases outer : m.scopes[scope].parent with
          | none => exact .nowhere present bound outer
          | some parent =>
              have above : m.HasParent scope parent := by
                simp only [HasParent, parent?, present, Option.bind_some, outer]
              refine .above present bound outer (ih (climbed.up acyclic above (closed.parents above)) ?_)
              simp only [List.length_cons]
              omega

@[simp] theorem size_bind (m : Machine) (scope : ScopeId) (name : String) (value : Value) :
    (m.bind scope name value).scopes.size = m.scopes.size := by
  simp [bind]

@[simp] theorem parent?_bind (m : Machine) (scope : ScopeId) (name : String) (value : Value) :
    (m.bind scope name value).parent? = m.parent? := by
  funext other
  simp only [parent?, bind, Array.getElem?_modify]
  split
  · cases m.scopes[other]? <;> rfl
  · rfl

@[simp] theorem size_bindAll (m : Machine) (scope : ScopeId) (arguments : List (String × Value)) :
    (m.bindAll scope arguments).scopes.size = m.scopes.size := by
  induction arguments generalizing m with
  | nil => rfl
  | cons binding rest ih => exact (ih _).trans (m.size_bind scope binding.1 binding.2)

@[simp] theorem parent?_bindAll (m : Machine) (scope : ScopeId)
    (arguments : List (String × Value)) : (m.bindAll scope arguments).parent? = m.parent? := by
  induction arguments generalizing m with
  | nil => rfl
  | cons binding rest ih => exact (ih _).trans (m.parent?_bind scope binding.1 binding.2)

@[simp] theorem size_enter (m : Machine) (captured : ScopeId) (arguments : List (String × Value)) :
    (m.enter captured arguments).scopes.size = m.scopes.size + 1 := by
  simp [enter, newScope]

theorem parent?_enter (m : Machine) (captured : ScopeId) (arguments : List (String × Value))
    (scope : ScopeId) : (m.enter captured arguments).parent? scope =
      if scope = m.scopes.size then some captured else m.parent? scope := by
  change ((m.newScope (some captured)).2.bindAll m.scopes.size arguments).parent? scope = _
  rw [parent?_bindAll]
  simp only [parent?, newScope, Array.getElem?_push]
  split <;> rfl

/-- Parents of the scopes that existed before a call are those they had. -/
theorem ancestor_of_enter (closed : m.Closed) {captured : ScopeId}
    {arguments : List (String × Value)} {scope ancestor : ScopeId} (inside : scope < m.scopes.size)
    (reaches : Relation.TransGen (m.enter captured arguments).HasParent scope ancestor) :
    Relation.TransGen m.HasParent scope ancestor ∧ ancestor < m.scopes.size := by
  have old : ∀ {child parent}, child < m.scopes.size →
      (m.enter captured arguments).HasParent child parent → m.HasParent child parent := by
    intro child parent inside above
    rwa [HasParent, parent?_enter, if_neg (Nat.ne_of_lt inside)] at above
  induction reaches with
  | single above => exact ⟨.single (old inside above), closed.parents (old inside above)⟩
  | tail _ above ih =>
      obtain ⟨reached, insideMid⟩ := ih
      exact ⟨reached.tail (old insideMid above), closed.parents (old insideMid above)⟩

/-- All scopes that are named exist, and no search for a name goes round in a circle. -/
structure Sound (m : Machine) : Prop where
  closed : m.Closed
  acyclic : m.Acyclic

namespace Sound

theorem of_parents (sound : m.Sound) {m' : Machine} (sameSize : m'.scopes.size = m.scopes.size)
    (sameParents : m'.parent? = m.parent?) (values : m'.Binds (Value.LivesIn m.scopes.size)) :
    m'.Sound := by
  have same : m'.HasParent = m.HasParent := by
    funext child parent
    simp only [HasParent, sameParents]
  exact {
    closed.parents := by
      rw [same, sameSize]
      exact sound.closed.parents
    closed.values := by
      rw [sameSize]
      exact values
    acyclic := by
      rw [Acyclic, same]
      exact sound.acyclic }

theorem of_scopes (sound : m.Sound) {m' : Machine} (same : m'.scopes = m.scopes) : m'.Sound := by
  have sameParents : m'.parent? = m.parent? := by
    funext child
    simp only [parent?, same]
  exact sound.of_parents (congrArg Array.size same) sameParents (sound.closed.values.of_scopes same)

theorem bind (sound : m.Sound) (scope : ScopeId) (name : String) {value : Value}
    (lives : value.LivesIn m.scopes.size) : (m.bind scope name value).Sound :=
  sound.of_parents (m.size_bind scope name value) (m.parent?_bind scope name value)
    (sound.closed.values.bind scope name lives)

theorem enter (sound : m.Sound) {captured : ScopeId} (inside : captured < m.scopes.size)
    {params : List String} {args : List Value} (lives : ∀ v ∈ args, v.LivesIn m.scopes.size) :
    (m.enter captured (params.zip args)).Sound := by
  have parents : ∀ {child parent}, (m.enter captured (params.zip args)).HasParent child parent →
      parent < m.scopes.size := by
    intro child parent above
    rw [HasParent, parent?_enter] at above
    split at above
    · cases above
      exact inside
    · exact sound.closed.parents above
  have values : (m.enter captured (params.zip args)).Binds (Value.LivesIn m.scopes.size) :=
    sound.closed.values.enter captured lives
  exact {
    closed.parents := fun above => by
      rw [size_enter]
      exact Nat.lt_succ_of_lt (parents above)
    closed.values := by
      rw [size_enter]
      exact values.imp fun v => Value.LivesIn.mono (Nat.le_succ _)
    acyclic := fun scope cycle => by
      -- A cycle comes back to its scope from below, so the scope is not the new one.
      obtain ⟨_, above⟩ : ∃ child, (m.enter captured (params.zip args)).HasParent child scope := by
        cases cycle with
        | single above => exact ⟨_, above⟩
        | tail _ above => exact ⟨_, above⟩
      exact sound.acyclic scope (ancestor_of_enter sound.closed (parents above) cycle).1 }

theorem lookup (sound : m.Sound) (inside : scope < m.scopes.size) (name : String) :
    m.Finds name scope (m.lookup scope name) :=
  (Climbed.start inside).finds sound.closed sound.acyclic (Nat.zero_add _) name

end Sound

end Machine

end TreeWalk
