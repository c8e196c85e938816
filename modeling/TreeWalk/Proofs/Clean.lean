import TreeWalk.Proofs.Bound

/-! # Machines that bind plain values

No scope of a clean machine binds a signal. Whatever is looked up in it is then a plain value, and
a machine stays clean as long as plain values are bound.
-/

namespace TreeWalk

/-- No scope binds a signal. -/
def Machine.Clean (m : Machine) : Prop :=
  ∀ (scope : ScopeId) (s : Scope), m.scopes[scope]? = some s →
    ∀ binding ∈ s.bindings, binding.2.isSignal = false

namespace Machine.Clean

variable {m : Machine}

theorem iff_binds : m.Clean ↔ m.Binds fun v => v.isSignal = false := Iff.rfl

theorem of_scopes (clean : m.Clean) {m' : Machine} (same : m'.scopes = m.scopes) : m'.Clean :=
  (iff_binds.mp clean).of_scopes same

theorem bind (clean : m.Clean) (scope : ScopeId) (name : String) {value : Value}
    (plain : value.isSignal = false) : (m.bind scope name value).Clean :=
  (iff_binds.mp clean).bind scope name plain

theorem enter (clean : m.Clean) (captured : ScopeId) {params : List String} {args : List Value}
    (plain : ∀ v ∈ args, v.isSignal = false) : (m.enter captured (params.zip args)).Clean :=
  (iff_binds.mp clean).enter captured plain

theorem lookup (clean : m.Clean) {scope : ScopeId} {name : String} {value : Value}
    (found : m.lookup scope name = some value) : value.isSignal = false :=
  (iff_binds.mp clean).lookup found

end Machine.Clean

end TreeWalk
