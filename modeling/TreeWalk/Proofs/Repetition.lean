import TreeWalk.Proofs.InStep
import TreeWalk.Proofs.SelfContained

/-! # Calls leave no trace

A call writes to no scope that exists before it, takes new cells, and leaves as many calls running
as there were. A self-contained machine can name nothing of what a call left behind, so the machine
behind it corresponds to the one before, scope by scope and cell by cell. Whatever is applied next
therefore comes to the same as it would have come to before.
-/

namespace TreeWalk

/-- Nothing is overlooked of spans. -/
def Likeness.exact : Likeness where
  view := id
  place := Eq
  nowhere := rfl
  located {span span'} _ _ spans places := by
    obtain rfl : span = span' := spans
    rw [places]

/-- The same scalar, a failure of the same kind at the same place, a function with the same
    literal, or a pending `return` of such. -/
inductive Value.Resembles : Value → Value → Prop where
  | int : Resembles (.int n) (.int n)
  | bool : Resembles (.bool b) (.bool b)
  | null : Resembles .null .null
  | returned : Resembles v v' → Resembles (.returned cell v) (.returned cell' v')
  | error {failure : Failure} : Resembles (.error cell failure) (.error cell' failure)
  | closure : Resembles (.closure cell literal scope) (.closure cell' literal scope')

theorem Value.Corresponds.resembles {ρ : Pairing} {v v' : Value}
    (alike : v.Corresponds .exact ρ v') : v.Resembles v' := by
  induction alike with
  | int => exact .int
  | bool => exact .bool
  | null => exact .null
  | returned _ _ ih => exact .returned ih
  | @error _ _ failure failure' _ causes places =>
      obtain rfl : failure = failure' := by
        cases failure
        cases failure'
        cases causes
        cases places
        rfl
      exact .error
  | @closure _ _ _ _ literal literal' _ literals _ =>
      obtain rfl : literal = literal' := by
        rw [← literal.mapSpans_id, ← literal'.mapSpans_id]
        exact literals
      exact .closure

namespace Machine

/-- Every scope and every cell of a machine is paired with itself. -/
def itself (m : Machine) : Pairing where
  scopes a a' := a = a' ∧ a < m.scopes.size
  cells c c' := c = c' ∧ c < m.nextCell
  oneScope := by
    rintro a _ b _ ⟨rfl, _⟩ ⟨rfl, _⟩
    exact Iff.rfl
  oneCell := by
    rintro c _ d _ ⟨rfl, _⟩ ⟨rfl, _⟩
    exact Iff.rfl

/-- What a call leaves of a machine: its scopes as they were, and as many calls running. -/
structure Outlived (m m' : Machine) : Prop where
  scopes : m.Untouched m'
  cells : m.nextCell ≤ m'.nextCell
  depth : m'.depth = m.depth

variable {m mid m' : Machine} {limit : Option Nat} {function v : Value} {args : List Value}

theorem Outlived.refl (m : Machine) : m.Outlived m where
  scopes _ _ found := found
  cells := Nat.le_refl _
  depth := rfl

theorem Outlived.trans (first : m.Outlived mid) (second : mid.Outlived m') : m.Outlived m' where
  scopes := first.scopes.trans second.scopes
  cells := Nat.le_trans first.cells second.cells
  depth := second.depth.trans first.depth

theorem SelfContained.outlived (contained : m.SelfContained) (limit : Option Nat)
    (known : function.KnownTo m.extent) (knownArgs : ∀ v ∈ args, v.KnownTo m.extent)
    (span : Span) : m.Outlived (m.apply limit function args span).2 := by
  have yields := contained.apply limit known knownArgs span
  have idle : m.Untouched m.newCell.2 := .of_scopes rfl
  have untouched : m.Untouched (m.apply limit function args span).2 :=
    m.finish_elim limit _ idle (writesNone_call limit (callBudget limit) function args span m)
  exact ⟨untouched, yields.grows.2, yields.depth⟩

/-- Some calls of known values, one after another, lead from the first machine to the second. -/
inductive Called (m' : Machine) : Machine → Prop
  | done : Called m' m'
  | call {m : Machine} {function : Value} {args : List Value} (limit : Option Nat) (span : Span) :
      function.KnownTo m.extent → (∀ v ∈ args, v.KnownTo m.extent) →
      Called m' (m.apply limit function args span).2 → Called m' m

theorem Called.outlived (called : Called m' m) (contained : m.SelfContained) : m.Outlived m' := by
  induction called with
  | done => exact .refl m'
  | call limit span known knownArgs _ ih =>
      have rest := ih (contained.apply limit known knownArgs span).contained
      exact (contained.outlived limit known knownArgs span).trans rest

theorem corresponds_itself (known : v.KnownTo m.extent) : v.Corresponds .exact m.itself v := by
  induction v with
  | int => exact .int
  | bool => exact .bool
  | null => exact .null
  | returned cell value ih => exact .returned ⟨rfl, known.1⟩ (ih known.2)
  | error cell failure => exact .error ⟨rfl, known⟩ rfl rfl
  | closure cell literal scope => exact .closure ⟨rfl, known.2⟩ rfl ⟨rfl, known.1⟩

theorem SelfContained.scope_corresponds (contained : m.SelfContained) {scope : ScopeId} {s : Scope}
    (present : m.scopes[scope]? = some s) : s.Corresponds .exact m.itself s where
  bindings name := by
    cases bound : s.bindings.lookup name with
    | none => exact .none
    | some value =>
        exact .some (corresponds_itself
          (contained.values scope s present _ (Bindings.mem_of_lookup bound)))
  parent := by
    cases above : s.parent with
    | none => exact .none
    | some parent =>
        have inner : m.HasParent scope parent := by
          simp only [HasParent, parent?, present, Option.bind_some, above]
        exact .some ⟨rfl, contained.parents inner⟩

/-- A self-contained machine corresponds to what becomes of it. -/
theorem SelfContained.corresponds (contained : m.SelfContained) (outlived : m.Outlived m') :
    m.Corresponds .exact m.itself m' where
  depth := outlived.depth
  scopes := by
    rintro scope _ ⟨rfl, inside⟩
    have present : m.scopes[scope]? = some m.scopes[scope] := Array.getElem?_eq_getElem inside
    exact ⟨_, _, present, outlived.scopes scope _ present, contained.scope_corresponds present⟩
  cells := by
    rintro cell _ ⟨rfl, inside⟩
    exact ⟨inside, Nat.lt_of_lt_of_le inside outlived.cells⟩

/-- A call comes to the same whatever has been called in between. -/
theorem SelfContained.apply_resembles (contained : m.SelfContained) (called : Called m' m)
    (limit : Option Nat) (known : function.KnownTo m.extent)
    (knownArgs : ∀ v ∈ args, v.KnownTo m.extent) (span : Span) :
    (m.apply limit function args span).1.Resembles (m'.apply limit function args span).1 := by
  have alikeArgs : List.Forall₂ (Value.Corresponds .exact m.itself) args args :=
    List.forall₂_same.mpr fun v member => corresponds_itself (knownArgs v member)
  have same : (Operation.apply limit function args span).Corresponds .exact m.itself
      (.apply limit function args span) :=
    .apply (corresponds_itself known) alikeArgs rfl
  have alike := contained.corresponds (called.outlived contained)
  obtain ⟨_, _, values, _⟩ := alike.perform same
  exact values.resembles

end Machine

/-- A function that is applied twice in a row to the same arguments comes to the same. -/
theorem apply_again_resembles {m : Machine} (contained : m.SelfContained) (limit : Option Nat)
    {function : Value} {args : List Value} (known : function.KnownTo m.extent)
    (knownArgs : ∀ v ∈ args, v.KnownTo m.extent) (span : Span) :
    let first := m.apply limit function args span
    let second := first.2.apply limit function args span
    first.1.Resembles second.1 :=
  contained.apply_resembles (.call limit span known knownArgs .done) limit known knownArgs span

/-- A function that counts a name up in its own scope counts from the same number again. -/
theorem apply_again_resembles_counter :
    let literal : FunctionLiteral := ⟨[], .mk .zero
      [.bind .zero "n" (.binary .zero .add (.ident .zero "n") (.int .zero 1)),
        .ret .zero (some (.ident .zero "n"))], .zero⟩
    let f : Value := .closure 0 literal 0
    let m := Machine.serve {} [.newScope none, .bind 0 "n" (.int 5),
      .perform (.evaluate (some 1) (.expression (.fn .zero .zero literal.params literal.body)) 0)]
    let first := m.apply (some 1) f [] .zero
    let second := first.2.apply (some 1) f [] .zero
    first.1.inspect = "6" ∧ first.1.Resembles second.1 ∧ second.2.scopes.size = 3 := by
  intro literal f m first second
  have contained : m.SelfContained :=
    Machine.SelfContained.empty.serve ⟨nofun, trivial, Nat.zero_lt_one, trivial⟩
  have known : f.KnownTo m.extent := ⟨Nat.zero_lt_one, Nat.zero_lt_one⟩
  exact ⟨by decide +kernel,
    apply_again_resembles contained (some 1) known (List.forall_mem_nil _) .zero,
    by decide +kernel⟩

end TreeWalk
