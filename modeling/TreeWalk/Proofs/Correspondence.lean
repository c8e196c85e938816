import TreeWalk.Proofs.Ancestors
import TreeWalk.Proofs.Frame
import TreeWalk.Proofs.Parallel

/-! # Machines that correspond

Two machines may hold the same scopes and the same values under other numbers, beside scopes and
cells that nothing refers to any more, and with other spans in their functions and failures. A
pairing says which scope of the one stands for which scope of the other, and which cell for which.

Corresponding machines stay so when the same is done to both, and whatever is found in the one is
found in the other. A search for a name does not depend on how many scopes a machine has, as long as
it takes that many steps: it would otherwise visit a scope twice, and go round in a circle.
-/

namespace TreeWalk

/-- How much is seen of spans when two machines are compared. -/
structure Likeness where
  /-- What is seen of the span of a node. -/
  view : Span → Span
  /-- The places of two failures look the same. -/
  place : Option Span → Option Span → Prop
  nowhere : place none none
  located : ∀ {span span' p p'}, view span = view span' → place p p' →
    place (p.or (some span)) (p'.or (some span'))

/-- Which scopes of two machines stand for each other, and which cells. -/
structure Pairing where
  scopes : ScopeId → ScopeId → Prop
  cells : CellId → CellId → Prop
  oneScope : ∀ {a a' b b'}, scopes a a' → scopes b b' → (a = b ↔ a' = b')
  oneCell : ∀ {c c' d d'}, cells c c' → cells d d' → (c = d ↔ c' = d')

namespace Pairing

/-- A later pairing pairs more. -/
instance : Preorder Pairing where
  le ρ ρ' := (∀ a a', ρ.scopes a a' → ρ'.scopes a a') ∧ ∀ c c', ρ.cells c c' → ρ'.cells c c'
  le_refl _ := ⟨fun _ _ paired => paired, fun _ _ paired => paired⟩
  le_trans _ _ _ first second :=
    ⟨fun a a' paired => second.1 a a' (first.1 a a' paired),
      fun c c' paired => second.2 c c' (first.2 c c' paired)⟩

variable {ρ ρ' : Pairing}

theorem scopes_mono (later : ρ ≤ ρ') {a a' : ScopeId} (paired : ρ.scopes a a') : ρ'.scopes a a' :=
  later.1 a a' paired

theorem cells_mono (later : ρ ≤ ρ') {c c' : CellId} (paired : ρ.cells c c') : ρ'.cells c c' :=
  later.2 c c' paired

/-- Pair two scopes that are paired with nothing yet. -/
def addScope (ρ : Pairing) (a a' : ScopeId) (fresh : ∀ {b b'}, ρ.scopes b b' → b ≠ a ∧ b' ≠ a') :
    Pairing where
  scopes b b' := ρ.scopes b b' ∨ b = a ∧ b' = a'
  cells := ρ.cells
  oneScope := by
    rintro b b' d d' (first | ⟨rfl, rfl⟩) (second | ⟨rfl, rfl⟩)
    · exact ρ.oneScope first second
    · exact iff_of_false (fresh first).1 (fresh first).2
    · exact iff_of_false (fresh second).1.symm (fresh second).2.symm
    · exact iff_of_true rfl rfl
  oneCell := ρ.oneCell

def addCell (ρ : Pairing) (c c' : CellId) (fresh : ∀ {d d'}, ρ.cells d d' → d ≠ c ∧ d' ≠ c') :
    Pairing where
  scopes := ρ.scopes
  cells d d' := ρ.cells d d' ∨ d = c ∧ d' = c'
  oneScope := ρ.oneScope
  oneCell := by
    rintro d d' e e' (first | ⟨rfl, rfl⟩) (second | ⟨rfl, rfl⟩)
    · exact ρ.oneCell first second
    · exact iff_of_false (fresh first).1 (fresh first).2
    · exact iff_of_false (fresh second).1.symm (fresh second).2.symm
    · exact iff_of_true rfl rfl

theorem le_addScope {a a' : ScopeId} (fresh : ∀ {b b'}, ρ.scopes b b' → b ≠ a ∧ b' ≠ a') :
    ρ ≤ ρ.addScope a a' fresh :=
  ⟨fun _ _ => Or.inl, fun _ _ paired => paired⟩

theorem le_addCell {c c' : CellId} (fresh : ∀ {d d'}, ρ.cells d d' → d ≠ c ∧ d' ≠ c') :
    ρ ≤ ρ.addCell c c' fresh :=
  ⟨fun _ _ paired => paired, fun _ _ => Or.inl⟩

end Pairing

/-- Values of the same kind with the same content, up to numbers and spans. -/
inductive Value.Corresponds (l : Likeness) (ρ : Pairing) : Value → Value → Prop where
  | int : Corresponds l ρ (.int n) (.int n)
  | bool : Corresponds l ρ (.bool b) (.bool b)
  | null : Corresponds l ρ .null .null
  | returned : ρ.cells cell cell' → Corresponds l ρ v v' →
      Corresponds l ρ (.returned cell v) (.returned cell' v')
  | error {failure failure' : Failure} : ρ.cells cell cell' → failure.cause = failure'.cause →
      l.place failure.span failure'.span →
      Corresponds l ρ (.error cell failure) (.error cell' failure')
  | closure {literal literal' : FunctionLiteral} : ρ.cells cell cell' →
      literal.mapSpans l.view = literal'.mapSpans l.view →
      ρ.scopes scope scope' →
      Corresponds l ρ (.closure cell literal scope) (.closure cell' literal' scope')

namespace Value.Corresponds

variable {l : Likeness} {ρ ρ' : Pairing} {v v' w w' : Value}

theorem mono (later : ρ ≤ ρ') (alike : v.Corresponds l ρ v') : v.Corresponds l ρ' v' := by
  induction alike with
  | int => exact .int
  | bool => exact .bool
  | null => exact .null
  | returned cells _ ih => exact .returned (Pairing.cells_mono later cells) ih
  | error cells causes places => exact .error (Pairing.cells_mono later cells) causes places
  | closure cells literals scopes =>
      exact .closure (Pairing.cells_mono later cells) literals (Pairing.scopes_mono later scopes)

theorem scalar (plain : v.isSignal = false) (noFunction : v.type ≠ .function) :
    v.Corresponds l ρ v := by
  cases v with
  | int => exact .int
  | bool => exact .bool
  | null => exact .null
  | closure => exact absurd rfl noFunction
  | returned | error => cases plain

theorem type_eq (alike : v.Corresponds l ρ v') : v'.type = v.type := by
  cases alike <;> rfl

theorem isSignal_eq (alike : v.Corresponds l ρ v') : v'.isSignal = v.isSignal := by
  cases alike <;> rfl

theorem isTruthy_eq (alike : v.Corresponds l ρ v') : v'.isTruthy = v.isTruthy := by
  cases alike <;> rfl

theorem unwrapReturn (alike : v.Corresponds l ρ v') :
    v.unwrapReturn.Corresponds l ρ v'.unwrapReturn := by
  cases alike with
  | returned _ inner => exact inner
  | int => exact .int
  | bool => exact .bool
  | null => exact .null
  | error cells causes places => exact .error cells causes places
  | closure cells literals scopes => exact .closure cells literals scopes

/-- Functions, and all other values, are told apart in both machines or in neither. -/
theorem identical_eq (first : v.Corresponds l ρ v') (second : w.Corresponds l ρ w') :
    v'.identical w' = v.identical w := by
  have cell {c c' d d' : CellId} (one : ρ.cells c c') (other : ρ.cells d d') :
      (c' == d') = (c == d) := by
    rw [Bool.eq_iff_iff, beq_iff_eq, beq_iff_eq]
    exact (ρ.oneCell one other).symm
  cases first <;> cases second <;> first | rfl | exact cell ‹_› ‹_›

end Value.Corresponds

theorem UnaryOp.operate_corresponds {l : Likeness} {ρ : Pairing} {v v' : Value} (op : UnaryOp)
    (alike : v.Corresponds l ρ v') : op.operate v' = op.operate v := by
  cases op with
  | not => simp only [UnaryOp.operate, alike.isTruthy_eq]
  | neg => cases alike <;> rfl

theorem BinaryOp.operate_corresponds {l : Likeness} {ρ : Pairing} {v v' w w' : Value}
    (op : BinaryOp) (first : v.Corresponds l ρ v') (second : w.Corresponds l ρ w') :
    op.operate v' w' = op.operate v w := by
  have same := first.identical_eq second
  have types := first.type_eq
  have types' := second.type_eq
  cases first <;> cases second <;>
    first | rfl | simp only [BinaryOp.operate, same, types, types']

/-- The scopes bind the same names to values that correspond, below parents that do. -/
structure Scope.Corresponds (l : Likeness) (ρ : Pairing) (s s' : Scope) : Prop where
  bindings : ∀ name, Option.Rel (Value.Corresponds l ρ) (s.bindings.lookup name)
    (s'.bindings.lookup name)
  parent : Option.Rel ρ.scopes s.parent s'.parent

/-- Scopes that are paired correspond, and what is created next is paired with nothing yet. -/
structure Machine.Corresponds (l : Likeness) (ρ : Pairing) (m m' : Machine) : Prop where
  depth : m'.depth = m.depth
  scopes : ∀ {a a'}, ρ.scopes a a' → ∃ s s', m.scopes[a]? = some s ∧ m'.scopes[a']? = some s' ∧
    s.Corresponds l ρ s'
  cells : ∀ {c c'}, ρ.cells c c' → c < m.nextCell ∧ c' < m'.nextCell

theorem Option.Rel.imp {α β : Type} {r r' : α → β → Prop} (weaker : ∀ a b, r a b → r' a b)
    {x : Option α} {y : Option β} (related : Option.Rel r x y) : Option.Rel r' x y := by
  cases related with
  | some here => exact .some (weaker _ _ here)
  | none => exact .none

theorem Option.Rel.map {α β γ δ : Type} {r : α → β → Prop} {r' : γ → δ → Prop} {f : α → γ}
    {g : β → δ} (preserved : ∀ a b, r a b → r' (f a) (g b)) {x : Option α} {y : Option β}
    (related : Option.Rel r x y) : Option.Rel r' (x.map f) (y.map g) := by
  cases related with
  | some here => exact .some (preserved _ _ here)
  | none => exact .none

theorem Scope.Corresponds.mono {l : Likeness} {ρ ρ' : Pairing} {s s' : Scope} (later : ρ ≤ ρ')
    (alike : s.Corresponds l ρ s') : s.Corresponds l ρ' s' where
  bindings name := Option.Rel.imp (fun _ _ => .mono later) (alike.bindings name)
  parent := Option.Rel.imp (fun _ _ => Pairing.scopes_mono later) alike.parent

theorem Scope.Corresponds.insert {l : Likeness} {ρ : Pairing} {s s' : Scope} {v v' : Value}
    (alike : s.Corresponds l ρ s') (name : String) (values : v.Corresponds l ρ v') :
    Scope.Corresponds l ρ { s with bindings := Bindings.insert name v s.bindings }
      { s' with bindings := Bindings.insert name v' s'.bindings } where
  bindings other := by
    rw [Bindings.lookup_insert, Bindings.lookup_insert]
    split
    · exact .some values
    · exact alike.bindings other
  parent := alike.parent

namespace Machine

variable {m : Machine} {name : String}

/-- None of the scopes binds the name, and their parents are among them or among the others. -/
def Silent (m : Machine) (name : String) (scopes others : List ScopeId) : Prop :=
  ∀ scope ∈ scopes, ∃ s, m.scopes[scope]? = some s ∧ s.bindings.lookup name = none ∧
    ∀ parent ∈ s.parent, parent ∈ others

theorem Silent.lookupWithin {scopes : List ScopeId} (silent : m.Silent name scopes scopes)
    {scope : ScopeId} (member : scope ∈ scopes) (steps : Nat) :
    m.lookupWithin name steps scope = none := by
  induction steps generalizing scope with
  | zero =>
      obtain ⟨s, present, unbound, _⟩ := silent scope member
      simp only [Machine.lookupWithin, present, Option.bind_some, unbound]
  | succ steps ih =>
      obtain ⟨s, present, unbound, parents⟩ := silent scope member
      simp only [Machine.lookupWithin, present, unbound]
      cases above : s.parent with
      | none => rfl
      | some parent => exact ih (parents parent above)

/-- A search that comes back to a scope goes round in a circle, and finds nothing. -/
theorem Silent.circle {visited : List ScopeId} {scope : ScopeId}
    (silent : m.Silent name visited (scope :: visited)) (again : scope ∈ visited) (steps : Nat) :
    m.lookupWithin name steps scope = none := by
  have closed : m.Silent name visited visited := by
    intro other member
    obtain ⟨s, present, unbound, parents⟩ := silent other member
    refine ⟨s, present, unbound, fun parent above => ?_⟩
    rcases List.mem_cons.mp (parents parent above) with rfl | old
    · exact again
    · exact old
  exact closed.lookupWithin again steps

/-- A search that has visited as many distinct scopes as there are has left the machine. -/
theorem Silent.left {visited : List ScopeId} {scope : ScopeId} {others : List ScopeId}
    (silent : m.Silent name visited others) (distinct : (scope :: visited).Nodup)
    (all : m.scopes.size ≤ visited.length) : m.scopes[scope]? = none := by
  refine Array.getElem?_eq_none (Nat.le_of_not_lt fun inside => ?_)
  have among : scope :: visited ⊆ List.range m.scopes.size := by
    refine List.cons_subset.mpr ⟨List.mem_range.mpr inside, fun other member => ?_⟩
    obtain ⟨s, present, _⟩ := silent other member
    exact List.mem_range.mpr (Array.getElem?_eq_some_iff.mp present).1
  have room := (distinct.subperm among).length_le
  rw [List.length_range, List.length_cons] at room
  omega

theorem Silent.up {visited : List ScopeId} {scope parent : ScopeId} {s : Scope}
    (silent : m.Silent name visited (scope :: visited)) (present : m.scopes[scope]? = some s)
    (unbound : s.bindings.lookup name = none) (above : s.parent = some parent) :
    m.Silent name (scope :: visited) (parent :: scope :: visited) := by
  intro other member
  rcases List.mem_cons.mp member with rfl | old
  · refine ⟨s, present, unbound, fun up found => ?_⟩
    cases above.symm.trans found
    exact List.mem_cons_self
  · obtain ⟨s, present, unbound, parents⟩ := silent other old
    exact ⟨s, present, unbound, fun up found => List.mem_cons_of_mem _ (parents up found)⟩

/-- A search that has left distinct scopes behind needs no more steps than there are others. -/
theorem lookupWithin_add {visited : List ScopeId} {scope : ScopeId} {steps : Nat}
    (distinct : visited.Nodup) (silent : m.Silent name visited (scope :: visited))
    (enough : m.scopes.size ≤ visited.length + steps) (more : Nat) :
    m.lookupWithin name (steps + more) scope = m.lookupWithin name steps scope := by
  induction steps generalizing visited scope with
  | zero =>
      by_cases again : scope ∈ visited
      · rw [silent.circle again, silent.circle again]
      · have absent := silent.left (List.nodup_cons.mpr ⟨again, distinct⟩) enough
        cases more with
        | zero => rfl
        | succ more => simp only [Machine.lookupWithin, absent, Option.bind_none]
  | succ steps ih =>
      by_cases again : scope ∈ visited
      · rw [silent.circle again, silent.circle again]
      · rw [Nat.add_right_comm]
        simp only [Machine.lookupWithin]
        cases present : m.scopes[scope]? with
        | none => rfl
        | some s =>
            cases unbound : s.bindings.lookup name with
            | some value => simp only [unbound]
            | none =>
                cases above : s.parent with
                | none => simp only [unbound, above]
                | some parent =>
                    simp only [unbound, above]
                    refine ih (List.nodup_cons.mpr ⟨again, distinct⟩)
                      (silent.up present unbound above) ?_
                    rw [List.length_cons]
                    omega

theorem lookupWithin_of_le {steps : Nat} (enough : m.scopes.size ≤ steps) (scope : ScopeId) :
    m.lookupWithin name steps scope = m.lookup scope name := by
  obtain ⟨more, rfl⟩ := Nat.exists_eq_add_of_le enough
  exact lookupWithin_add List.nodup_nil nofun (by simp) more

namespace Corresponds

variable {l : Likeness} {ρ : Pairing} {m' : Machine} {a a' : ScopeId}

theorem lookupWithin (alike : m.Corresponds l ρ m') (name : String) (steps : Nat)
    (paired : ρ.scopes a a') :
    Option.Rel (Value.Corresponds l ρ) (m.lookupWithin name steps a)
      (m'.lookupWithin name steps a') := by
  induction steps generalizing a a' with
  | zero =>
      obtain ⟨s, s', present, present', same⟩ := alike.scopes paired
      simp only [Machine.lookupWithin, present, present', Option.bind_some]
      exact same.bindings name
  | succ steps ih =>
      obtain ⟨s, s', present, present', same⟩ := alike.scopes paired
      simp only [Machine.lookupWithin, present, present']
      have found := same.bindings name
      have above := same.parent
      generalize s.bindings.lookup name = value, s'.bindings.lookup name = value' at found
      generalize s.parent = parent, s'.parent = parent' at above
      cases found with
      | some values => exact .some values
      | none =>
          cases above with
          | none => exact .none
          | some parents => exact ih parents

theorem lookup (alike : m.Corresponds l ρ m') (name : String) (paired : ρ.scopes a a') :
    Option.Rel (Value.Corresponds l ρ) (m.lookup a name) (m'.lookup a' name) := by
  -- The machines need not have as many scopes, so both are searched for the longer time.
  rw [← lookupWithin_of_le (Nat.le_max_left m.scopes.size m'.scopes.size),
    ← lookupWithin_of_le (Nat.le_max_right m.scopes.size m'.scopes.size)]
  exact alike.lookupWithin name _ paired

theorem newCell (alike : m.Corresponds l ρ m') :
    ∃ later, ρ ≤ later ∧ later.cells m.nextCell m'.nextCell ∧
      m.newCell.2.Corresponds l later m'.newCell.2 := by
  have fresh {d d'} (paired : ρ.cells d d') : d ≠ m.nextCell ∧ d' ≠ m'.nextCell :=
    ⟨Nat.ne_of_lt (alike.cells paired).1, Nat.ne_of_lt (alike.cells paired).2⟩
  have later := Pairing.le_addCell fresh
  refine ⟨_, later, .inr ⟨rfl, rfl⟩, alike.depth, ?_, ?_⟩
  · intro b b' paired
    obtain ⟨s, s', present, present', same⟩ := alike.scopes paired
    exact ⟨s, s', present, present', same.mono later⟩
  · rintro d d' (old | ⟨rfl, rfl⟩)
    · exact ⟨Nat.lt_succ_of_lt (alike.cells old).1, Nat.lt_succ_of_lt (alike.cells old).2⟩
    · exact ⟨Nat.lt_succ_self _, Nat.lt_succ_self _⟩

theorem bind (alike : m.Corresponds l ρ m') (paired : ρ.scopes a a') (name : String)
    {v v' : Value} (values : v.Corresponds l ρ v') :
    (m.bind a name v).Corresponds l ρ (m'.bind a' name v') where
  depth := alike.depth
  scopes {b b'} other := by
    obtain ⟨s, s', present, present', same⟩ := alike.scopes other
    simp only [Machine.bind, Array.getElem?_modify, present, present']
    by_cases here : a = b
    · rw [if_pos here, if_pos ((ρ.oneScope paired other).mp here)]
      exact ⟨_, _, rfl, rfl, same.insert name values⟩
    · rw [if_neg here, if_neg (mt (ρ.oneScope paired other).mpr here)]
      exact ⟨s, s', rfl, rfl, same⟩
  cells := alike.cells

theorem bindAll (alike : m.Corresponds l ρ m') (paired : ρ.scopes a a') (params : List String)
    {args args' : List Value} (values : List.Forall₂ (Value.Corresponds l ρ) args args') :
    (m.bindAll a (params.zip args)).Corresponds l ρ (m'.bindAll a' (params.zip args')) := by
  induction params generalizing m m' args args' with
  | nil => exact alike
  | cons name params ih =>
      cases values with
      | nil => exact alike
      | cons value values => exact ih (alike.bind paired name value) values

theorem newScope (alike : m.Corresponds l ρ m') {parent parent' : Option ScopeId}
    (parents : Option.Rel ρ.scopes parent parent') :
    ∃ later, ρ ≤ later ∧ later.scopes m.scopes.size m'.scopes.size ∧
      (m.newScope parent).2.Corresponds l later (m'.newScope parent').2 := by
  have inside {b b'} (paired : ρ.scopes b b') : b < m.scopes.size ∧ b' < m'.scopes.size := by
    obtain ⟨s, s', present, present', _⟩ := alike.scopes paired
    exact ⟨(Array.getElem?_eq_some_iff.mp present).1, (Array.getElem?_eq_some_iff.mp present').1⟩
  have fresh {b b'} (paired : ρ.scopes b b') : b ≠ m.scopes.size ∧ b' ≠ m'.scopes.size :=
    ⟨Nat.ne_of_lt (inside paired).1, Nat.ne_of_lt (inside paired).2⟩
  have later := Pairing.le_addScope fresh
  refine ⟨_, later, .inr ⟨rfl, rfl⟩, alike.depth, ?_, alike.cells⟩
  rintro b b' (old | ⟨rfl, rfl⟩)
  · obtain ⟨s, s', present, present', same⟩ := alike.scopes old
    exact ⟨s, s', m.untouched_newScope _ b s present, m'.untouched_newScope _ b' s' present',
      same.mono later⟩
  · refine ⟨{ parent }, { parent := parent' }, by simp [Machine.newScope],
      by simp [Machine.newScope], fun _ => .none, ?_⟩
    exact Option.Rel.imp (fun _ _ => Pairing.scopes_mono later) parents

theorem enter (alike : m.Corresponds l ρ m') (paired : ρ.scopes a a') (params : List String)
    {args args' : List Value} (values : List.Forall₂ (Value.Corresponds l ρ) args args') :
    ∃ later, ρ ≤ later ∧ later.scopes m.scopes.size m'.scopes.size ∧
      (m.enter a (params.zip args)).Corresponds l later (m'.enter a' (params.zip args')) := by
  obtain ⟨ρ', later, scopes, created⟩ := alike.newScope (.some paired)
  have bound := created.bindAll scopes params (values.imp fun _ _ => .mono later)
  exact ⟨ρ', later, scopes, congrArg (· + 1) bound.depth, bound.scopes, bound.cells⟩

theorem leave (alike : m.Corresponds l ρ m') : m.leave.Corresponds l ρ m'.leave where
  depth := congrArg (· - 1) alike.depth
  scopes := alike.scopes
  cells := alike.cells

end Corresponds

end Machine

end TreeWalk
