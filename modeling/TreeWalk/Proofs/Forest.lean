import Mathlib.Data.Nat.Basic
import TreeWalk.Proofs.Containment
import TreeWalk.Proofs.Parallel
import TreeWalk.Proofs.Termination

/-! # Scopes form a forest

Functions are bound in the very scopes that they captured, so what scopes hold goes round in
circles. Their parents do not: scopes are numbered in the order of their creation, a new scope is
put below one that exists, and no scope is ever moved. Whoever creates scopes, binds values,
evaluates and applies functions, in any order, therefore meets a finite line of ancestors above
every scope.
-/

namespace TreeWalk

namespace Machine

/-- Every scope is younger than its parent, and the scopes that bound functions captured exist. -/
structure Forest (m : Machine) : Prop where
  older : ∀ {child parent}, m.HasParent child parent → parent < child
  values : m.Binds (Value.LivesIn m.scopes.size)

/-- These are all the ancestors of a scope, from its parent outwards. -/
inductive Lineage (m : Machine) : ScopeId → List ScopeId → Prop where
  | outermost (top : m.parent? scope = none) : m.Lineage scope []
  | inner (above : m.HasParent scope parent) (rest : m.Lineage parent ancestors) :
      m.Lineage scope (parent :: ancestors)

/-- The second machine has the scopes of the first, with the same parents, and has besides exactly
    the scopes that are created on the way, with the parents that they are created below. -/
structure Grown (m : Machine) (created : ScopeId → Option ScopeId → Prop) (m' : Machine) :
    Prop where
  size : m.scopes.size ≤ m'.scopes.size
  kept : ∀ scope < m.scopes.size, m'.parent? scope = m.parent? scope
  added : ∀ scope parent, created scope parent ↔
    m.scopes.size ≤ scope ∧ scope < m'.scopes.size ∧ m'.parent? scope = parent

variable {m mid m' : Machine}

theorem HasParent.inside {child parent : ScopeId} (above : m.HasParent child parent) :
    child < m.scopes.size := by
  obtain ⟨s, present, _⟩ := Option.bind_eq_some_iff.mp above
  exact (Array.getElem?_eq_some_iff.mp present).1

@[simp] theorem size_newScope (m : Machine) (parent : Option ScopeId) :
    (m.newScope parent).2.scopes.size = m.scopes.size + 1 :=
  Array.size_push _

theorem parent?_newScope (m : Machine) (parent : Option ScopeId) (scope : ScopeId) :
    (m.newScope parent).2.parent? scope =
      if scope = m.scopes.size then parent else m.parent? scope := by
  simp only [parent?, newScope, Array.getElem?_push]
  split <;> rfl

namespace Grown

variable {created later : ScopeId → Option ScopeId → Prop}

theorem of_parents (sameSize : m'.scopes.size = m.scopes.size)
    (sameParents : m'.parent? = m.parent?) (nothing : ∀ scope parent, ¬ created scope parent) :
    m.Grown created m' where
  size := Nat.le_of_eq sameSize.symm
  kept scope _ := congrFun sameParents scope
  added scope parent := by
    refine iff_of_false (nothing scope parent) ?_
    rintro ⟨new, inside, _⟩
    rw [sameSize] at inside
    exact Nat.not_lt_of_le new inside

theorem of_scopes (same : m'.scopes = m.scopes)
    (nothing : ∀ scope parent, ¬ created scope parent) : m.Grown created m' := by
  refine of_parents (congrArg Array.size same) ?_ nothing
  funext scope
  simp only [parent?, same]

theorem one {parent : Option ScopeId} (size : m'.scopes.size = m.scopes.size + 1)
    (parents : ∀ scope, m'.parent? scope =
      if scope = m.scopes.size then parent else m.parent? scope) :
    m.Grown (fun scope above => scope = m.scopes.size ∧ above = parent) m' where
  size := size ▸ Nat.le_succ _
  kept scope inside := by rw [parents, if_neg (Nat.ne_of_lt inside)]
  added scope above := by
    rw [size]
    constructor
    · rintro ⟨rfl, rfl⟩
      exact ⟨Nat.le_refl _, Nat.lt_succ_self _, by rw [parents, if_pos rfl]⟩
    · rintro ⟨new, inside, rfl⟩
      have newest : scope = m.scopes.size := Nat.le_antisymm (Nat.le_of_lt_succ inside) new
      exact ⟨newest, by rw [parents, if_pos newest]⟩

theorem congr (grown : m.Grown created m')
    (same : ∀ scope parent, later scope parent ↔ created scope parent) : m.Grown later m' where
  size := grown.size
  kept := grown.kept
  added scope parent := (same scope parent).trans (grown.added scope parent)

theorem trans (first : m.Grown created mid) (second : mid.Grown later m') :
    m.Grown (fun scope parent => created scope parent ∨ later scope parent) m' where
  size := Nat.le_trans first.size second.size
  kept scope inside := by
    rw [second.kept scope (Nat.lt_of_lt_of_le inside first.size), first.kept scope inside]
  added scope parent := by
    have sizes := second.size
    rw [first.added, second.added]
    constructor
    · rintro (⟨new, inside, rfl⟩ | ⟨new, inside, rfl⟩)
      · exact ⟨new, Nat.lt_of_lt_of_le inside sizes, second.kept scope inside⟩
      · exact ⟨Nat.le_trans first.size new, inside, rfl⟩
    · rintro ⟨new, inside, rfl⟩
      by_cases early : scope < mid.scopes.size
      · exact .inl ⟨new, early, (second.kept scope early).symm⟩
      · exact .inr ⟨Nat.le_of_not_lt early, inside, rfl⟩

end Grown

namespace Forest

theorem empty : ({} : Machine).Forest where
  older above := absurd above.inside (Nat.not_lt_zero _)
  values _ _ found := nomatch found

theorem of_parents (forest : m.Forest) (sameSize : m'.scopes.size = m.scopes.size)
    (sameParents : m'.parent? = m.parent?) (values : m'.Binds (Value.LivesIn m.scopes.size)) :
    m'.Forest where
  older above := by
    rw [HasParent, sameParents] at above
    exact forest.older above
  values := by
    rw [sameSize]
    exact values

theorem of_scopes (forest : m.Forest) (same : m'.scopes = m.scopes) : m'.Forest := by
  refine forest.of_parents (congrArg Array.size same) ?_ (forest.values.of_scopes same)
  funext scope
  simp only [parent?, same]

theorem bind (forest : m.Forest) (scope : ScopeId) (name : String) {value : Value}
    (lives : value.LivesIn m.scopes.size) : (m.bind scope name value).Forest :=
  forest.of_parents (m.size_bind scope name value) (m.parent?_bind scope name value)
    (forest.values.bind scope name lives)

theorem add (forest : m.Forest) {parent : Option ScopeId}
    (size : m'.scopes.size = m.scopes.size + 1)
    (parents : ∀ scope, m'.parent? scope =
      if scope = m.scopes.size then parent else m.parent? scope)
    (inside : ∀ above ∈ parent, above < m.scopes.size)
    (values : m'.Binds (Value.LivesIn m.scopes.size)) : m'.Forest where
  older {child above} := by
    intro found
    rw [HasParent, parents] at found
    split at found
    · rename_i newest
      rw [newest]
      exact inside above found
    · exact forest.older found
  values := by
    rw [size]
    exact values.imp fun v => Value.LivesIn.mono (Nat.le_succ _)

theorem newScope (forest : m.Forest) {parent : Option ScopeId}
    (inside : ∀ above ∈ parent, above < m.scopes.size) : (m.newScope parent).2.Forest :=
  forest.add (m.size_newScope parent) (m.parent?_newScope parent) inside
    (forest.values.newScope parent)

theorem enter (forest : m.Forest) {captured : ScopeId} (inside : captured < m.scopes.size)
    {params : List String} {args : List Value} (lives : ∀ v ∈ args, v.LivesIn m.scopes.size) :
    (m.enter captured (params.zip args)).Forest := by
  refine forest.add (m.size_enter captured _) (m.parent?_enter captured _) ?_
    (forest.values.enter captured lives)
  rintro above ⟨⟩
  exact inside

theorem older_of_ancestor (forest : m.Forest) {scope ancestor : ScopeId}
    (climb : Relation.TransGen m.HasParent scope ancestor) : ancestor < scope := by
  induction climb with
  | single above => exact forest.older above
  | tail _ above ih => exact Nat.lt_trans (forest.older above) ih

theorem sound (forest : m.Forest) : m.Sound where
  closed.parents above := Nat.lt_trans (forest.older above) above.inside
  closed.values := forest.values
  acyclic scope cycle := Nat.lt_irrefl scope (forest.older_of_ancestor cycle)

theorem lineage (forest : m.Forest) (scope : ScopeId) : ∃ ancestors, m.Lineage scope ancestors := by
  induction scope using Nat.strongRecOn with
  | ind scope ih =>
      cases top : m.parent? scope with
      | none => exact ⟨[], .outermost top⟩
      | some parent =>
          obtain ⟨ancestors, rest⟩ := ih parent (forest.older top)
          exact ⟨parent :: ancestors, .inner top rest⟩

end Forest

end Machine

instance Value.decidableLivesIn (count : Nat) : (v : Value) → Decidable (v.LivesIn count)
  | .closure _ _ scope => inferInstanceAs (Decidable (scope < count))
  | .returned _ v => decidableLivesIn count v
  | .int _ | .bool _ | .null | .error _ _ => isTrue trivial

/-- The scope that a function was created in. -/
def Value.captured? : Value → Option ScopeId
  | .closure _ _ scope => some scope
  | _ => none

/-- At this moment a call starts. It creates this scope, below the one that the callee captured. -/
def Moment.Opens (limit : Option Nat) (moment : Moment) (scope : ScopeId)
    (parent : Option ScopeId) : Prop :=
  ∃ function args, moment.action = .call function args ∧
    Enters limit moment.machine args function ∧ scope = moment.machine.scopes.size ∧
    parent = function.captured?

def Opened (limit : Option Nat) (moments : List Moment) (scope : ScopeId)
    (parent : Option ScopeId) : Prop :=
  ∃ moment ∈ moments, moment.Opens limit scope parent

/-- What a computation that began on the machine comes to, if it ends: a forest with the scopes
    besides that its calls opened, and a value of this forest. -/
def Trace.Plants (limit : Option Nat) (m : Machine) (trace : Trace) : Prop :=
  ∀ v m', trace.result = some (v, m') →
    m'.Forest ∧ v.LivesIn m'.scopes.size ∧ m.Grown (Opened limit trace.moments) m'

section Opened

variable {limit : Option Nat} {scope : ScopeId} {parent : Option ScopeId}

theorem not_opened_nil : ¬ Opened limit [] scope parent := by
  rintro ⟨_, member, _⟩
  cases member

theorem opened_append {moments more : List Moment} :
    Opened limit (moments ++ more) scope parent ↔
      Opened limit moments scope parent ∨ Opened limit more scope parent := by
  simp only [Opened, List.mem_append, or_and_right, exists_or]

theorem opened_cons {moment : Moment} {more : List Moment} :
    Opened limit (moment :: more) scope parent ↔
      moment.Opens limit scope parent ∨ Opened limit more scope parent := by
  simp only [Opened, List.mem_cons, exists_eq_or_imp]

theorem opens_call {m : Machine} {function : Value} {args : List Value} :
    Moment.Opens limit ⟨m, .call function args⟩ scope parent ↔
      Enters limit m args function ∧ scope = m.scopes.size ∧ parent = function.captured? := by
  constructor
  · rintro ⟨function', args', ⟨⟩, opens⟩
    exact opens
  · exact fun opens => ⟨function, args, rfl, opens⟩

end Opened

/-- From every forest that has the scope and at least so many others the computation plants. -/
def PlantsFrom (limit : Option Nat) (scope : ScopeId) (count : Nat) (traced : Traced) : Prop :=
  ∀ m : Machine, m.Forest → count ≤ m.scopes.size → scope < m.scopes.size →
    (traced m).Plants limit m

section Steps

variable {limit : Option Nat} {m : Machine} {scope : ScopeId} {count : Nat}

theorem Trace.plants_none {trace : Trace} (spent : trace.result = none) : trace.Plants limit m := by
  intro v m' ran
  cases spent.symm.trans ran

theorem Trace.plants_unopened {trace : Trace}
    (unopened : ∀ scope parent, ¬ Opened limit trace.moments scope parent)
    (ends : ∀ v m', trace.result = some (v, m') → m'.Forest ∧ v.LivesIn m'.scopes.size ∧
      m'.scopes.size = m.scopes.size ∧ m'.parent? = m.parent?) : trace.Plants limit m := by
  intro v m' ran
  obtain ⟨forest, lives, size, parents⟩ := ends v m' ran
  exact ⟨forest, lives, .of_parents size parents unopened⟩

/-- A computation that does no more than create a value. -/
theorem Trace.plants_idle {moments : List Moment} {result : Option (Value × Machine)}
    (unopened : ∀ scope parent, ¬ Opened limit moments scope parent) (forest : m.Forest)
    (ends : ∀ v m', result = some (v, m') → m'.scopes = m.scopes ∧ v.LivesIn m.scopes.size) :
    Trace.Plants limit m ⟨moments, result⟩ := by
  intro v m' ran
  obtain ⟨same, lives⟩ := ends v m' ran
  exact ⟨forest.of_scopes same, same ▸ lives, .of_scopes same unopened⟩

theorem plants_quiet {run : Run Value}
    (ends : ∀ m v m', m.Forest → count ≤ m.scopes.size → scope < m.scopes.size →
      run m = some (v, m') → m'.scopes = m.scopes ∧ v.LivesIn m.scopes.size) :
    PlantsFrom limit scope count (.quiet run) := by
  intro m forest grown inside
  exact Trace.plants_idle (fun _ _ => not_opened_nil) forest
    fun v m' ran => ends m v m' forest grown inside ran

theorem plants_behind {action : Action} {traced : Traced}
    (noCall : ∀ function args, action ≠ .call function args)
    (rest : PlantsFrom limit scope count traced) :
    PlantsFrom limit scope count (.behind action traced) := by
  intro m forest grown inside v m' ran
  obtain ⟨after, lives, grown⟩ := rest m forest grown inside v m' ran
  refine ⟨after, lives, grown.congr fun id parent => ?_⟩
  refine opened_cons.trans (or_iff_right ?_)
  rintro ⟨function, args, same, _⟩
  exact noCall function args same

theorem plants_andThen {first : Traced} {next : Value → Traced}
    (begins : PlantsFrom limit scope count first)
    (goesOn : ∀ later v, count ≤ later → v.LivesIn later → PlantsFrom limit scope later (next v)) :
    PlantsFrom limit scope count (first.andThen next) := by
  intro m forest grown inside
  have begun := begins m forest grown inside
  cases ran : (first m).result with
  | none =>
      rw [Traced.andThen_none ran]
      exact begun
  | some result =>
      obtain ⟨v, mid⟩ := result
      cases kind : v.isSignal with
      | true =>
          rw [Traced.andThen_signal ran kind]
          exact begun
      | false =>
          rw [Traced.andThen_plain ran kind]
          obtain ⟨forestMid, livesMid, grownMid⟩ := begun v mid ran
          have rest := goesOn mid.scopes.size v (Nat.le_trans grown grownMid.size) livesMid mid
            forestMid (Nat.le_refl _) (Nat.lt_of_lt_of_le inside grownMid.size)
          intro w m' ranRest
          obtain ⟨forestLast, livesLast, grownLast⟩ := rest w m' ranRest
          exact ⟨forestLast, livesLast, (grownMid.trans grownLast).congr fun _ _ => opened_append⟩

theorem plants_map {f : Value × Machine → Value × Machine} {traced : Traced}
    (value : ∀ result, (f result).1 = result.1.unwrapReturn)
    (scopes : ∀ result, (f result).2.scopes = result.2.scopes)
    (body : (traced m).Plants limit m) : (traced.map f m).Plants limit m := by
  intro v m' ran
  obtain ⟨result, begun, same⟩ := Option.map_eq_some_iff.mp ran
  obtain ⟨forest, lives, grown⟩ := body result.1 result.2 begun
  obtain rfl : (f result).1 = v := congrArg Prod.fst same
  obtain rfl : (f result).2 = m' := congrArg Prod.snd same
  have idle : result.2.Grown (fun _ _ => False) (f result).2 :=
    .of_scopes (scopes result) fun _ _ never => never
  refine ⟨forest.of_scopes (scopes result), ?_, (grown.trans idle).congr fun _ _ => ?_⟩
  · rw [value, scopes]
    exact lives.unwrapReturn
  · exact (iff_of_eq (or_false _)).symm

theorem plants_operator {result : Except Failure Value} {e : Expr} {span : Span}
    (explained : Explained e result) :
    PlantsFrom limit scope count (.quiet (Run.operator result span)) := by
  refine plants_quiet ?_
  intro m v m' _ _ _ ran
  cases result with
  | ok w =>
      cases ran
      exact ⟨rfl, Value.lives_scalar explained.1 explained.2⟩
  | error failure =>
      cases ran
      exact ⟨rfl, trivial⟩

theorem plants_ident (call : Call) (name : String) (span : Span) :
    PlantsFrom limit scope count (.quiet ((runSteps call scope).ident name span)) := by
  refine plants_quiet ?_
  intro m v m' forest _ _ ran
  rw [runSteps_ident] at ran
  cases found : m.lookup scope name with
  | some w =>
      rw [found] at ran
      cases ran
      exact ⟨rfl, forest.values.lookup found⟩
  | none =>
      rw [found] at ran
      cases ran
      exact ⟨rfl, trivial⟩

theorem plants_bind {v : Value} (name : String) (lives : v.LivesIn count) (call : Call) :
    PlantsFrom limit scope count (.quiet ((runSteps call scope).bind name v)) := by
  intro m forest grown _
  refine Trace.plants_unopened (fun _ _ => not_opened_nil) ?_
  rintro _ _ ⟨⟩
  exact ⟨forest.bind scope name (lives.mono grown), trivial, m.size_bind scope name v,
    m.parent?_bind scope name v⟩

def PlantsCalls (limit : Option Nat) (call : TracedCall) : Prop :=
  ∀ {m : Machine} {function : Value} {args : List Value} (span : Span), m.Forest →
    function.LivesIn m.scopes.size → (∀ v ∈ args, v.LivesIn m.scopes.size) →
    (Traced.behind (.call function args) (call function args span) m).Plants limit m

theorem parallel_plants {call : TracedCall} (calls : PlantsCalls limit call) (scope : ScopeId) :
    Steps.Parallel id (fun count v v' => v = v' ∧ v.LivesIn count)
      (fun count traced _ => PlantsFrom limit scope count traced) (traceSteps call scope)
      (traceSteps call scope) where
  grows later alike := ⟨alike.1, alike.2.mono later⟩
  scalar plain noFunction := ⟨rfl, Value.lives_scalar plain noFunction⟩
  truth alike := alike.1 ▸ rfl
  value := by
    rintro count v _ ⟨rfl, lives⟩
    refine plants_quiet ?_
    rintro m _ _ _ grown _ ⟨⟩
    exact ⟨rfl, lives.mono grown⟩
  andThen begins goesOn :=
    plants_andThen begins fun later v grown lives => goesOn later v v grown ⟨rfl, lives⟩
  ident name _ := plants_ident _ name _
  unary op _ _ := plants_behind nofun (plants_operator (explained_unary .zero op (.int .zero 0) _))
  binary op _ _ _ := plants_behind nofun
    (plants_operator (explained_binary .zero op (.int .zero 0) (.int .zero 0) _ _))
  closure _ := by
    refine plants_quiet ?_
    rintro m _ _ _ _ inside ⟨⟩
    exact ⟨rfl, inside⟩
  call := by
    rintro count span _ function _ args args' _ ⟨_, lives⟩ alike m forest grown _
    refine calls span forest (lives.mono grown) fun v member => ?_
    obtain ⟨i, bound, rfl⟩ := List.getElem_of_mem member
    exact ((List.forall₂_iff_get.mp alike).2 i bound (alike.length_eq ▸ bound)).2.mono grown
  bind name alike := plants_behind nofun (plants_bind name alike.2 _)
  ret alike := by
    refine plants_quiet ?_
    rintro m _ _ _ grown _ ⟨⟩
    exact ⟨rfl, alike.2.mono grown⟩
  settle body m forest grown inside :=
    plants_map (fun _ => rfl) (fun _ => rfl) (body m forest grown inside)

end Steps

theorem plants_enter {limit : Option Nat} {budget : Nat} {cell : CellId} {literal : FunctionLiteral}
    {captured : ScopeId} {args : List Value} {m : Machine} (span : Span) (forest : m.Forest)
    (count : literal.params.length = args.length) (below : ∀ most ∈ limit, m.depth < most)
    (inside : captured < m.scopes.size) (lives : ∀ v ∈ args, v.LivesIn m.scopes.size)
    (calls : PlantsCalls limit (traceWithin limit budget)) :
    (Traced.behind (.call (.closure cell literal captured) args)
      (traceWithin limit (budget + 1) (.closure cell literal captured) args span) m).Plants
        limit m := by
  let entered := m.enter captured (literal.params.zip args)
  have size : entered.scopes.size = m.scopes.size + 1 := m.size_enter captured _
  have body : (literal.body.walk (traceSteps (traceWithin limit budget) m.scopes.size)
      entered).Plants limit entered :=
    literal.body.walk_parallel (parallel_plants calls m.scopes.size) rfl 0 entered
      (forest.enter inside lives) (Nat.zero_le _) (size ▸ Nat.lt_succ_self _)
  have left := plants_map (f := leaveCall) (fun _ => rfl) (fun _ => rfl) body
  have enters : Enters limit m args (.closure cell literal captured) :=
    ⟨cell, literal, captured, rfl, count, below⟩
  intro v m' ran
  simp only [Traced.behind, traceWithin_enter count below] at ran ⊢
  obtain ⟨forestLast, livesLast, grown⟩ := left v m' ran
  refine ⟨forestLast, livesLast, ((Machine.Grown.one size (m.parent?_enter captured _)).trans
    grown).congr fun scope parent => ?_⟩
  rw [opened_cons, opens_call, and_iff_right enters]
  rfl

theorem plantsCalls_traceWithin (limit : Option Nat) (budget : Nat) :
    PlantsCalls limit (traceWithin limit budget) := by
  induction budget using Nat.strongRecOn with
  | ind budget ih =>
      intro m function args span forest lives livesAll
      by_cases enters : Enters limit m args function
      · obtain ⟨cell, literal, captured, rfl, count, below⟩ := enters
        cases budget with
        | zero =>
            refine Trace.plants_none ?_
            simp only [Traced.behind, traceWithin_zero, Traced.quiet]
            exact applyWithin_spent count below
        | succ budget =>
            exact plants_enter span forest count below lives livesAll
              (ih budget (Nat.lt_succ_self _))
      · have unopened : ∀ scope parent,
            ¬ Opened limit [⟨m, .call function args⟩] scope parent := by
          intro scope parent opened
          rcases opened_cons.mp opened with opens | later
          · exact enters (opens_call.mp opens).1
          · exact not_opened_nil later
        simp only [Traced.behind, traceWithin_refused enters, Traced.quiet]
        refine Trace.plants_idle unopened forest ?_
        intro v m' ran
        rcases applyWithin_refuses_or_enters limit budget function args span m with
          ⟨cause, _, refused⟩ | starts
        · rw [refused] at ran
          cases ran
          exact ⟨rfl, trivial⟩
        · exact absurd starts enters

namespace Operation

/-- The moments of an operation and what it ends with. An application begins with a call. -/
def story (op : Operation) : Traced :=
  match op with
  | .evaluate limit node scope => node.trace limit (callBudget limit) scope
  | .apply limit function args span =>
      .behind (.call function args) (traceWithin limit (callBudget limit) function args span)

/-- The scopes that the operation names, or its values captured, exist. -/
def Known (m : Machine) : Operation → Prop
  | .evaluate _ _ scope => scope < m.scopes.size
  | .apply _ function args _ =>
      function.LivesIn m.scopes.size ∧ ∀ v ∈ args, v.LivesIn m.scopes.size

instance (m : Machine) : (op : Operation) → Decidable (op.Known m)
  | .evaluate _ _ scope => inferInstanceAs (Decidable (scope < m.scopes.size))
  | .apply _ function args _ => inferInstanceAs
      (Decidable (function.LivesIn m.scopes.size ∧ ∀ v ∈ args, v.LivesIn m.scopes.size))

variable {op : Operation} {m : Machine}

theorem plants_story (forest : m.Forest) (known : op.Known m) : (op.story m).Plants op.limit m := by
  cases op with
  | evaluate limit node scope =>
      have calls : PlantsCalls limit (traceWithin limit (callBudget limit)) :=
        plantsCalls_traceWithin limit _
      exact node.walk_parallel (parallel_plants calls scope) rfl 0 m forest (Nat.zero_le _) known
  | apply limit function args span =>
      exact plantsCalls_traceWithin limit (callBudget limit) span forest known.1 known.2

theorem erase_story (op : Operation) : op.story.erase = op.run (callBudget op.limit) := by
  cases op with
  | evaluate limit node scope => exact node.erase_trace limit _ scope
  | apply limit function args span =>
      exact congrFun (congrFun (congrFun (erase_traceWithin limit _) function) args) span

theorem perform_eq_finish (op : Operation) (m : Machine) :
    op.perform m = m.finish op.limit op.story.erase := by
  rw [erase_story]
  cases op <;> rfl

theorem perform_of_ended {result : Value × Machine} (ended : (op.story m).result = some result) :
    op.perform m = result := by
  have ran : op.story.erase m = some result := ended
  rw [perform_eq_finish, Machine.finish, ran]

/-- Under a limit on the depth of calls an operation ends. -/
theorem ends_under_limit (forest : m.Forest) (known : op.Known m) {limit : Nat}
    (limited : op.limit = some limit) : (op.story m).result = some (op.perform m) := by
  have calls : SettlesCalls (some limit) m.depth
      (applyWithin (some limit) (callBudget (some limit))) :=
    settlesCalls_applyWithin (Nat.le_add_left _ _)
  have ended : ∃ result, op.run (callBudget op.limit) m = some result := by
    cases op with
    | evaluate _ node scope =>
        cases limited
        obtain ⟨result, ran, _⟩ := node.settles calls ⟨forest.sound, known, rfl⟩
        exact ⟨result, ran⟩
    | apply _ function args span =>
        cases limited
        obtain ⟨result, ran, _⟩ := calls span forest.sound rfl known.1 known.2
        exact ⟨result, ran⟩
  obtain ⟨result, ran⟩ := ended
  rw [← erase_story] at ran
  rw [perform_of_ended ran]
  exact ran

end Operation

/-- What can be asked of a machine: to create a scope, to hand out a scope again or its parent, to
    bind a value, and to evaluate or apply. -/
inductive Machine.Request where
  | newScope (parent : Option ScopeId)
  | enclosed (scope : ScopeId)
  | copy (scope : ScopeId)
  | parent (scope : ScopeId)
  | bind (scope : ScopeId) (name : String) (value : Value)
  | perform (op : Operation)

inductive Machine.Reply where
  | scope (id : Option ScopeId)
  | value (v : Value)
  | done

/-- The scope that is handed out, or the functions within the value, are of the first `count`
    scopes. -/
def Machine.Reply.LivesIn (count : Nat) : Machine.Reply → Prop
  | .scope id => ∀ scope ∈ id, scope < count
  | .value v => v.LivesIn count
  | .done => True

namespace Machine.Request

def answer (m : Machine) : Request → Reply × Machine
  | .newScope above =>
      let (id, m) := m.newScope above
      (.scope (some id), m)
  | .enclosed scope =>
      let (id, m) := m.newScope (some scope)
      (.scope (some id), m)
  | .copy scope => (.scope (some scope), m)
  | .parent scope => (.scope (m.parent? scope), m)
  | .bind scope name value => (.done, m.bind scope name value)
  | .perform op =>
      let (v, m) := op.perform m
      (.value v, m)

def Known (m : Machine) : Request → Prop
  | .newScope above => ∀ scope ∈ above, scope < m.scopes.size
  | .enclosed scope | .copy scope | .parent scope => scope < m.scopes.size
  | .bind scope _ value => scope < m.scopes.size ∧ value.LivesIn m.scopes.size
  | .perform op => op.Known m

instance (m : Machine) : (request : Request) → Decidable (request.Known m)
  | .newScope above => inferInstanceAs (Decidable (∀ scope ∈ above, scope < m.scopes.size))
  | .enclosed scope | .copy scope | .parent scope =>
      inferInstanceAs (Decidable (scope < m.scopes.size))
  | .bind scope _ value =>
      inferInstanceAs (Decidable (scope < m.scopes.size ∧ value.LivesIn m.scopes.size))
  | .perform op => inferInstanceAs (Decidable (op.Known m))

/-- The request creates this scope below this parent. An operation creates one scope for each call
    that starts, below the scope that the callee captured. If it is cut off, it leaves none
    behind. -/
inductive Creates (m : Machine) : Request → ScopeId → Option ScopeId → Prop where
  | newScope : Creates m (.newScope above) m.scopes.size above
  | enclosed : Creates m (.enclosed scope) m.scopes.size (some scope)
  | called (ended : (op.story m).result = some result)
      (opened : Opened op.limit (op.story m).moments scope above) :
      Creates m (.perform op) scope above

/-- What the request does to the scopes, and what it hands out. -/
structure Orderly (request : Request) (m : Machine) : Prop where
  grown : m.Grown (request.Creates m) (request.answer m).2
  reply : (request.answer m).1.LivesIn (request.answer m).2.scopes.size
  /-- An operation under a limit is never cut off. -/
  ends : ∀ op limit, request = .perform op → op.limit = some limit →
    (op.story m).result = some (op.perform m)

variable {m : Machine} {op : Operation}

theorem orderly_newScope {above : Option ScopeId} (forest : m.Forest)
    (known : ∀ scope ∈ above, scope < m.scopes.size) :
    (m.newScope above).2.Forest ∧
      m.Grown (fun scope parent => scope = m.scopes.size ∧ parent = above) (m.newScope above).2 ∧
      Reply.LivesIn (m.newScope above).2.scopes.size (.scope (some (m.newScope above).1)) := by
  refine ⟨forest.newScope known, .one (m.size_newScope above) (m.parent?_newScope above), ?_⟩
  rintro scope ⟨⟩
  rw [Machine.size_newScope]
  exact Nat.lt_succ_self _

theorem orderly_perform (forest : m.Forest) (known : op.Known m) :
    (op.perform m).2.Forest ∧ (Request.perform op).Orderly m := by
  have ends : ∀ op' limit, Request.perform op = .perform op' → op'.limit = some limit →
      (op'.story m).result = some (op'.perform m) := by
    rintro op' limit ⟨⟩ limited
    exact op.ends_under_limit forest known limited
  cases ended : (op.story m).result with
  | some result =>
      have performed := Operation.perform_of_ended ended
      obtain ⟨after, lives, grown⟩ := op.plants_story forest known result.1 result.2 ended
      rw [← performed] at after lives grown
      refine ⟨after, grown.congr fun scope above => ?_, lives, ends⟩
      constructor
      · rintro ⟨⟩
        assumption
      · exact .called ended
  | none =>
      have spent : op.story.erase m = none := ended
      have performed : op.perform m = (.error m.nextCell
          { cause := .callDepthExceeded (callBudget op.limit) }, m.newCell.2) := by
        rw [Operation.perform_eq_finish, Machine.finish, spent]
        rfl
      have same : (op.perform m).2.scopes = m.scopes :=
        congrArg (fun result => result.2.scopes) performed
      refine ⟨forest.of_scopes same, .of_scopes same ?_, ?_, ends⟩
      · rintro scope above (_ | _ | ran)
        cases ended.symm.trans ran
      · change (op.perform m).1.LivesIn _
        rw [performed]
        trivial

theorem orderly {request : Request} (forest : m.Forest) (known : request.Known m) :
    (request.answer m).2.Forest ∧ request.Orderly m := by
  have idle : ∀ {request : Request}, (∀ scope above, ¬ request.Creates m scope above) →
      m.Grown (request.Creates m) m := Machine.Grown.of_scopes rfl
  cases request with
  | newScope above =>
      obtain ⟨after, grown, reply⟩ := orderly_newScope forest known
      refine ⟨after, grown.congr fun scope parent => ?_, reply, nofun⟩
      constructor
      · rintro ⟨⟩
        exact ⟨rfl, rfl⟩
      · rintro ⟨rfl, rfl⟩
        exact .newScope
  | enclosed outer =>
      have inside : ∀ scope ∈ some outer, scope < m.scopes.size := by
        rintro scope ⟨⟩
        exact known
      obtain ⟨after, grown, reply⟩ := orderly_newScope forest inside
      refine ⟨after, grown.congr fun scope parent => ?_, reply, nofun⟩
      constructor
      · rintro ⟨⟩
        exact ⟨rfl, rfl⟩
      · rintro ⟨rfl, rfl⟩
        exact .enclosed
  | copy scope =>
      refine ⟨forest, idle nofun, ?_, nofun⟩
      rintro _ ⟨⟩
      exact known
  | parent scope =>
      refine ⟨forest, idle nofun, ?_, nofun⟩
      intro above found
      exact forest.sound.closed.parents found
  | bind scope name value =>
      refine ⟨forest.bind scope name known.2, ?_, trivial, nofun⟩
      exact .of_parents (m.size_bind scope name value) (m.parent?_bind scope name value) nofun
  | perform op => exact orderly_perform forest known

end Machine.Request

namespace Machine

def serve (m : Machine) (requests : List Request) : Machine :=
  requests.foldl (fun m request => (request.answer m).2) m

/-- Each of the requests names only what exists when it is made. -/
def Knows (m : Machine) : List Request → Prop
  | [] => True
  | request :: rest => request.Known m ∧ (request.answer m).2.Knows rest

instance decidableKnows : (m : Machine) → (requests : List Request) → Decidable (m.Knows requests)
  | _, [] => isTrue trivial
  | m, request :: rest =>
      have := decidableKnows (request.answer m).2 rest
      inferInstanceAs (Decidable (request.Known m ∧ (request.answer m).2.Knows rest))

variable {m : Machine}

theorem serve_append (m : Machine) (requests more : List Request) :
    m.serve (requests ++ more) = (m.serve requests).serve more :=
  List.foldl_append

theorem knows_append {requests more : List Request} (knows : m.Knows (requests ++ more)) :
    m.Knows requests ∧ (m.serve requests).Knows more := by
  induction requests generalizing m with
  | nil => exact ⟨trivial, knows⟩
  | cons request rest ih =>
      obtain ⟨known, after⟩ := ih knows.2
      exact ⟨⟨knows.1, known⟩, after⟩

theorem Forest.serve {requests : List Request} (forest : m.Forest) (knows : m.Knows requests) :
    (m.serve requests).Forest := by
  induction requests generalizing m with
  | nil => exact forest
  | cons request rest ih => exact ih (Request.orderly forest knows.1).1 knows.2

theorem Forest.parent?_serve {requests : List Request} (forest : m.Forest)
    (knows : m.Knows requests) {scope : ScopeId} (inside : scope < m.scopes.size) :
    (m.serve requests).parent? scope = m.parent? scope := by
  induction requests generalizing m with
  | nil => rfl
  | cons request rest ih =>
      obtain ⟨after, orderly⟩ := Request.orderly forest knows.1
      have still : scope < (request.answer m).2.scopes.size :=
        Nat.lt_of_lt_of_le inside orderly.grown.size
      exact (ih after knows.2 still).trans (orderly.grown.kept scope inside)

end Machine

/-- Scopes always form a forest. Behind any requests, each of which names what exists by then, every
    scope is younger than its parent and every function that is bound captured a scope that exists;
    so above every scope there is a finite line of ancestors, and the search for any name ends. Each
    request keeps the parents of all scopes and creates its own behind them, a call below the scope
    that the callee captured, and what it hands out exists. No later request changes a parent. -/
theorem scopes_form_forest (requests : List Machine.Request) (knows : Machine.Knows {} requests) :
    let m := Machine.serve {} requests
    m.Forest ∧
      (∀ scope < m.scopes.size, (∃ ancestors, m.Lineage scope ancestors) ∧
        ∀ name, m.Finds name scope (m.lookup scope name)) ∧
      ∀ earlier request later, requests = earlier ++ request :: later →
        let before := Machine.serve {} earlier
        let after := (request.answer before).2
        request.Orderly before ∧
          ∀ scope < after.scopes.size, m.parent? scope = after.parent? scope := by
  have forest := Machine.Forest.empty.serve knows
  refine ⟨forest, ?_, ?_⟩
  · intro scope inside
    exact ⟨forest.lineage scope, forest.sound.lookup inside⟩
  · rintro earlier request later rfl before after
    obtain ⟨knowsEarlier, known, knowsLater⟩ := Machine.knows_append knows
    obtain ⟨forestAfter, orderly⟩ :=
      Machine.Request.orderly (Machine.Forest.empty.serve knowsEarlier) known
    refine ⟨orderly, ?_⟩
    intro scope inside
    rw [Machine.serve_append]
    exact forestAfter.parent?_serve knowsLater inside

/-- A function is created in scope 1, handed to scope 2, called from there and applied from outside.
    Both calls run in scopes below scope 1. -/
theorem scopes_form_forest_handed_on :
    let literal : FunctionLiteral := ⟨["x"], .mk .zero [.expr .zero
      (.fn .zero .zero [] (.mk .zero [.expr .zero (.ident .zero "x")]))], .zero⟩
    let f : Value := .closure 0 literal 1
    let requests : List Machine.Request := [.newScope none, .enclosed 0, .enclosed 0, .copy 1,
      .perform (.evaluate (some 5)
        (.expression (.fn .zero literal.span literal.params literal.body)) 1),
      .bind 2 "g" f,
      .perform (.evaluate (some 5)
        (.statement (.bind .zero "h" (.call .zero (.ident .zero "g") [.int .zero 1]))) 2),
      .perform (.apply (some 5) f [f] .zero), .parent 4]
    let m := Machine.serve {} requests
    Machine.Knows {} requests ∧ m.Forest ∧
      (∀ scope < m.scopes.size, (∃ ancestors, m.Lineage scope ancestors) ∧
        ∀ name, m.Finds name scope (m.lookup scope name)) ∧
      m.scopes.size = 5 ∧ m.parent? 3 = some 1 ∧ m.parent? 4 = some 1 := by
  intro literal f requests m
  have knows : Machine.Knows {} requests := by decide +kernel
  obtain ⟨forest, finite, _⟩ := scopes_form_forest requests knows
  exact ⟨knows, forest, finite, by decide +kernel, by decide +kernel, by decide +kernel⟩

end TreeWalk
