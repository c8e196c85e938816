import TreeWalk.Proofs.Blame
import TreeWalk.Proofs.Correspondence
import TreeWalk.Proofs.Visibility

/-! # Names that are never mentioned

Evaluation searches for the identifiers of the code that runs, and binds its parameters and `let`
names. The code that runs is that of the node and of the functions that can be reached, and new
functions are made from literals of that code. So a name that occurs in none of it is never searched
for and never bound: it makes no difference whether some scope binds it.

Two runs are compared here, from machines that differ in one binding of such a name. They create the
same scopes and the same cells, so their results are equal, and the machines behind them differ in
that binding alone.
-/

namespace TreeWalk

/-- The name is read or bound by the node itself, not by a node below it. -/
def Node.Names (name : String) : Node → Prop
  | .expression (.ident _ found) => found = name
  | .expression (.fn _ _ params _) => name ∈ params
  | .statement (.bind _ found _) => found = name
  | _ => False

/-- The name occurs nowhere in the node, also not in the bodies of its functions. -/
def Node.Omits (name : String) (node : Node) : Prop := node.Everywhere fun part => ¬ part.Names name

/-- The name is no parameter of the function and occurs nowhere in its body. -/
def FunctionLiteral.Omits (name : String) (literal : FunctionLiteral) : Prop :=
  name ∉ literal.params ∧ (Node.block literal.body).Omits name

/-- The name does not occur in the literal of a function that the value is or hands on. -/
def Value.Omits (name : String) : Value → Prop
  | .closure _ literal _ => literal.Omits name
  | .returned _ value => value.Omits name
  | _ => True

section Omits

variable {name : String}

theorem Node.Omits.throughout {node : Node} (omits : node.Omits name) :
    Throughout (Node.Omits name) node :=
  fun _ partOf inner within => omits inner (within.trans partOf.within)

theorem Node.Omits.literal {span literalSpan : Span} {params : List String} {body : Block}
    (omits : (Node.expression (.fn span literalSpan params body)).Omits name) :
    FunctionLiteral.Omits name ⟨params, body, literalSpan⟩ :=
  ⟨omits.self, omits.child List.mem_cons_self⟩

theorem Value.omits_scalar {v : Value} (plain : v.isSignal = false)
    (noFunction : v.type ≠ .function) : v.Omits name := by
  cases v with
  | closure => exact absurd rfl noFunction
  | error | returned => cases plain
  | _ => trivial

theorem Value.Omits.unwrapReturn {v : Value} (omits : v.Omits name) :
    v.unwrapReturn.Omits name := by
  cases v <;> exact omits

end Omits

namespace Machine

/-- The second machine is the first one with one binding more: a name, in a scope that does not bind
    it in the first machine. -/
structure Extra (m : Machine) (scope : ScopeId) (name : String) (value : Value) (m' : Machine) :
    Prop where
  size : m'.scopes.size = m.scopes.size
  nextCell : m'.nextCell = m.nextCell
  depth : m'.depth = m.depth
  parents : m'.parent? = m.parent?
  unbound : m.bound? scope name = none
  bound : ∀ other key, m'.bound? other key =
    if other = scope ∧ key = name then some value else m.bound? other key

variable {m m' : Machine} {scope : ScopeId} {name : String} {value : Value}

theorem bind_of_outside {other : ScopeId} (outside : m.scopes.size ≤ other) (key : String)
    (v : Value) : m.bind other key v = m := by
  have same : m.scopes.modify other
      (fun s => { s with bindings := Bindings.insert key v s.bindings }) = m.scopes := by
    refine Array.ext_getElem? fun id => ?_
    rw [Array.getElem?_modify]
    split
    case isTrue here =>
      subst here
      rw [Array.getElem?_eq_none outside, Option.map_none]
    case isFalse => rfl
  rw [bind, same]

theorem extra_bind (inside : scope < m.scopes.size) (unbound : m.bound? scope name = none) :
    m.Extra scope name value (m.bind scope name value) where
  size := m.size_bind scope name value
  nextCell := rfl
  depth := rfl
  parents := m.parent?_bind scope name value
  unbound := unbound
  bound := bound?_bind inside name value

namespace Extra

/-- A search for another name comes to the same scopes. -/
theorem lookup (extra : m.Extra scope name value m') {other : String} (differs : other ≠ name)
    (env : ScopeId) : m'.lookup env other = m.lookup env other := by
  have own (env : ScopeId) : m'.bound? env other = m.bound? env other := by
    rw [extra.bound, if_neg fun both => differs both.2]
  rw [Machine.lookup, Machine.lookup, extra.size]
  induction m.scopes.size generalizing env with
  | zero => exact own env
  | succ steps ih =>
      rw [lookupWithin_succ, lookupWithin_succ, own, extra.parents]
      cases m.parent? env with
      | none => rfl
      | some parent => rw [Option.bind_some, Option.bind_some, ih parent]

theorem newCell (extra : m.Extra scope name value m') :
    m.newCell.2.Extra scope name value m'.newCell.2 :=
  { extra with nextCell := congrArg (· + 1) extra.nextCell }

theorem leave (extra : m.Extra scope name value m') : m.leave.Extra scope name value m'.leave :=
  { extra with depth := congrArg (· - 1) extra.depth }

theorem newScope (extra : m.Extra scope name value m') (parent : Option ScopeId) :
    (m.newScope parent).2.Extra scope name value (m'.newScope parent).2 where
  size := by rw [size_newScope, size_newScope, extra.size]
  nextCell := extra.nextCell
  depth := extra.depth
  parents := by
    funext other
    rw [parent?_newScope, parent?_newScope, extra.size, extra.parents]
  unbound := by rw [bound?_newScope, extra.unbound]
  bound other key := by rw [bound?_newScope, bound?_newScope, extra.bound]

theorem bind (extra : m.Extra scope name value m') {key : String} (differs : key ≠ name)
    (other : ScopeId) (v : Value) :
    (m.bind other key v).Extra scope name value (m'.bind other key v) := by
  by_cases inside : other < m.scopes.size
  · have inside' : other < m'.scopes.size := extra.size ▸ inside
    exact {
      size := by rw [size_bind, size_bind, extra.size]
      nextCell := extra.nextCell
      depth := extra.depth
      parents := by rw [parent?_bind, parent?_bind, extra.parents]
      unbound := by
        rw [bound?_bind inside, if_neg fun both => differs both.2.symm, extra.unbound]
      bound := fun env found => by
        rw [bound?_bind inside, bound?_bind inside', extra.bound]
        by_cases new : env = other ∧ found = key
        · rw [if_pos new, if_pos new, if_neg]
          rintro ⟨-, same⟩
          exact differs (new.2.symm.trans same)
        · rw [if_neg new, if_neg new] }
  · have outside : m.scopes.size ≤ other := Nat.le_of_not_lt inside
    rwa [bind_of_outside outside, bind_of_outside (extra.size ▸ outside)]

theorem bindAll (extra : m.Extra scope name value m') (other : ScopeId)
    {arguments : List (String × Value)} (free : name ∉ arguments.map Prod.fst) :
    (m.bindAll other arguments).Extra scope name value (m'.bindAll other arguments) := by
  induction arguments generalizing m m' with
  | nil => exact extra
  | cons binding rest ih =>
      have differs : name ≠ binding.1 := List.ne_of_not_mem_cons free
      exact ih (extra.bind differs.symm other binding.2) (List.not_mem_of_not_mem_cons free)

theorem enter (extra : m.Extra scope name value m') (captured : ScopeId)
    {arguments : List (String × Value)} (free : name ∉ arguments.map Prod.fst) :
    (m.enter captured arguments).Extra scope name value (m'.enter captured arguments) := by
  have entered := (extra.newScope (some captured)).bindAll m.scopes.size free
  rw [Machine.enter, Machine.enter, extra.size]
  exact { entered with depth := congrArg (· + 1) entered.depth }

end Extra

end Machine

section Neutral

variable {scope : ScopeId} {name : String} {value : Value}

/-- The same result, from machines that differ in the one binding alone. -/
structure SameBut (scope : ScopeId) (name : String) (value : Value)
    (result result' : Value × Machine) : Prop where
  same : result'.1 = result.1
  omits : result.1.Omits name
  machines : result.2.Extra scope name value result'.2
  binds : result.2.Binds (Value.Omits name)

def Neutral (scope : ScopeId) (name : String) (value : Value) (run : Run Value) : Prop :=
  ∀ m m' : Machine, m.Extra scope name value m' → m.Binds (Value.Omits name) →
    Option.Rel (SameBut scope name value) (run m) (run m')

theorem neutral_value {v : Value} (omits : v.Omits name) : Neutral scope name value (pure v) :=
  fun _ _ extra binds => .some ⟨rfl, omits, extra, binds⟩

/-- A computation that only creates a value takes the same cell for it. -/
theorem neutral_created {run : Run Value} (created : CellId → Value)
    (runs : ∀ m, run m = some (created m.nextCell, m.newCell.2))
    (omits : ∀ cell, (created cell).Omits name) : Neutral scope name value run := by
  intro m m' extra binds
  rw [runs, runs]
  refine .some ⟨?_, omits _, extra.newCell, binds.of_scopes rfl⟩
  rw [extra.nextCell]

theorem neutral_fail (failure : Failure) (span : Span) :
    Neutral scope name value (Run.fail failure span) :=
  neutral_created (fun cell => .error cell (failure.withSpan span)) (fun _ => rfl)
    fun _ => trivial

theorem neutral_operator {result : Except Failure Value} {e : Expr}
    (explained : Explained e result) (span : Span) :
    Neutral scope name value (Run.operator result span) := by
  cases result with
  | ok v => exact neutral_value (Value.omits_scalar explained.1 explained.2)
  | error failure => exact neutral_fail failure span

theorem neutral_ident (call : Call) (env : ScopeId) {found : String} (differs : found ≠ name)
    (span : Span) : Neutral scope name value ((runSteps call env).ident found span) := by
  intro m m' extra binds
  rw [runSteps_ident, runSteps_ident, extra.lookup differs]
  cases bound : m.lookup env found with
  | some v => exact neutral_value (binds.lookup bound) m m' extra binds
  | none => exact neutral_fail _ span m m' extra binds

theorem neutral_andThen {run : Run Value} {next : Value → Run Value}
    (first : Neutral scope name value run)
    (later : ∀ v, v.Omits name → Neutral scope name value (next v)) :
    Neutral scope name value (Run.plainly run next) := by
  intro m m' extra binds
  have begun := first m m' extra binds
  cases ran : run m with
  | none =>
      cases ran' : run m' with
      | none =>
          rw [Run.plainly_none ran, Run.plainly_none ran']
          exact .none
      | some result' =>
          rw [ran, ran'] at begun
          cases begun
  | some result =>
      obtain ⟨v, mid⟩ := result
      cases ran' : run m' with
      | none =>
          rw [ran, ran'] at begun
          cases begun
      | some result' =>
          obtain ⟨v', mid'⟩ := result'
          rw [ran, ran'] at begun
          obtain ⟨⟨rfl, omits, extraMid, bindsMid⟩⟩ := begun
          cases kind : v'.isSignal with
          | true =>
              rw [Run.plainly_signal ran kind, Run.plainly_signal ran' kind]
              exact .some ⟨rfl, omits, extraMid, bindsMid⟩
          | false =>
              rw [Run.plainly_plain ran kind, Run.plainly_plain ran' kind]
              exact later v' omits mid mid' extraMid bindsMid

theorem neutral_settle (call : Call) (env : ScopeId) {run : Run Value}
    (body : Neutral scope name value run) :
    Neutral scope name value ((runSteps call env).settle run) := by
  intro m m' extra binds
  rw [runSteps_settle, runSteps_settle]
  refine Option.Rel.map ?_ (body m m' extra binds)
  rintro result result' ⟨same, omits, machines, bindsLater⟩
  exact ⟨congrArg Value.unwrapReturn same, omits.unwrapReturn, machines, bindsLater⟩

theorem keeps_neutral {call : Call} (env : ScopeId)
    (calls : ∀ {function args span}, function.Omits name → (∀ v ∈ args, v.Omits name) →
      Neutral scope name value (call function args span)) :
    (runSteps call env).Keeps (Neutral scope name value) (Value.Omits name) (Node.Omits name) where
  scalar plain noFunction := Value.omits_scalar plain noFunction
  value omits := neutral_value omits
  andThen first later := neutral_andThen first later
  ident here := neutral_ident call env here.self _
  unary {span op operand v} _ _ := neutral_operator (explained_unary span op operand v) span
  binary {span op left right v w} _ _ _ :=
    neutral_operator (explained_binary span op left right v w) span
  closure {_ literalSpan params body} here :=
    neutral_created (fun cell => .closure cell ⟨params, body, literalSpan⟩ env)
      (fun _ => rfl) fun _ => here.literal
  call _ omitsFunction omitsArgs := calls omitsFunction omitsArgs
  bind here omits := fun _ _ extra binds =>
    .some ⟨rfl, trivial, extra.bind here.self env _, binds.bind env _ omits⟩
  ret {v} omits := neutral_created (fun cell => .returned cell v) (fun _ => rfl)
    fun _ => omits
  settle body := neutral_settle call env body

theorem neutral_call (limit : Option Nat) (budget : Nat) {function : Value} {args : List Value}
    {span : Span} (omitsFunction : function.Omits name) (omitsArgs : ∀ v ∈ args, v.Omits name) :
    Neutral scope name value (applyWithin limit budget function args span) := by
  -- The body runs on a smaller budget, and only functions that omit the name are called in it.
  induction budget using Nat.strongRecOn generalizing function args span with
  | ind budget ih =>
      intro m m' extra binds
      cases attempt limit m args function with
      | noFunction other =>
          rw [applyWithin_noFunction other]
          exact neutral_fail _ span m m' extra binds
      | wrongCount wrong =>
          rw [applyWithin_wrongCount wrong]
          exact neutral_fail _ span m m' extra binds
      | exceeded count chosen reached =>
          cases chosen
          rw [applyWithin_exceeded count reached,
            applyWithin_exceeded count (by rw [extra.depth]; exact reached)]
          exact neutral_fail _ span m m' extra binds
      | @enters _ literal captured count below =>
          have below' : ∀ most ∈ limit, m'.depth < most := by
            rw [extra.depth]
            exact below
          cases budget with
          | zero =>
              rw [applyWithin_spent count below, applyWithin_spent count below']
              exact .none
          | succ budget =>
              obtain ⟨free, omitsBody⟩ := omitsFunction
              have notNamed : name ∉ (literal.params.zip args).map Prod.fst := by
                intro member
                obtain ⟨binding, among, rfl⟩ := List.mem_map.mp member
                exact free (List.of_mem_zip among).1
              have body : Neutral scope name value
                  (literal.body.eval (applyWithin limit budget) m.scopes.size) := by
                rw [Block.eval_eq_walk]
                exact literal.body.walk_keeps
                  (keeps_neutral _ fun omits omitsAll => ih budget (Nat.lt_succ_self _) omits omitsAll)
                  omitsBody.throughout
              rw [applyWithin_enter count below, applyWithin_enter count below', extra.size]
              refine Option.Rel.map ?_
                (body _ _ (extra.enter captured notNamed) (binds.enter captured omitsArgs))
              rintro result result' ⟨same, omits, machines, bindsLater⟩
              exact ⟨congrArg Value.unwrapReturn same, omits.unwrapReturn, machines.leave,
                bindsLater.of_scopes rfl⟩

theorem neutral_eval (limit : Option Nat) (budget : Nat) (env : ScopeId) {node : Node}
    (omits : node.Omits name) :
    Neutral scope name value (node.eval (applyWithin limit budget) env) := by
  rw [Node.eval_eq_walk]
  exact node.walk_keeps (keeps_neutral env (neutral_call limit budget)) omits.throughout

theorem Neutral.finish {run : Run Value} (neutral : Neutral scope name value run) {m m' : Machine}
    (extra : m.Extra scope name value m') (binds : m.Binds (Value.Omits name))
    (limit : Option Nat) :
    SameBut scope name value (m.finish limit run) (m'.finish limit run) := by
  have ended := neutral m m' extra binds
  unfold Machine.finish
  generalize run m = result, run m' = result' at ended
  cases ended with
  | some ends => exact ends
  | none =>
      refine ⟨?_, trivial, extra.newCell, binds.of_scopes rfl⟩
      simp only [Machine.newCell, extra.nextCell]

end Neutral

/-- Names that are never mentioned do not matter. Let a name occur neither in a node nor in the
    functions that the scopes of a machine bind. If a scope does not bind the name, then evaluating
    the node with the name bound there, to any value, has the same result as without, and in the end
    the machines differ in this one binding alone. -/
theorem unmentioned_name_is_neutral {m : Machine} {node : Node} {scope : ScopeId} {name : String}
    (inside : scope < m.scopes.size) (unbound : m.bound? scope name = none)
    (omits : node.Omits name) (binds : m.Binds (Value.Omits name)) (value : Value)
    (limit : Option Nat) (env : ScopeId) :
    ((m.bind scope name value).evaluate limit node env).1 = (m.evaluate limit node env).1 ∧
      (m.evaluate limit node env).2.Extra scope name value
        ((m.bind scope name value).evaluate limit node env).2 := by
  have neutral : Neutral scope name value
      (node.eval (applyWithin limit (callBudget limit)) env) := neutral_eval limit _ env omits
  have ended := neutral.finish (Machine.extra_bind inside unbound) binds limit
  exact ⟨ended.same, ended.machines⟩

/-- The function `fn(a) { let b = a + k; b }` and its argument are found past a binding to a failure,
    which would end the evaluation if it were ever looked up. -/
theorem unmentioned_name_is_neutral_failure :
    let literal : FunctionLiteral := ⟨["a"], .mk .zero [
      .bind .zero "b" (.binary .zero .add (.ident .zero "a") (.ident .zero "k")),
      .expr .zero (.ident .zero "b")], .zero⟩
    let m : Machine := {
      scopes := #[{ bindings := [("f", .closure 0 literal 0), ("k", .int 40)] }]
      nextCell := 1 }
    let node : Node := .expression (.call .zero (.ident .zero "f") [.int .zero 2])
    let failure : Value := .error 0 { cause := .divisionByZero }
    let plain := m.evaluate (some 5) node 0
    let extra := (m.bind 0 "x" failure).evaluate (some 5) node 0
    plain.1.inspect = "42" ∧ extra.1 = plain.1 ∧ plain.2.Extra 0 "x" failure extra.2 ∧
      extra.2.scopes.size = 2 := by
  intro literal m node failure plain extra
  have reads {found : String} (differs : found ≠ "x") :
      (Node.expression (.ident .zero found)).Omits "x" := .of_children differs nofun
  have omits : node.Omits "x" := by
    refine .of_children id (List.forall_mem_cons.mpr ⟨reads (by decide), ?_⟩)
    exact List.forall_mem_singleton.mpr (.of_children id nofun)
  have omitsLiteral : literal.Omits "x" := by
    have sum : (Node.expression
        (.binary .zero .add (.ident .zero "a") (.ident .zero "k"))).Omits "x" := by
      refine .of_children id (List.forall_mem_cons.mpr ⟨reads (by decide), ?_⟩)
      exact List.forall_mem_singleton.mpr (reads (by decide))
    refine ⟨by decide, .of_children id (List.forall_mem_cons.mpr ⟨?_, ?_⟩)⟩
    · exact .of_children (by decide : "b" ≠ "x") (List.forall_mem_singleton.mpr sum)
    · have last : (Node.expression (.ident .zero "b")).Omits "x" := reads (by decide)
      exact List.forall_mem_singleton.mpr (.of_children id (List.forall_mem_singleton.mpr last))
  have binds : m.Binds (Value.Omits "x") := by
    rintro scope s found binding member
    obtain ⟨rfl, rfl⟩ : scope = 0 ∧ m.scopes[0] = s := by
      simpa [m, List.getElem?_singleton, and_comm] using found
    rcases List.mem_cons.mp member with rfl | member
    · exact omitsLiteral
    · obtain rfl := List.mem_singleton.mp member
      trivial
  have inside : 0 < m.scopes.size := Nat.zero_lt_one
  obtain ⟨same, machines⟩ :=
    unmentioned_name_is_neutral inside rfl omits binds failure (some 5) 0
  exact ⟨by decide +kernel, same, machines, by decide +kernel⟩

end TreeWalk
