import TreeWalk.Proofs.Blame
import TreeWalk.Proofs.Derivations

/-! # Evaluation under a limit ends

Under a limit on the depth of calls everything has a derivation, and evaluation has its result. The
body of a called function may be larger than the node that calls it, so the induction is on the
calls that the limit still allows, and within them on the tree. What carries it from one part to the
next is that a part keeps the depth and leaves a closed and acyclic machine behind.
-/

namespace TreeWalk

/-- What a computation that began on the machine leaves behind when it ends with this result. -/
structure Machine.Grows (m : Machine) (result : Value × Machine) : Prop where
  scopes : m.scopes.size ≤ result.2.scopes.size
  depth : result.2.depth = m.depth
  sound : result.2.Sound
  lives : result.1.LivesIn result.2.scopes.size

/-- On this machine the computation ends, with a result that is derived. -/
def Settles (m : Machine) (run : Run Value) (derived : Value × Machine → Prop) : Prop :=
  ∃ result, run m = some result ∧ derived result ∧ m.Grows result

/-- The machine can evaluate in this scope, while `depth` calls are running. -/
structure Machine.Ready (m : Machine) (depth : Nat) (scope : ScopeId) : Prop where
  sound : m.Sound
  inside : scope < m.scopes.size
  depth : m.depth = depth

theorem Machine.Ready.after {m : Machine} {depth : Nat} {scope : ScopeId} {result : Value × Machine}
    (ready : m.Ready depth scope) (grows : m.Grows result) : result.2.Ready depth scope where
  sound := grows.sound
  inside := Nat.lt_of_lt_of_le ready.inside grows.scopes
  depth := grows.depth.trans ready.depth

theorem Value.lives_scalar {count : Nat} {v : Value} (plain : v.isSignal = false)
    (noFunction : v.type ≠ .function) : v.LivesIn count := by
  cases v with
  | closure => exact absurd rfl noFunction
  | error | returned => cases plain
  | _ => trivial

namespace Settles

variable {limit : Option Nat} {m : Machine} {run : Run Value} {derived : Value × Machine → Prop}

theorem imp {weaker : Value × Machine → Prop} (settles : Settles m run derived)
    (weaken : ∀ {result}, derived result → weaker result) : Settles m run weaker := by
  obtain ⟨result, ran, held, grows⟩ := settles
  exact ⟨result, ran, weaken held, grows⟩

theorem value (sound : m.Sound) {v : Value} (ran : run m = some (v, m))
    (lives : v.LivesIn m.scopes.size) (held : derived (v, m)) : Settles m run derived :=
  ⟨(v, m), ran, held, Nat.le_refl _, rfl, sound, lives⟩

theorem created (sound : m.Sound) {v : Value} (ran : run m = some (v, m.newCell.2))
    (lives : v.LivesIn m.scopes.size) (held : derived (v, m.newCell.2)) : Settles m run derived :=
  ⟨(v, m.newCell.2), ran, held, Nat.le_refl _, rfl, sound.of_scopes rfl, lives⟩

theorem fail (sound : m.Sound) {failure : Failure} {span : Span}
    (held : derived (m.raise span failure)) : Settles m (Run.fail failure span) derived :=
  created sound rfl trivial held

theorem operator (sound : m.Sound) {result : Except Failure Value} {e : Expr} {span : Span}
    (explained : Explained e result) (held : derived (m.conclude span result)) :
    Settles m (Run.operator result span) derived := by
  cases result with
  | ok v => exact value sound rfl (Value.lives_scalar explained.1 explained.2) held
  | error failure => exact fail sound held

theorem plainly {task part : Task} {next : Value → Run Value} (leads : task.first? = some part)
    (begins : Settles m run (Evaluates limit part m))
    (goesOn : ∀ {v mid}, Evaluates limit part m (v, mid) → v.isSignal = false → m.Grows (v, mid) →
      Settles mid (next v) (Evaluates limit task m)) :
    Settles m (Run.plainly run next) (Evaluates limit task m) := by
  obtain ⟨⟨v, mid⟩, ran, begun, grows⟩ := begins
  cases kind : v.isSignal with
  | true => exact ⟨(v, mid), Run.plainly_signal ran kind, .stops leads begun kind, grows⟩
  | false =>
      obtain ⟨result, ranNext, held, growsNext⟩ := goesOn begun kind grows
      refine ⟨result, ?_, held, ?_⟩
      · rw [Run.plainly_plain ran kind, ranNext]
      · exact {
          scopes := Nat.le_trans grows.scopes growsNext.scopes
          depth := growsNext.depth.trans grows.depth
          sound := growsNext.sound
          lives := growsNext.lives }

end Settles

def SettlesCalls (limit : Option Nat) (depth : Nat) (call : Call) : Prop :=
  ∀ {m : Machine} {function : Value} {args : List Value} (span : Span), m.Sound → m.depth = depth →
    function.LivesIn m.scopes.size → (∀ v ∈ args, v.LivesIn m.scopes.size) →
    Settles m (call function args span) (Evaluates limit (.call span function args) m)

section Trees

variable {limit : Option Nat} {depth : Nat} {call : Call} {scope : ScopeId} {m : Machine}

theorem settles_ident (ready : m.Ready depth scope) (name : String) (span : Span) :
    Settles m ((runSteps call scope).ident name span)
      (Evaluates limit (.expression scope (.ident span name)) m) := by
  have finds := ready.sound.lookup ready.inside name
  cases found : m.lookup scope name with
  | some v =>
      rw [found] at finds
      have ran : (runSteps call scope).ident name span m = some (v, m) := by
        rw [runSteps_ident, found]
      exact .value ready.sound ran (ready.sound.closed.values.lookup found) (.bound finds)
  | none =>
      rw [found] at finds
      have ran : (runSteps call scope).ident name span m =
          Run.fail { cause := .identifierNotFound name } span m := by
        rw [runSteps_ident, found]
      exact .created ready.sound ran trivial (.unbound finds)

mutual

theorem Expr.settles (calls : SettlesCalls limit depth call) : (e : Expr) → {m : Machine} →
    m.Ready depth scope →
    Settles m (e.walk (runSteps call scope)) (Evaluates limit (.expression scope e) m)
  | .int _ _, _, ready => .value ready.sound rfl trivial .int
  | .bool _ _, _, ready => .value ready.sound rfl trivial .bool
  | .ident span name, _, ready => settles_ident ready name span
  | .unary span op operand, _, ready =>
      .plainly rfl (operand.settles calls ready) fun {v _} begun plain grows =>
        .operator grows.sound (explained_unary span op operand v) (.unary begun plain)
  | .binary span op left right, _, ready =>
      .plainly rfl (left.settles calls ready) fun {v mid} begun plain grows => by
        have rest : Settles mid
            (Run.plainly (right.walk (runSteps call scope)) fun w =>
              Run.operator (op.operate v w) span)
            (Evaluates limit (.operand scope span op v right) mid) :=
          .plainly rfl (right.settles calls (ready.after grows)) fun {w _} begun plain grows =>
            .operator grows.sound (explained_binary span op left right v w) (.operand begun plain)
        exact rest.imp (.binary begun plain)
  | .cond _ condition consequence none, _, ready =>
      .plainly rfl (condition.settles calls ready) fun {v _} begun plain grows => by
        cases truth : v.isTruthy with
        | true =>
            exact (consequence.settles calls (ready.after grows)).imp
              (.consequence begun plain truth)
        | false => exact .value grows.sound rfl trivial (.noAlternative begun plain truth)
  | .cond _ condition consequence (some alternative), _, ready =>
      .plainly rfl (condition.settles calls ready) fun {v _} begun plain grows => by
        cases truth : v.isTruthy with
        | true =>
            exact (consequence.settles calls (ready.after grows)).imp
              (.consequence begun plain truth)
        | false =>
            exact (alternative.settles calls (ready.after grows)).imp
              (.alternative begun plain truth)
  | .fn _ _ _ _, _, ready => .created ready.sound rfl ready.inside .function
  | .call span callee args, _, ready =>
      .plainly rfl (callee.settles calls ready) fun {v _} begun plain grows =>
        (Expr.settlesAll calls args [] span (ready.after grows) grows.lives
          (List.forall_mem_nil _)).imp (.callee begun plain)

theorem Expr.settlesAll (calls : SettlesCalls limit depth call) : (es : List Expr) →
    (values : List Value) → (span : Span) → {m : Machine} → {function : Value} →
    m.Ready depth scope → function.LivesIn m.scopes.size →
    (∀ v ∈ values, v.LivesIn m.scopes.size) →
    Settles m (Expr.walkAll (runSteps call scope) es fun more => call function (values ++ more) span)
      (Evaluates limit (.arguments scope span function values es) m)
  | [], values, span, _, _, ready, lives, livesAll => by
      simp only [Expr.walkAll, List.append_nil]
      exact (calls span ready.sound ready.depth lives livesAll).imp .arguments
  | e :: es, values, span, _, _, ready, lives, livesAll =>
      .plainly rfl (e.settles calls ready) fun {v mid} begun plain grows => by
        have livesNow : ∀ w ∈ values ++ [v], w.LivesIn mid.scopes.size := by
          intro w member
          rcases List.mem_append.mp member with old | new
          · exact (livesAll w old).mono grows.scopes
          · cases List.mem_singleton.mp new
            exact grows.lives
        have rest := Expr.settlesAll calls es (values ++ [v]) span (ready.after grows)
          (lives.mono grows.scopes) livesNow
        simp only [List.append_assoc, List.singleton_append] at rest
        exact rest.imp (.argument begun plain)

theorem Stmt.settles (calls : SettlesCalls limit depth call) : (t : Stmt) → {m : Machine} →
    m.Ready depth scope →
    Settles m (t.walk (runSteps call scope)) (Evaluates limit (.statement scope t) m)
  | .expr _ value, _, ready => (value.settles calls ready).imp .statement
  | .bind _ name value, _, ready =>
      .plainly rfl (value.settles calls ready) fun {v mid} begun plain grows =>
        ⟨(.null, mid.bind scope name v), rfl, .bind begun plain, {
          scopes := Nat.le_of_eq (mid.size_bind scope name v).symm
          depth := rfl
          sound := grows.sound.bind scope name grows.lives
          lives := trivial }⟩
  | .ret _ none, _, ready => .created ready.sound rfl trivial .retNull
  | .ret _ (some value), _, ready =>
      .plainly rfl (value.settles calls ready) fun begun plain grows =>
        .created grows.sound rfl grows.lives (.ret begun plain)

theorem Stmt.settlesAll (calls : SettlesCalls limit depth call) : (ts : List Stmt) →
    (last : Value) → {m : Machine} → m.Ready depth scope → last.LivesIn m.scopes.size →
    Settles m (Stmt.walkAll (runSteps call scope) last ts)
      (Evaluates limit (.statements scope last ts) m)
  | [], _, _, ready, lives => .value ready.sound rfl lives .last
  | t :: ts, _, _, ready, _ =>
      .plainly rfl (t.settles calls ready) fun begun plain grows =>
        (Stmt.settlesAll calls ts _ (ready.after grows) grows.lives).imp (.following begun plain)

theorem Block.settles (calls : SettlesCalls limit depth call) : (b : Block) → {m : Machine} →
    m.Ready depth scope →
    Settles m (b.walk (runSteps call scope)) (Evaluates limit (.block scope b) m)
  | .mk _ statements, _, ready => (Stmt.settlesAll calls statements .null ready trivial).imp .block

end

theorem Node.settles (calls : SettlesCalls limit depth call) (node : Node)
    (ready : m.Ready depth scope) :
    Settles m (node.eval call scope) (Evaluates limit (.ofNode scope node) m) := by
  rw [Node.eval_eq_walk]
  cases node with
  | program p =>
      obtain ⟨⟨v, m'⟩, ran, body, grows⟩ := Stmt.settlesAll calls p.statements .null ready trivial
      refine ⟨(v.unwrapReturn, m'), ?_, .program body, ?_⟩
      · rw [Node.walk, runSteps_settle, ran]
        rfl
      · exact { grows with lives := grows.lives.unwrapReturn }
  | block b => exact b.settles calls ready
  | statement t => exact t.settles calls ready
  | expression e => exact e.settles calls ready

end Trees

theorem settles_enter {limit budget depth : Nat} {cell : CellId} {literal : FunctionLiteral}
    {captured : ScopeId} {args : List Value} {m : Machine} (span : Span) (sound : m.Sound)
    (same : m.depth = depth) (count : literal.params.length = args.length)
    (below : ∀ most ∈ some limit, m.depth < most) (inside : captured < m.scopes.size)
    (lives : ∀ v ∈ args, v.LivesIn m.scopes.size)
    (calls : SettlesCalls (some limit) (depth + 1) (applyWithin (some limit) budget)) :
    Settles m (applyWithin (some limit) (budget + 1) (.closure cell literal captured) args span)
      (Evaluates (some limit) (.call span (.closure cell literal captured) args) m) := by
  have ready : (m.enter captured (literal.params.zip args)).Ready (depth + 1) m.scopes.size := {
    sound := sound.enter inside lives
    inside := by
      rw [Machine.size_enter]
      exact Nat.lt_succ_self _
    depth := by rw [Machine.depth_enter, same] }
  obtain ⟨result, ran, body, grows⟩ := literal.body.settles calls ready
  have deeper : m.scopes.size + 1 ≤ result.2.scopes.size := by
    have grown := grows.scopes
    rwa [Machine.size_enter] at grown
  refine ⟨leaveCall result, ?_, .enters count below body, ?_⟩
  · rw [applyWithin_enter count below, Block.eval_eq_walk, ran]
    rfl
  · exact {
      scopes := Nat.le_trans (Nat.le_succ _) deeper
      depth := by
        rw [leaveCall, Machine.leave, grows.depth, Machine.depth_enter, Nat.add_sub_cancel]
      sound := grows.sound.of_scopes rfl
      lives := grows.lives.unwrapReturn }

/-- A budget for all the calls that the limit allows is never spent. -/
theorem settlesCalls_applyWithin {limit budget depth : Nat} (enough : limit ≤ depth + budget) :
    SettlesCalls (some limit) depth (applyWithin (some limit) budget) := by
  induction budget using Nat.strongRecOn generalizing depth with
  | ind budget ih =>
      intro m function args span sound same lives livesAll
      cases attempt (some limit) m args function with
      | noFunction other =>
          rw [applyWithin_noFunction other]
          exact .fail sound (.noFunction other)
      | wrongCount wrong =>
          rw [applyWithin_wrongCount wrong]
          exact .fail sound (.wrongCount wrong)
      | exceeded count chosen reached =>
          cases chosen
          exact .created sound (applyWithin_exceeded count reached) trivial
            (.exceeded count rfl reached)
      | enters count below =>
          -- The limit lets the call in, so there is budget left for it.
          have room : m.depth < limit := below limit rfl
          obtain ⟨less, rfl⟩ : ∃ less, budget = less + 1 := ⟨budget - 1, by omega⟩
          exact settles_enter span sound same count below lives livesAll
            (ih less (Nat.lt_succ_self _) (by omega))

theorem Settles.finish {m : Machine} {run : Run Value} {derived : Value × Machine → Prop}
    (settles : Settles m run derived) (limit : Option Nat) : derived (m.finish limit run) := by
  obtain ⟨result, ran, held, _⟩ := settles
  rw [Machine.finish, ran]
  exact held

/-- Under a limit on the depth of calls every evaluation ends. Whatever functions the scopes and the
    arguments hold and however many calls are running, every node in every scope has a derivation,
    and so has every application; evaluation gives the value that is derived. -/
theorem evaluates_under_limit (limit : Nat) (m : Machine) (closed : m.Closed)
    (acyclic : m.Acyclic) :
    (∀ node scope, scope < m.scopes.size →
      Evaluates (some limit) (.ofNode scope node) m (m.evaluate (some limit) node scope)) ∧
    ∀ function args span, function.LivesIn m.scopes.size →
      (∀ v ∈ args, v.LivesIn m.scopes.size) →
      Evaluates (some limit) (.call span function args) m
        (m.apply (some limit) function args span) := by
  have sound : m.Sound := ⟨closed, acyclic⟩
  have calls : SettlesCalls (some limit) m.depth
      (applyWithin (some limit) (callBudget (some limit))) :=
    settlesCalls_applyWithin (Nat.le_add_left _ _)
  constructor
  · intro node scope inside
    have settles := node.settles calls ⟨sound, inside, rfl⟩
    exact settles.finish (some limit)
  · intro function args span lives livesAll
    have settles := calls span sound rfl lives livesAll
    exact settles.finish (some limit)

/-- The function `fn(g) { g(g) }`, called with itself, calls itself until the limit is reached. -/
theorem evaluates_under_limit_self_call :
    let literal : FunctionLiteral := ⟨["g"], .mk .zero [.expr .zero
      (.call .zero (.ident .zero "g") [.ident .zero "g"])], .zero⟩
    let f : Value := .closure 0 literal 1
    let m : Machine := {
      scopes := #[{ bindings := [("f", f)] }, { parent := some 0 }], nextCell := 1, depth := 2 }
    let node : Node := .program
      ⟨[.expr .zero (.call .zero (.ident .zero "f") [.ident .zero "f"])]⟩
    m.Closed ∧ m.Acyclic ∧
      Evaluates (some 9) (.ofNode 1 node) m (m.evaluate (some 9) node 1) ∧
      Evaluates (some 9) (.call .zero f [f]) m (m.apply (some 9) f [f] .zero) ∧
      (m.evaluate (some 9) node 1).1.isError = true ∧
      (m.evaluate (some 9) node 1).2.scopes.size = 9 := by
  intro literal f m node
  have parents : ∀ {child parent}, m.HasParent child parent → child = 1 ∧ parent = 0 := by
    intro child parent above
    match child with
    | 0 => cases above
    | 1 =>
        cases above
        exact ⟨rfl, rfl⟩
    | child + 2 => cases above
  have closed : m.Closed := {
    parents := fun above => (parents above).2 ▸ Nat.succ_pos 1
    values := by
      intro scope s found binding member
      match scope with
      | 0 =>
          cases found
          cases List.mem_singleton.mp member
          exact Nat.one_lt_two
      | 1 =>
          cases found
          cases member
      | scope + 2 => cases found }
  have acyclic : m.Acyclic := by
    intro scope cycle
    have reaches : ∀ ancestor, Relation.TransGen m.HasParent scope ancestor →
        scope = 1 ∧ ancestor = 0 := by
      intro ancestor climb
      induction climb with
      | single above => exact parents above
      | tail _ above ih => exact ⟨ih.1, (parents above).2⟩
    obtain ⟨first, last⟩ := reaches scope cycle
    exact absurd (first.symm.trans last) (by decide)
  obtain ⟨nodes, applications⟩ := evaluates_under_limit 9 m closed acyclic
  have lives : f.LivesIn m.scopes.size := Nat.one_lt_two
  exact ⟨closed, acyclic, nodes node 1 Nat.one_lt_two,
    applications f [f] .zero lives (List.forall_mem_singleton.mpr lives), by decide +kernel,
    by decide +kernel⟩

end TreeWalk
