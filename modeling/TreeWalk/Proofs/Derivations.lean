import TreeWalk.Proofs.Ancestors

/-! # Rules of evaluation

What evaluation does, as rules. A derivation is a finite tree, so whatever has one takes finitely
many steps: the rules count neither the calls that are nested nor the scopes that a search for a
name passes. Only the limit on the depth of calls, if there is one, cuts a derivation off.
-/

namespace TreeWalk

/-- Something to evaluate. -/
inductive Task where
  | expression (scope : ScopeId) (e : Expr)
  /-- The right operand, once the left one has a value. -/
  | operand (scope : ScopeId) (span : Span) (op : BinaryOp) (left : Value) (right : Expr)
  /-- The rest of the arguments, once the callee and the arguments before have values. -/
  | arguments (scope : ScopeId) (span : Span) (function : Value) (values : List Value)
      (rest : List Expr)
  | call (span : Span) (function : Value) (args : List Value)
  | statement (scope : ScopeId) (t : Stmt)
  /-- The rest of some statements, behind one whose value was `last`. -/
  | statements (scope : ScopeId) (last : Value) (rest : List Stmt)
  | block (scope : ScopeId) (b : Block)
  | program (scope : ScopeId) (p : Program)

namespace Task

def ofNode (scope : ScopeId) : Node → Task
  | .program p => .program scope p
  | .block b => .block scope b
  | .statement t => .statement scope t
  | .expression e => .expression scope e

/-- The part that is evaluated first, where a signal ends the task. -/
def first? : Task → Option Task
  | .expression scope (.unary _ _ e) => some (.expression scope e)
  | .expression scope (.binary _ _ left _) => some (.expression scope left)
  | .expression scope (.cond _ condition _ _) => some (.expression scope condition)
  | .expression scope (.call _ callee _) => some (.expression scope callee)
  | .operand scope _ _ _ right => some (.expression scope right)
  | .arguments scope _ _ _ (e :: _) => some (.expression scope e)
  | .statement scope (.bind _ _ value) => some (.expression scope value)
  | .statement scope (.ret _ (some value)) => some (.expression scope value)
  | .statements scope _ (t :: _) => some (.statement scope t)
  | _ => none

end Task

namespace Machine

/-- A failure, as a value of the node at `span`. -/
def raise (m : Machine) (span : Span) (failure : Failure) : Value × Machine :=
  (.error m.nextCell (failure.withSpan span), m.newCell.2)

/-- The outcome of an operator, as a value of the node at `span`. -/
def conclude (m : Machine) (span : Span) : Except Failure Value → Value × Machine
  | .ok value => (value, m)
  | .error failure => m.raise span failure

end Machine

/-- The task, begun on a machine under a limit on the depth of calls, ends with a value and a
    machine. -/
inductive Evaluates (limit : Option Nat) : Task → Machine → Value × Machine → Prop where
  | stops (leads : task.first? = some part) (begins : Evaluates limit part m (v, mid))
      (signal : v.isSignal = true) : Evaluates limit task m (v, mid)
  | int : Evaluates limit (.expression scope (.int span n)) m (.int n, m)
  | bool : Evaluates limit (.expression scope (.bool span b)) m (.bool b, m)
  | bound (found : m.Finds name scope (some v)) :
      Evaluates limit (.expression scope (.ident span name)) m (v, m)
  | unbound (found : m.Finds name scope none) :
      Evaluates limit (.expression scope (.ident span name)) m
        (m.raise span { cause := .identifierNotFound name })
  | unary (begins : Evaluates limit (.expression scope operand) m (v, mid))
      (plain : v.isSignal = false) :
      Evaluates limit (.expression scope (.unary span op operand)) m
        (mid.conclude span (op.operate v))
  | binary (begins : Evaluates limit (.expression scope left) m (v, mid))
      (plain : v.isSignal = false)
      (goesOn : Evaluates limit (.operand scope span op v right) mid result) :
      Evaluates limit (.expression scope (.binary span op left right)) m result
  | operand (begins : Evaluates limit (.expression scope right) m (w, mid))
      (plain : w.isSignal = false) :
      Evaluates limit (.operand scope span op v right) m (mid.conclude span (op.operate v w))
  | consequence (begins : Evaluates limit (.expression scope condition) m (v, mid))
      (plain : v.isSignal = false) (truthy : v.isTruthy = true)
      (goesOn : Evaluates limit (.block scope consequence) mid result) :
      Evaluates limit (.expression scope (.cond span condition consequence alternative)) m result
  | alternative (begins : Evaluates limit (.expression scope condition) m (v, mid))
      (plain : v.isSignal = false) (falsy : v.isTruthy = false)
      (goesOn : Evaluates limit (.block scope alternative) mid result) :
      Evaluates limit (.expression scope (.cond span condition consequence (some alternative))) m
        result
  | noAlternative (begins : Evaluates limit (.expression scope condition) m (v, mid))
      (plain : v.isSignal = false) (falsy : v.isTruthy = false) :
      Evaluates limit (.expression scope (.cond span condition consequence none)) m (.null, mid)
  | function :
      Evaluates limit (.expression scope (.fn span literalSpan params body)) m
        (.closure m.nextCell ⟨params, body, literalSpan⟩ scope, m.newCell.2)
  | callee (begins : Evaluates limit (.expression scope callee) m (v, mid))
      (plain : v.isSignal = false)
      (goesOn : Evaluates limit (.arguments scope span v [] args) mid result) :
      Evaluates limit (.expression scope (.call span callee args)) m result
  | argument (begins : Evaluates limit (.expression scope e) m (v, mid))
      (plain : v.isSignal = false)
      (goesOn : Evaluates limit (.arguments scope span function (values ++ [v]) es) mid result) :
      Evaluates limit (.arguments scope span function values (e :: es)) m result
  | arguments (goesOn : Evaluates limit (.call span function values) m result) :
      Evaluates limit (.arguments scope span function values []) m result
  | noFunction (other : function.type ≠ .function) :
      Evaluates limit (.call span function args) m
        (m.raise span { cause := .notAFunction function.type })
  | wrongCount (wrong : literal.params.length ≠ args.length) :
      Evaluates limit (.call span (.closure cell literal captured) args) m
        (m.raise span { cause := .wrongArgumentCount literal.params.length args.length })
  | exceeded (count : literal.params.length = args.length) (chosen : limit = some most)
      (reached : most ≤ m.depth) :
      Evaluates limit (.call span (.closure cell literal captured) args) m
        (m.raise span { cause := .callDepthExceeded most })
  | enters (count : literal.params.length = args.length) (below : ∀ most ∈ limit, m.depth < most)
      (body : Evaluates limit (.block m.scopes.size literal.body)
        (m.enter captured (literal.params.zip args)) result) :
      Evaluates limit (.call span (.closure cell literal captured) args) m (leaveCall result)
  | statement (value : Evaluates limit (.expression scope e) m result) :
      Evaluates limit (.statement scope (.expr span e)) m result
  | bind (begins : Evaluates limit (.expression scope e) m (v, mid)) (plain : v.isSignal = false) :
      Evaluates limit (.statement scope (.bind span name e)) m (.null, mid.bind scope name v)
  | ret (begins : Evaluates limit (.expression scope e) m (v, mid)) (plain : v.isSignal = false) :
      Evaluates limit (.statement scope (.ret span (some e))) m
        (.returned mid.nextCell v, mid.newCell.2)
  | retNull :
      Evaluates limit (.statement scope (.ret span none)) m
        (.returned m.nextCell .null, m.newCell.2)
  | following (begins : Evaluates limit (.statement scope t) m (v, mid))
      (plain : v.isSignal = false)
      (goesOn : Evaluates limit (.statements scope v ts) mid result) :
      Evaluates limit (.statements scope last (t :: ts)) m result
  | last : Evaluates limit (.statements scope last []) m (last, m)
  | block (body : Evaluates limit (.statements scope .null statements) m result) :
      Evaluates limit (.block scope (.mk span statements)) m result
  | program (body : Evaluates limit (.statements scope .null p.statements) m (v, m')) :
      Evaluates limit (.program scope p) m (v.unwrapReturn, m')

end TreeWalk
