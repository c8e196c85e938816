import Mathlib.Data.List.Forall2
import Mathlib.Order.Defs.PartialOrder
import TreeWalk.Proofs.Bare
import TreeWalk.Proofs.Walk

/-! # Two walks side by side

Two trees that differ only in spans are walked in the same order. If the steps of the two walks are
related, so are the walks, even where the values that they hand on are not the same but only alike.

What counts as alike may depend on what has been created so far. It is therefore relative to a
world, and worlds grow along a walk: values that are alike stay alike.
-/

namespace TreeWalk

def FunctionLiteral.mapSpans (f : Span → Span) (literal : FunctionLiteral) : FunctionLiteral :=
  ⟨literal.params, literal.body.mapSpans f, f literal.span⟩

theorem FunctionLiteral.mapSpans_id (literal : FunctionLiteral) : literal.mapSpans id = literal := by
  rw [FunctionLiteral.mapSpans, Block.mapSpans_id, id]

def Node.mapSpans (f : Span → Span) : Node → Node
  | .program p => .program (p.mapSpans f)
  | .block b => .block (b.mapSpans f)
  | .statement t => .statement (t.mapSpans f)
  | .expression e => .expression (e.mapSpans f)

variable {f : Span → Span}

/-- Two expressions of the same form, with parts that have the same images. -/
inductive Expr.Alike (f : Span → Span) : Expr → Expr → Prop where
  | ident : f place = f place' → Alike f (.ident place name) (.ident place' name)
  | int : Alike f (.int place value) (.int place' value)
  | bool : Alike f (.bool place value) (.bool place' value)
  | unary : f place = f place' → operand.mapSpans f = operand'.mapSpans f →
      Alike f (.unary place op operand) (.unary place' op operand')
  | binary : f place = f place' → left.mapSpans f = left'.mapSpans f →
      right.mapSpans f = right'.mapSpans f →
      Alike f (.binary place op left right) (.binary place' op left' right')
  | cond : condition.mapSpans f = condition'.mapSpans f →
      consequence.mapSpans f = consequence'.mapSpans f →
      Alike f (.cond place condition consequence none) (.cond place' condition' consequence' none)
  | condElse : condition.mapSpans f = condition'.mapSpans f →
      consequence.mapSpans f = consequence'.mapSpans f →
      alternative.mapSpans f = alternative'.mapSpans f →
      Alike f (.cond place condition consequence (some alternative))
        (.cond place' condition' consequence' (some alternative'))
  | fn : FunctionLiteral.mapSpans f ⟨params, body, own⟩ =
        FunctionLiteral.mapSpans f ⟨params', body', own'⟩ →
      Alike f (.fn place own params body) (.fn place' own' params' body')
  | call : f place = f place' → callee.mapSpans f = callee'.mapSpans f →
      Expr.mapSpansAll f args = Expr.mapSpansAll f args' →
      Alike f (.call place callee args) (.call place' callee' args')

inductive Stmt.Alike (f : Span → Span) : Stmt → Stmt → Prop where
  | bind : value.mapSpans f = value'.mapSpans f →
      Alike f (.bind place name value) (.bind place' name value')
  | retNothing : Alike f (.ret place none) (.ret place' none)
  | ret : value.mapSpans f = value'.mapSpans f →
      Alike f (.ret place (some value)) (.ret place' (some value'))
  | expr : value.mapSpans f = value'.mapSpans f → Alike f (.expr place value) (.expr place' value')

theorem Expr.alike_of_mapSpans {e e' : Expr} (same : e.mapSpans f = e'.mapSpans f) :
    e.Alike f e' := by
  cases e <;> cases e' <;>
    simp only [Expr.mapSpans_cond, Expr.mapSpans, reduceCtorEq, ident.injEq, int.injEq, bool.injEq,
      unary.injEq, binary.injEq, cond.injEq, fn.injEq, call.injEq] at same
  case ident =>
    obtain ⟨places, rfl⟩ := same
    exact .ident places
  case int =>
    obtain ⟨-, rfl⟩ := same
    exact .int
  case bool =>
    obtain ⟨-, rfl⟩ := same
    exact .bool
  case unary =>
    obtain ⟨places, rfl, operands⟩ := same
    exact .unary places operands
  case binary =>
    obtain ⟨places, rfl, lefts, rights⟩ := same
    exact .binary places lefts rights
  case cond _ _ _ alternative _ _ _ alternative' =>
    obtain ⟨-, conditions, consequences, alternatives⟩ := same
    cases alternative <;> cases alternative' <;> simp at alternatives
    · exact .cond conditions consequences
    · exact .condElse conditions consequences alternatives
  case fn =>
    obtain ⟨-, own, rfl, bodies⟩ := same
    refine .fn ?_
    simp only [FunctionLiteral.mapSpans, bodies, own]
  case call =>
    obtain ⟨places, callees, args⟩ := same
    exact .call places callees args

theorem Stmt.alike_of_mapSpans {t t' : Stmt} (same : t.mapSpans f = t'.mapSpans f) :
    t.Alike f t' := by
  cases t <;> cases t' <;>
    simp only [Stmt.mapSpans_ret, Stmt.mapSpans.eq_1, Stmt.mapSpans.eq_4, reduceCtorEq, bind.injEq,
      ret.injEq, expr.injEq] at same
  case bind =>
    obtain ⟨-, rfl, values⟩ := same
    exact .bind values
  case ret _ value _ value' =>
    obtain ⟨-, values⟩ := same
    cases value <;> cases value' <;> simp at values
    · exact .retNothing
    · exact .ret values
  case expr => exact .expr same.2

/-- The steps of two walks are related in every world, given values that are alike there. Later
    steps are taken in later worlds. -/
structure Steps.Parallel {W : Type} [Preorder W] (f : Span → Span) (V : W → Value → Value → Prop)
    (R : W → α → β → Prop) (s : Steps α) (t : Steps β) : Prop where
  grows : ∀ {w later v v'}, w ≤ later → V w v v' → V later v v'
  scalar : ∀ {w v}, v.isSignal = false → v.type ≠ .function → V w v v
  truth : ∀ {w v v'}, V w v v' → v'.isTruthy = v.isTruthy
  value : ∀ {w v v'}, V w v v' → R w (s.value v) (t.value v')
  andThen : ∀ {w a b next next'}, R w a b →
    (∀ later v v', w ≤ later → V later v v' → R later (next v) (next' v')) →
    R w (s.andThen a next) (t.andThen b next')
  ident : ∀ {w span span'} name, f span = f span' → R w (s.ident name span) (t.ident name span')
  unary : ∀ {w span span' v v'} op, f span = f span' → V w v v' →
    R w (s.unary op v span) (t.unary op v' span')
  binary : ∀ {w span span' v v' u u'} op, f span = f span' → V w v v' → V w u u' →
    R w (s.binary op v u span) (t.binary op v' u' span')
  closure : ∀ {w literal literal'}, literal.mapSpans f = literal'.mapSpans f →
    R w (s.closure literal) (t.closure literal')
  call : ∀ {w span span' function function' args args'}, f span = f span' →
    V w function function' → List.Forall₂ (V w) args args' →
    R w (s.call function args span) (t.call function' args' span')
  bind : ∀ {w v v'} name, V w v v' → R w (s.bind name v) (t.bind name v')
  ret : ∀ {w v v'}, V w v v' → R w (s.ret v) (t.ret v')
  settle : ∀ {w a b}, R w a b → R w (s.settle a) (t.settle b)

section Parallel

variable {W : Type} [Preorder W] {V : W → Value → Value → Prop} {R : W → α → β → Prop}
  {s : Steps α} {t : Steps β}

theorem Steps.Parallel.null (parallel : s.Parallel f V R t) (w : W) : V w .null .null :=
  parallel.scalar rfl nofun

mutual

theorem Expr.walk_parallel (parallel : s.Parallel f V R t) : (e : Expr) → {e' : Expr} →
    e.mapSpans f = e'.mapSpans f → (w : W) → R w (e.walk s) (e'.walk t)
  | .ident _ name, _, same, w => by
      cases Expr.alike_of_mapSpans same with
      | ident spans => exact parallel.ident name spans
  | .int _ _, _, same, w => by
      cases Expr.alike_of_mapSpans same with
      | int => exact parallel.value (parallel.scalar rfl nofun)
  | .bool _ _, _, same, w => by
      cases Expr.alike_of_mapSpans same with
      | bool => exact parallel.value (parallel.scalar rfl nofun)
  | .unary _ op operand, _, same, w => by
      cases Expr.alike_of_mapSpans same with
      | unary spans operands =>
          exact parallel.andThen (operand.walk_parallel parallel operands w)
            fun _ _ _ _ alike => parallel.unary op spans alike
  | .binary _ op left right, _, same, w => by
      cases Expr.alike_of_mapSpans same with
      | binary spans lefts rights =>
          exact parallel.andThen (left.walk_parallel parallel lefts w) fun mid _ _ _ alike =>
            parallel.andThen (right.walk_parallel parallel rights mid) fun _ _ _ later alike' =>
              parallel.binary op spans (parallel.grows later alike) alike'
  | .cond _ condition consequence none, _, same, w => by
      cases Expr.alike_of_mapSpans same with
      | cond conditions consequences =>
          refine parallel.andThen (condition.walk_parallel parallel conditions w) ?_
          intro later v v' _ alike
          rw [parallel.truth alike]
          split
          · exact consequence.walk_parallel parallel consequences later
          · exact parallel.value (parallel.null later)
  | .cond _ condition consequence (some alternative), _, same, w => by
      cases Expr.alike_of_mapSpans same with
      | condElse conditions consequences alternatives =>
          refine parallel.andThen (condition.walk_parallel parallel conditions w) ?_
          intro later v v' _ alike
          rw [parallel.truth alike]
          split
          · exact consequence.walk_parallel parallel consequences later
          · exact alternative.walk_parallel parallel alternatives later
  | .fn _ _ _ _, _, same, w => by
      cases Expr.alike_of_mapSpans same with
      | fn literals => exact parallel.closure literals
  | .call _ callee args, _, same, w => by
      cases Expr.alike_of_mapSpans same with
      | call spans callees arguments =>
          exact parallel.andThen (callee.walk_parallel parallel callees w) fun mid _ _ _ alike =>
            Expr.walkAll_parallel parallel args arguments mid fun _ _ _ later alikeArgs =>
              parallel.call spans (parallel.grows later alike) alikeArgs

theorem Expr.walkAll_parallel (parallel : s.Parallel f V R t) : (es : List Expr) →
    {es' : List Expr} → Expr.mapSpansAll f es = Expr.mapSpansAll f es' → (w : W) →
    {next : List Value → α} → {next' : List Value → β} →
    (∀ later values values', w ≤ later → List.Forall₂ (V later) values values' →
      R later (next values) (next' values')) →
    R w (Expr.walkAll s es next) (Expr.walkAll t es' next')
  | [], [], _, w, _, _, goesOn => goesOn w [] [] (le_refl w) .nil
  | [], _ :: _, same, _, _, _, _ => nomatch same
  | _ :: _, [], same, _, _, _, _ => nomatch same
  | e :: es, _ :: _, same, w, _, _, goesOn => by
      obtain ⟨heads, tails⟩ := List.cons.inj same
      refine parallel.andThen (e.walk_parallel parallel heads w) fun mid v v' first alike => ?_
      refine Expr.walkAll_parallel parallel es tails mid
        fun later values values' second alikes => ?_
      exact goesOn later _ _ (le_trans first second) (.cons (parallel.grows second alike) alikes)

theorem Stmt.walk_parallel (parallel : s.Parallel f V R t) : (x : Stmt) → {x' : Stmt} →
    x.mapSpans f = x'.mapSpans f → (w : W) → R w (x.walk s) (x'.walk t)
  | .expr _ value, _, same, w => by
      cases Stmt.alike_of_mapSpans same with
      | expr values => exact value.walk_parallel parallel values w
  | .bind _ name value, _, same, w => by
      cases Stmt.alike_of_mapSpans same with
      | bind values =>
          exact parallel.andThen (value.walk_parallel parallel values w)
            fun _ _ _ _ alike => parallel.bind name alike
  | .ret _ none, _, same, w => by
      cases Stmt.alike_of_mapSpans same with
      | retNothing => exact parallel.ret (parallel.null w)
  | .ret _ (some value), _, same, w => by
      cases Stmt.alike_of_mapSpans same with
      | ret values =>
          exact parallel.andThen (value.walk_parallel parallel values w)
            fun _ _ _ _ alike => parallel.ret alike

theorem Stmt.walkAll_parallel (parallel : s.Parallel f V R t) : (xs : List Stmt) →
    {xs' : List Stmt} → Stmt.mapSpansAll f xs = Stmt.mapSpansAll f xs' → (w : W) →
    {last last' : Value} → V w last last' → R w (Stmt.walkAll s last xs) (Stmt.walkAll t last' xs')
  | [], [], _, _, _, _, alike => parallel.value alike
  | [], _ :: _, same, _, _, _, _ => nomatch same
  | _ :: _, [], same, _, _, _, _ => nomatch same
  | x :: xs, _ :: _, same, w, _, _, _ => by
      obtain ⟨heads, tails⟩ := List.cons.inj same
      exact parallel.andThen (x.walk_parallel parallel heads w) fun later _ _ _ alike =>
        Stmt.walkAll_parallel parallel xs tails later alike

theorem Block.walk_parallel (parallel : s.Parallel f V R t) : (b : Block) → {b' : Block} →
    b.mapSpans f = b'.mapSpans f → (w : W) → R w (b.walk s) (b'.walk t)
  | .mk _ statements, .mk _ _, same, w =>
      Stmt.walkAll_parallel parallel statements (Block.mk.inj same).2 w (parallel.null w)

end

theorem Node.walk_parallel (parallel : s.Parallel f V R t) {node node' : Node}
    (same : node.mapSpans f = node'.mapSpans f) (w : W) : R w (node.walk s) (node'.walk t) := by
  cases node <;> cases node' <;>
    simp only [Node.mapSpans, reduceCtorEq, program.injEq, block.injEq, statement.injEq,
      expression.injEq] at same
  case program p p' =>
    exact parallel.settle (Stmt.walkAll_parallel parallel p.statements
      (congrArg Program.statements same) w (parallel.null w))
  case block b _ => exact b.walk_parallel parallel same w
  case statement x _ => exact x.walk_parallel parallel same w
  case expression e _ => exact e.walk_parallel parallel same w

end Parallel

end TreeWalk
