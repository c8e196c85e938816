import TreeWalk.Tree

/-! # Trees without their spans

Spans say where a node was read from and nothing else. `mapSpans` moves every span of a tree, and
the bare form of a tree has them all at zero: two trees are the same program when their bare forms
are equal. A span that stands inside a node, such as that of a function literal, counts as well.
-/

namespace TreeWalk

mutual

def Expr.mapSpans (f : Span → Span) : Expr → Expr
  | .ident span name => .ident (f span) name
  | .int span value => .int (f span) value
  | .bool span value => .bool (f span) value
  | .unary span op operand => .unary (f span) op (operand.mapSpans f)
  | .binary span op left right => .binary (f span) op (left.mapSpans f) (right.mapSpans f)
  | .cond span condition consequence none =>
      .cond (f span) (condition.mapSpans f) (consequence.mapSpans f) none
  | .cond span condition consequence (some alternative) =>
      .cond (f span) (condition.mapSpans f) (consequence.mapSpans f) (some (alternative.mapSpans f))
  | .fn span literalSpan params body =>
      .fn (f span) (f literalSpan) params (body.mapSpans f)
  | .call span callee args => .call (f span) (callee.mapSpans f) (Expr.mapSpansAll f args)

def Expr.mapSpansAll (f : Span → Span) : List Expr → List Expr
  | [] => []
  | e :: es => e.mapSpans f :: Expr.mapSpansAll f es

def Stmt.mapSpans (f : Span → Span) : Stmt → Stmt
  | .bind span name value => .bind (f span) name (value.mapSpans f)
  | .ret span none => .ret (f span) none
  | .ret span (some value) => .ret (f span) (some (value.mapSpans f))
  | .expr span value => .expr (f span) (value.mapSpans f)

def Stmt.mapSpansAll (f : Span → Span) : List Stmt → List Stmt
  | [] => []
  | t :: ts => t.mapSpans f :: Stmt.mapSpansAll f ts

def Block.mapSpans (f : Span → Span) : Block → Block
  | .mk span statements => .mk (f span) (Stmt.mapSpansAll f statements)

end

def Program.mapSpans (f : Span → Span) (p : Program) : Program := ⟨Stmt.mapSpansAll f p.statements⟩

abbrev Expr.bare (e : Expr) : Expr := e.mapSpans fun _ => .zero

abbrev Expr.bareAll (es : List Expr) : List Expr := Expr.mapSpansAll (fun _ => .zero) es

abbrev Stmt.bare (t : Stmt) : Stmt := t.mapSpans fun _ => .zero

abbrev Stmt.bareAll (ts : List Stmt) : List Stmt := Stmt.mapSpansAll (fun _ => .zero) ts

abbrev Block.bare (b : Block) : Block := b.mapSpans fun _ => .zero

abbrev Program.bare (p : Program) : Program := p.mapSpans fun _ => .zero

mutual

theorem Expr.mapSpans_mapSpans (f g : Span → Span) : (e : Expr) →
    (e.mapSpans f).mapSpans g = e.mapSpans fun span => g (f span)
  | .ident _ _ | .int _ _ | .bool _ _ => rfl
  | .unary _ _ operand => by simp only [Expr.mapSpans, operand.mapSpans_mapSpans]
  | .binary _ _ left right => by
      simp only [Expr.mapSpans, left.mapSpans_mapSpans, right.mapSpans_mapSpans]
  | .cond _ condition consequence none => by
      simp only [Expr.mapSpans, condition.mapSpans_mapSpans, consequence.mapSpans_mapSpans]
  | .cond _ condition consequence (some alternative) => by
      simp only [Expr.mapSpans, condition.mapSpans_mapSpans, consequence.mapSpans_mapSpans,
        alternative.mapSpans_mapSpans]
  | .fn _ _ _ body => by simp only [Expr.mapSpans, body.mapSpans_mapSpans]
  | .call _ callee args => by
      simp only [Expr.mapSpans, callee.mapSpans_mapSpans, Expr.mapSpansAll_mapSpansAll f g args]

theorem Expr.mapSpansAll_mapSpansAll (f g : Span → Span) : (es : List Expr) →
    Expr.mapSpansAll g (Expr.mapSpansAll f es) = Expr.mapSpansAll (fun span => g (f span)) es
  | [] => rfl
  | e :: es => by
      simp only [Expr.mapSpansAll, e.mapSpans_mapSpans, Expr.mapSpansAll_mapSpansAll f g es]

theorem Stmt.mapSpans_mapSpans (f g : Span → Span) : (t : Stmt) →
    (t.mapSpans f).mapSpans g = t.mapSpans fun span => g (f span)
  | .bind _ _ value => by simp only [Stmt.mapSpans, value.mapSpans_mapSpans]
  | .ret _ none => rfl
  | .ret _ (some value) => by simp only [Stmt.mapSpans, value.mapSpans_mapSpans]
  | .expr _ value => by simp only [Stmt.mapSpans, value.mapSpans_mapSpans]

theorem Stmt.mapSpansAll_mapSpansAll (f g : Span → Span) : (ts : List Stmt) →
    Stmt.mapSpansAll g (Stmt.mapSpansAll f ts) = Stmt.mapSpansAll (fun span => g (f span)) ts
  | [] => rfl
  | t :: ts => by
      simp only [Stmt.mapSpansAll, t.mapSpans_mapSpans, Stmt.mapSpansAll_mapSpansAll f g ts]

theorem Block.mapSpans_mapSpans (f g : Span → Span) : (b : Block) →
    (b.mapSpans f).mapSpans g = b.mapSpans fun span => g (f span)
  | .mk _ statements => by
      simp only [Block.mapSpans, Stmt.mapSpansAll_mapSpansAll f g statements]

end

mutual

theorem Expr.mapSpans_id : (e : Expr) → e.mapSpans id = e
  | .ident _ _ | .int _ _ | .bool _ _ => rfl
  | .unary _ _ operand => by simp only [Expr.mapSpans, operand.mapSpans_id, id]
  | .binary _ _ left right => by
      simp only [Expr.mapSpans, left.mapSpans_id, right.mapSpans_id, id]
  | .cond _ condition consequence none => by
      simp only [Expr.mapSpans, condition.mapSpans_id, consequence.mapSpans_id, id]
  | .cond _ condition consequence (some alternative) => by
      simp only [Expr.mapSpans, condition.mapSpans_id, consequence.mapSpans_id,
        alternative.mapSpans_id, id]
  | .fn _ _ _ body => by simp only [Expr.mapSpans, body.mapSpans_id, id]
  | .call _ callee args => by
      simp only [Expr.mapSpans, callee.mapSpans_id, Expr.mapSpansAll_id args, id]

theorem Expr.mapSpansAll_id : (es : List Expr) → Expr.mapSpansAll id es = es
  | [] => rfl
  | e :: es => by simp only [Expr.mapSpansAll, e.mapSpans_id, Expr.mapSpansAll_id es]

theorem Stmt.mapSpans_id : (t : Stmt) → t.mapSpans id = t
  | .bind _ _ value => by simp only [Stmt.mapSpans, value.mapSpans_id, id]
  | .ret _ none => rfl
  | .ret _ (some value) => by simp only [Stmt.mapSpans, value.mapSpans_id, id]
  | .expr _ value => by simp only [Stmt.mapSpans, value.mapSpans_id, id]

theorem Stmt.mapSpansAll_id : (ts : List Stmt) → Stmt.mapSpansAll id ts = ts
  | [] => rfl
  | t :: ts => by simp only [Stmt.mapSpansAll, t.mapSpans_id, Stmt.mapSpansAll_id ts]

theorem Block.mapSpans_id : (b : Block) → b.mapSpans id = b
  | .mk _ statements => by simp only [Block.mapSpans, Stmt.mapSpansAll_id statements, id]

end

/-- Spans that are replaced do not show in the bare form. -/
theorem Program.bare_mapSpans (f : Span → Span) (p : Program) : (p.mapSpans f).bare = p.bare :=
  congrArg Program.mk (Stmt.mapSpansAll_mapSpansAll f _ p.statements)

/-- Parentheses around an expression do not show in its bare form. -/
@[simp] theorem Expr.bare_withSpan (span : Span) (e : Expr) : (e.withSpan span).bare = e.bare := by
  cases e with
  | cond _ _ _ alternative => cases alternative <;> rfl
  | _ => rfl

@[simp] theorem Expr.span_mapSpans (f : Span → Span) (e : Expr) :
    (e.mapSpans f).span = f e.span := by
  cases e with
  | cond _ _ _ alternative => cases alternative <;> rfl
  | _ => rfl

theorem Expr.mapSpans_withSpan (f : Span → Span) (span : Span) (e : Expr) :
    (e.withSpan span).mapSpans f = (e.mapSpans f).withSpan (f span) := by
  cases e with
  | cond _ _ _ alternative => cases alternative <;> rfl
  | _ => rfl

@[simp] theorem Expr.withSpan_span (e : Expr) : e.withSpan e.span = e := by
  cases e <;> rfl

theorem Stmt.mapSpans_ret (f : Span → Span) (span : Span) (value : Option Expr) :
    (Stmt.ret span value).mapSpans f = .ret (f span) (value.map (Expr.mapSpans f)) := by
  cases value <;> rfl

theorem Expr.mapSpans_cond (f : Span → Span) (span : Span) (condition : Expr) (consequence : Block)
    (alternative : Option Block) :
    (Expr.cond span condition consequence alternative).mapSpans f = .cond (f span)
      (condition.mapSpans f) (consequence.mapSpans f) (alternative.map (Block.mapSpans f)) := by
  cases alternative <;> rfl

theorem Stmt.mapSpansAll_append (f : Span → Span) (ts us : List Stmt) :
    Stmt.mapSpansAll f (ts ++ us) = Stmt.mapSpansAll f ts ++ Stmt.mapSpansAll f us := by
  induction ts with
  | nil => rfl
  | cons t ts ih => simp only [List.cons_append, Stmt.mapSpansAll, ih]

theorem Stmt.mapSpansAll_reverse (f : Span → Span) (ts : List Stmt) :
    Stmt.mapSpansAll f ts.reverse = (Stmt.mapSpansAll f ts).reverse := by
  induction ts with
  | nil => rfl
  | cons t ts ih =>
      rw [List.reverse_cons, Stmt.mapSpansAll_append, ih]
      exact List.reverse_cons.symm

theorem Stmt.bareAll_reverse {ts us : List Stmt} (bares : Stmt.bareAll ts = Stmt.bareAll us) :
    Stmt.bareAll ts.reverse = Stmt.bareAll us.reverse := by
  rw [Stmt.bareAll, Stmt.bareAll, Stmt.mapSpansAll_reverse, Stmt.mapSpansAll_reverse]
  exact congrArg List.reverse bares

theorem Expr.mapSpansAll_append (f : Span → Span) (es fs : List Expr) :
    Expr.mapSpansAll f (es ++ fs) = Expr.mapSpansAll f es ++ Expr.mapSpansAll f fs := by
  induction es with
  | nil => rfl
  | cons e es ih => simp only [List.cons_append, Expr.mapSpansAll, ih]

theorem Expr.mapSpansAll_reverse (f : Span → Span) (es : List Expr) :
    Expr.mapSpansAll f es.reverse = (Expr.mapSpansAll f es).reverse := by
  induction es with
  | nil => rfl
  | cons e es ih =>
      rw [List.reverse_cons, Expr.mapSpansAll_append, ih]
      exact List.reverse_cons.symm

theorem Expr.bareAll_reverse {es fs : List Expr} (bares : Expr.bareAll es = Expr.bareAll fs) :
    Expr.bareAll es.reverse = Expr.bareAll fs.reverse := by
  rw [Expr.bareAll, Expr.bareAll, Expr.mapSpansAll_reverse, Expr.mapSpansAll_reverse]
  exact congrArg List.reverse bares

end TreeWalk
