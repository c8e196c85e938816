import TreeWalk.Tree

/-! # Equality of trees

Two trees are the same when they agree node by node, spans included.
-/

namespace TreeWalk

mutual

/-- Do two expressions agree node by node? -/
def Expr.same : Expr → Expr → Bool
  | .ident s n, .ident s' n' => s == s' && n == n'
  | .int s v, .int s' v' => s == s' && v == v'
  | .bool s v, .bool s' v' => s == s' && v == v'
  | .unary s op e, .unary s' op' e' => s == s' && op == op' && e.same e'
  | .binary s op l r, .binary s' op' l' r' => s == s' && op == op' && l.same l' && r.same r'
  | .cond s c t none, .cond s' c' t' none => s == s' && c.same c' && t.same t'
  | .cond s c t (some e), .cond s' c' t' (some e') =>
      s == s' && c.same c' && t.same t' && e.same e'
  | .fn s k ps b, .fn s' k' ps' b' => s == s' && k == k' && ps == ps' && b.same b'
  | .call s c as, .call s' c' as' => s == s' && c.same c' && Expr.sameAll as as'
  | _, _ => false

def Expr.sameAll : List Expr → List Expr → Bool
  | [], [] => true
  | e :: es, e' :: es' => e.same e' && Expr.sameAll es es'
  | _, _ => false

def Stmt.same : Stmt → Stmt → Bool
  | .bind s n e, .bind s' n' e' => s == s' && n == n' && e.same e'
  | .ret s none, .ret s' none => s == s'
  | .ret s (some e), .ret s' (some e') => s == s' && e.same e'
  | .expr s e, .expr s' e' => s == s' && e.same e'
  | _, _ => false

def Stmt.sameAll : List Stmt → List Stmt → Bool
  | [], [] => true
  | t :: ts, t' :: ts' => t.same t' && Stmt.sameAll ts ts'
  | _, _ => false

def Block.same : Block → Block → Bool
  | .mk s ts, .mk s' ts' => s == s' && Stmt.sameAll ts ts'

end

instance : BEq Program := ⟨fun p q => Stmt.sameAll p.statements q.statements⟩

end TreeWalk
