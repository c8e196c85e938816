import Mathlib.Logic.Relation
import TreeWalk.Proofs.Walk

/-! # The nodes of a tree

`Node.Within` relates a node to every node that it stands in, at any depth. `Node.PartOf` leaves the
bodies of functions out: the parts of a node are what the walk over it can visit, since the body of
a function is walked only when the function is called.

What holds of the steps at all parts of a node holds of the walk over it. Unlike the relation of two
walks, this says at which node each step is taken.
-/

namespace TreeWalk

namespace Node

/-- The nodes directly below a node, in source order. -/
def children : Node → List Node
  | .program p => p.statements.map .statement
  | .block b => b.statements.map .statement
  | .statement (.bind _ _ value) => [.expression value]
  | .statement (.ret _ value) => value.toList.map .expression
  | .statement (.expr _ value) => [.expression value]
  | .expression (.unary _ _ operand) => [.expression operand]
  | .expression (.binary _ _ left right) => [.expression left, .expression right]
  | .expression (.cond _ condition consequence alternative) =>
      .expression condition :: .block consequence :: alternative.toList.map .block
  | .expression (.fn _ _ _ body) => [.block body]
  | .expression (.call _ callee args) => .expression callee :: args.map .expression
  | .expression _ => []

/-- The children of a node, except for the body of a function. -/
def parts : Node → List Node
  | .expression (.fn _ _ _ _) => []
  | node => node.children

/-- The first node is the second one or stands below it. -/
def Within : Node → Node → Prop := Relation.ReflTransGen fun child node => child ∈ node.children

/-- The first node is the second one or stands below it outside of all function bodies. -/
def PartOf : Node → Node → Prop := Relation.ReflTransGen fun part node => part ∈ node.parts

/-- The name is bound by a statement of the node that stands in no function body. -/
def Lets (node : Node) (name : String) : Prop :=
  ∃ span value, PartOf (.statement (.bind span name value)) node

theorem mem_children_of_parts {part node : Node} (member : part ∈ node.parts) :
    part ∈ node.children := by
  unfold parts at member
  split at member
  · cases member
  · exact member

theorem PartOf.within {part node : Node} (partOf : PartOf part node) : Within part node :=
  Relation.ReflTransGen.mono (fun _ _ => mem_children_of_parts) _ _ partOf

/-- The predicate holds at the node and at all nodes below it. -/
def Everywhere (here : Node → Prop) (node : Node) : Prop := ∀ part, Within part node → here part

namespace Everywhere

variable {here : Node → Prop} {node inner : Node}

theorem self (all : node.Everywhere here) : here node := all node .refl

theorem child (all : node.Everywhere here) (member : inner ∈ node.children) :
    inner.Everywhere here :=
  fun part within => all part (within.tail member)

theorem of_children (own : here node) (below : ∀ child ∈ node.children, child.Everywhere here) :
    node.Everywhere here := by
  intro part within
  rcases Relation.ReflTransGen.cases_tail within with rfl | ⟨child, inside, member⟩
  · exact own
  · exact below child member part inside

end Everywhere

end Node

/-- The steps keep `K`, as far as they are taken at nodes that satisfy `here` and are handed values
    that satisfy `V`. -/
structure Steps.Keeps (s : Steps α) (K : α → Prop) (V : Value → Prop) (here : Node → Prop) :
    Prop where
  scalar : ∀ {v}, v.isSignal = false → v.type ≠ .function → V v
  value : ∀ {v}, V v → K (s.value v)
  andThen : ∀ {a f}, K a → (∀ v, V v → K (f v)) → K (s.andThen a f)
  ident : ∀ {span name}, here (.expression (.ident span name)) → K (s.ident name span)
  unary : ∀ {span op operand v}, here (.expression (.unary span op operand)) → V v →
    K (s.unary op v span)
  binary : ∀ {span op left right v w}, here (.expression (.binary span op left right)) → V v →
    V w → K (s.binary op v w span)
  closure : ∀ {span literalSpan params body},
    here (.expression (.fn span literalSpan params body)) →
      K (s.closure ⟨params, body, literalSpan⟩)
  call : ∀ {span callee args function values}, here (.expression (.call span callee args)) →
    V function → (∀ v ∈ values, V v) → K (s.call function values span)
  bind : ∀ {span name value v}, here (.statement (.bind span name value)) → V v → K (s.bind name v)
  ret : ∀ {v}, V v → K (s.ret v)
  settle : ∀ {a}, K a → K (s.settle a)

section Keeps

variable {s : Steps α} {K : α → Prop} {V : Value → Prop} {here : Node → Prop}

theorem Steps.Keeps.null (keeps : s.Keeps K V here) : V .null := keeps.scalar rfl nofun

def Throughout (here : Node → Prop) (node : Node) : Prop :=
  ∀ part, Node.PartOf part node → here part

theorem Throughout.self {node : Node} (all : Throughout here node) : here node := all node .refl

theorem Throughout.part {node part : Node} (all : Throughout here node)
    (member : part ∈ node.parts) : Throughout here part :=
  fun _ inner => all _ (inner.tail member)

mutual

theorem Expr.walk_keeps (keeps : s.Keeps K V here) :
    (e : Expr) → Throughout here (.expression e) → K (e.walk s)
  | .int _ _, _ => keeps.value (keeps.scalar rfl nofun)
  | .bool _ _, _ => keeps.value (keeps.scalar rfl nofun)
  | .ident _ _, all => keeps.ident all.self
  | .unary _ _ operand, all =>
      keeps.andThen (operand.walk_keeps keeps (all.part List.mem_cons_self)) fun _ good =>
        keeps.unary all.self good
  | .binary _ _ left right, all =>
      keeps.andThen (left.walk_keeps keeps (all.part List.mem_cons_self)) fun _ goodLeft =>
        keeps.andThen
          (right.walk_keeps keeps (all.part (List.mem_cons_of_mem _ List.mem_cons_self)))
          fun _ goodRight => keeps.binary all.self goodLeft goodRight
  | .cond _ condition consequence none, all =>
      keeps.andThen (condition.walk_keeps keeps (all.part List.mem_cons_self)) fun value _ => by
        have taken : Throughout here (.block consequence) :=
          all.part (List.mem_cons_of_mem _ List.mem_cons_self)
        cases value.isTruthy with
        | true => exact consequence.walk_keeps keeps taken
        | false => exact keeps.value keeps.null
  | .cond _ condition consequence (some alternative), all =>
      keeps.andThen (condition.walk_keeps keeps (all.part List.mem_cons_self)) fun value _ => by
        have taken : Throughout here (.block consequence) :=
          all.part (List.mem_cons_of_mem _ List.mem_cons_self)
        have other : Throughout here (.block alternative) :=
          all.part (List.mem_cons_of_mem _ (List.mem_cons_of_mem _ List.mem_cons_self))
        cases value.isTruthy with
        | true => exact consequence.walk_keeps keeps taken
        | false => exact alternative.walk_keeps keeps other
  | .fn _ _ _ _, all => keeps.closure all.self
  | .call _ callee args, all =>
      keeps.andThen (callee.walk_keeps keeps (all.part List.mem_cons_self)) fun _ goodFunction =>
        Expr.walkAll_keeps keeps args
          (fun _ member => all.part (List.mem_cons_of_mem _ (List.mem_map_of_mem member)))
          fun _ goodValues => keeps.call all.self goodFunction goodValues

theorem Expr.walkAll_keeps (keeps : s.Keeps K V here) :
    (es : List Expr) → (∀ e ∈ es, Throughout here (.expression e)) → {next : List Value → α} →
      (∀ values, (∀ v ∈ values, V v) → K (next values)) → K (Expr.walkAll s es next)
  | [], _, _, next => next [] (fun _ member => absurd member List.not_mem_nil)
  | e :: es, all, _, next =>
      keeps.andThen (e.walk_keeps keeps (all e List.mem_cons_self)) fun _ good =>
        Expr.walkAll_keeps keeps es (fun f member => all f (List.mem_cons_of_mem _ member))
          fun _ goodMore => next _ (List.forall_mem_cons.mpr ⟨good, goodMore⟩)

theorem Stmt.walk_keeps (keeps : s.Keeps K V here) :
    (t : Stmt) → Throughout here (.statement t) → K (t.walk s)
  | .expr _ value, all => value.walk_keeps keeps (all.part List.mem_cons_self)
  | .bind _ _ value, all =>
      keeps.andThen (value.walk_keeps keeps (all.part List.mem_cons_self)) fun _ good =>
        keeps.bind all.self good
  | .ret _ none, _ => keeps.ret keeps.null
  | .ret _ (some value), all =>
      keeps.andThen (value.walk_keeps keeps (all.part List.mem_cons_self)) fun _ good =>
        keeps.ret good

theorem Stmt.walkAll_keeps (keeps : s.Keeps K V here) {last : Value} (good : V last) :
    (ts : List Stmt) → (∀ t ∈ ts, Throughout here (.statement t)) → K (Stmt.walkAll s last ts)
  | [], _ => keeps.value good
  | t :: ts, all =>
      keeps.andThen (t.walk_keeps keeps (all t List.mem_cons_self)) fun _ goodHead =>
        Stmt.walkAll_keeps keeps goodHead ts
          fun u member => all u (List.mem_cons_of_mem _ member)

theorem Block.walk_keeps (keeps : s.Keeps K V here) :
    (b : Block) → Throughout here (.block b) → K (b.walk s)
  | .mk _ statements, all =>
      Stmt.walkAll_keeps keeps keeps.null statements
        fun _ member => all.part (List.mem_map_of_mem member)

end

theorem Node.walk_keeps (keeps : s.Keeps K V here) (node : Node) (all : Throughout here node) :
    K (node.walk s) := by
  cases node with
  | program p =>
      exact keeps.settle (Stmt.walkAll_keeps keeps keeps.null p.statements
        fun _ member => all.part (List.mem_map_of_mem member))
  | block b => exact b.walk_keeps keeps all
  | statement t => exact t.walk_keeps keeps all
  | expression e => exact e.walk_keeps keeps all

end Keeps

end TreeWalk
