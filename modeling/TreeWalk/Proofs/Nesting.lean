import TreeWalk.Proofs.Spans

/-! # Spans nest and follow the source

The span of a node is assembled from the span of the first token that it is read from and that of
the last one, and the spans of its parts from tokens in between. This is told here of the cursors: a
node that is read between two cursors reaches from the token at the first one to the token just
before the second one, and its children stand in a row between these two places.

A span is built by merging two others, from different rules in different ways. All of these merges
are of one kind, that of a span with one that starts and stops no earlier.
-/

namespace TreeWalk

namespace Node

/-- The text that a node was read from. A whole program has no span. -/
def span? : Node → Option Span
  | .program _ => none
  | .block b => some b.span
  | .statement t => some t.span
  | .expression e => some e.span

/-- The nodes stand one behind the other between two offsets, and none of them is empty. -/
inductive Row : (start stop : Nat) → List Node → Prop where
  | nil : start ≤ stop → Row start stop []
  | cons : node.span? = some s → start ≤ s.start → s.start < s.stop → Row s.stop stop nodes →
      Row start stop (node :: nodes)

/-- The literal of a function stands in its expression, and the body in the literal. -/
def HoldsLiteral : Node → Prop
  | .expression (.fn span own _ body) =>
      span.start ≤ own.start ∧ own.start < own.stop ∧ own.stop ≤ span.stop ∧
        own.start ≤ body.span.start ∧ body.span.stop ≤ own.stop
  | _ => True

/-- The children stand in a row within the node. -/
structure Nests (node : Node) : Prop where
  row : ∀ s ∈ node.span?, Row s.start s.stop node.children
  literal : node.HoldsLiteral

namespace Row

variable {start stop : Nat} {node : Node} {nodes : List Node}

theorem le (row : Row start stop nodes) : start ≤ stop := by
  induction row with
  | nil le => exact le
  | cons _ behind solid _ ih => exact Nat.le_trans (Nat.le_trans behind (Nat.le_of_lt solid)) ih

theorem widen {outerStart outerStop : Nat} (row : Row start stop nodes)
    (before : outerStart ≤ start) (behind : stop ≤ outerStop) : Row outerStart outerStop nodes := by
  induction row generalizing outerStart with
  | nil le => exact .nil (Nat.le_trans before (Nat.le_trans le behind))
  | cons span from_ solid _ ih =>
      exact .cons span (Nat.le_trans before from_) solid (ih (Nat.le_refl _) behind)

/-- Every node of a row has a span, which is not empty and lies between the two offsets. -/
theorem inside (row : Row start stop nodes) : ∀ node ∈ nodes,
    ∃ s, node.span? = some s ∧ start ≤ s.start ∧ s.start < s.stop ∧ s.stop ≤ stop := by
  induction row with
  | nil => exact nofun
  | cons span behind solid rest ih =>
      refine List.forall_mem_cons.mpr ⟨⟨_, span, behind, solid, rest.le⟩, fun node member => ?_⟩
      obtain ⟨s, found, later, solidLater, within⟩ := ih node member
      have first := Nat.le_trans behind (Nat.le_of_lt solid)
      exact ⟨s, found, Nat.le_trans first later, solidLater, within⟩

theorem apart (row : Row start stop nodes) :
    nodes.Pairwise fun a b => ∀ s ∈ a.span?, ∀ t ∈ b.span?, s.stop ≤ t.start := by
  induction row with
  | nil => exact .nil
  | cons span _ _ rest ih =>
      refine List.pairwise_cons.mpr ⟨fun node member s found t foundLater => ?_, ih⟩
      obtain ⟨t', same, later, _⟩ := rest.inside node member
      cases span.symm.trans found
      cases same.symm.trans foundLater
      exact later

end Row

/-- Parentheses widen a span, and nothing below it changes. -/
theorem Nests.withSpan {e : Expr} {span : Span} (nests : (expression e).Nests)
    (start : span.start ≤ e.span.start) (stop : e.span.stop ≤ span.stop) :
    (expression (e.withSpan span)).Nests where
  row := by
    rintro _ ⟨⟩
    rw [children_withSpan]
    have same : (e.withSpan span).span = span := by cases e <;> rfl
    rw [same]
    exact (nests.row e.span rfl).widen start stop
  literal := by
    cases e with
    | fn _ own _ body =>
        obtain ⟨first, solid, last, body⟩ := nests.literal
        exact ⟨Nat.le_trans start first, solid, Nat.le_trans last stop, body⟩
    | _ => trivial

end Node

open Node (Row Nests)
open Lexer (lexemes lexemes_ordered byteSize_toList)

theorem Span.merge_of_le {a b : Span} (start : a.start ≤ b.start) (stop : a.stop ≤ b.stop) :
    a.merge b = ⟨a.start, b.stop⟩ := by
  rw [Span.merge, Nat.min_eq_left start, Nat.max_eq_right stop]

namespace Cursor

/-- The tokens ahead stand one behind the other, behind those consumed, and an end marker is the only
    one that may be empty. -/
structure Steady (c : Cursor) : Prop where
  closed : c.Closed
  ordered : Ordered (c.current :: c.rest)
  solid : ∀ t ∈ c.current :: c.rest, t.kind ≠ .endOfInput → t.span.start < t.span.stop
  behind : c.previous.stop ≤ c.current.span.start

/-- The second cursor stands behind the token at the first one, and perhaps behind more. -/
structure Reaches (c c' : Cursor) : Prop where
  steady : c'.Steady
  solid : c.current.span.start < c.current.span.stop
  start : c.current.span.start ≤ c'.previous.start
  stop : c.current.span.stop ≤ c'.previous.stop

/-- From the token at the first cursor to the token before the second one. -/
def stretch (c c' : Cursor) : Span := ⟨c.current.span.start, c'.previous.stop⟩

variable {c mid c' : Cursor}

theorem Steady.advance (steady : c.Steady) (notEnd : c.current.kind ≠ .endOfInput) :
    c.Reaches c.advance := by
  obtain ⟨t, ts, rest⟩ := List.exists_cons_of_ne_nil (steady.closed.rest_ne_nil notEnd)
  have ordered := steady.ordered
  have solid := steady.solid
  rw [rest] at ordered solid
  have next : t.span.start ≥ c.current.span.stop :=
    List.rel_of_pairwise_cons ordered.apart List.mem_cons_self
  have closed := steady.closed.advance notEnd
  rw [advance_eq notEnd rest] at closed ⊢
  exact {
    steady := {
      closed := closed
      ordered := ordered.within (List.suffix_cons _ _).isInfix
      solid := fun s member => solid s (List.mem_cons_of_mem _ member)
      behind := next }
    solid := solid _ List.mem_cons_self notEnd
    start := Nat.le_refl _
    stop := Nat.le_refl _ }

namespace Reaches

theorem lt_stop (reaches : c.Reaches c') : c.current.span.start < c'.previous.stop :=
  Nat.lt_of_lt_of_le reaches.solid reaches.stop

theorem start_le (reaches : c.Reaches c') : c.current.span.start ≤ c'.current.span.start :=
  Nat.le_trans (Nat.le_of_lt reaches.lt_stop) reaches.steady.behind

/-- What ends before the first cursor ends before what is read there. -/
theorem previous_le (reaches : c.Reaches c') (steady : c.Steady) :
    c.previous.stop ≤ c'.current.span.start :=
  Nat.le_trans steady.behind reaches.start_le

theorem previous_le_stop (reaches : c.Reaches c') (steady : c.Steady) :
    c.previous.stop ≤ c'.previous.stop :=
  Nat.le_trans steady.behind (Nat.le_of_lt reaches.lt_stop)

theorem trans (first : c.Reaches mid) (second : mid.Reaches c') : c.Reaches c' where
  steady := second.steady
  solid := first.solid
  start := Nat.le_trans first.start_le second.start
  stop := Nat.le_trans first.stop (second.previous_le_stop first.steady)

theorem merge (reaches : c.Reaches c') : c.current.span.merge c'.previous = c.stretch c' :=
  Span.merge_of_le reaches.start reaches.stop

theorem merge_since (first : c.Reaches mid) (second : mid.Reaches c') :
    c.current.span.merge (mid.stretch c') = c.stretch c' := by
  have start : c.current.span.start ≤ (mid.stretch c').start := first.start_le
  exact Span.merge_of_le start (first.trans second).stop

theorem merge_stretch (reaches : c.Reaches c') (later : mid.previous.stop ≤ c'.previous.stop) :
    (c.stretch mid).merge c'.previous = c.stretch c' :=
  Span.merge_of_le reaches.start later

end Reaches

end Cursor

open Cursor (Reaches)

/-- The node has been read between the two cursors. -/
structure Placed (c : Cursor) (node : Node) (c' : Cursor) : Prop extends c.Reaches c' where
  span : node.span? = some (c.stretch c')
  nests : node.Everywhere Nests

structure Lined (start stop : Nat) (nodes : List Node) : Prop where
  row : Row start stop nodes
  nests : ∀ node ∈ nodes, node.Everywhere Nests

section Placing

variable {c mid c' : Cursor} {start stop : Nat} {node : Node} {nodes : List Node}

theorem Lined.nil (le : start ≤ stop) : Lined start stop [] := ⟨.nil le, nofun⟩

theorem Lined.cons (placed : Placed c node mid) (behind : start ≤ c.current.span.start)
    (rest : Lined mid.previous.stop stop nodes) : Lined start stop (node :: nodes) where
  row := .cons placed.span behind placed.lt_stop rest.row
  nests := List.forall_mem_cons.mpr ⟨placed.nests, rest.nests⟩

theorem Lined.widen {outerStart outerStop : Nat} (lined : Lined start stop nodes)
    (before : outerStart ≤ start) (behind : stop ≤ outerStop) : Lined outerStart outerStop nodes :=
  ⟨lined.row.widen before behind, lined.nests⟩

theorem Placed.lined (placed : Placed c node c') (behind : start ≤ c.current.span.start)
    (within : c'.previous.stop ≤ stop) : Lined start stop [node] :=
  .cons placed behind (.nil within)

theorem Node.Everywhere.span_within {outer : Node} {s : Span} (nests : outer.Everywhere Nests)
    (span : outer.span? = some s) (solid : s.start < s.stop) (within : Node.Within node outer) :
    ∃ t, node.span? = some t ∧ t.start < t.stop ∧ s.start ≤ t.start ∧ t.stop ≤ s.stop := by
  induction within generalizing s with
  | refl => exact ⟨s, span, solid, Nat.le_refl _, Nat.le_refl _⟩
  | tail _ member ih =>
      obtain ⟨t, found, start, solidChild, stop⟩ := (nests.self.row s span).inside _ member
      obtain ⟨u, inner, solidInner, startInner, stopInner⟩ := ih (nests.child member) found solidChild
      exact ⟨u, inner, solidInner, Nat.le_trans start startInner, Nat.le_trans stopInner stop⟩

theorem placed_of_lined (reaches : c.Reaches c') (span : node.span? = some (c.stretch c'))
    (lined : Lined c.current.span.start c'.previous.stop node.children)
    (literal : node.HoldsLiteral) : Placed c node c' where
  toReaches := reaches
  span := span
  nests := by
    refine .of_children ⟨fun s found => ?_, literal⟩ lined.nests
    cases span.symm.trans found
    exact lined.row

end Placing

namespace Rule

variable {α : Type} {c mid c' : Cursor}

/-- Whatever the rule reads from a steady cursor has this property. -/
def Yields (rule : Rule α) (holds : Cursor → α → Cursor → Prop) : Prop :=
  ∀ ⦃c a c'⦄, c.Steady → rule c = .ok a c' → holds c a c'

theorem yields_noExpression {holds : Cursor → α → Cursor → Prop} :
    Yields (noExpression : Rule α) holds :=
  fun _ _ _ _ read => absurd read noExpression_ne_ok

theorem yields_within {holds : Cursor → α → Cursor → Prop} {rule : Rule α} (construct : Construct)
    (yields : Yields rule holds) : Yields (within construct rule) holds :=
  fun _ _ _ steady read => yields steady (within_eq_ok.mp read)

theorem reaches_expect {kind : TokenKind} {construct : Construct} {span : Span} (steady : c.Steady)
    (fixed : kind.spelling?.isSome) (read : expect kind construct c = .ok span c') :
    c.Reaches c' := by
  obtain ⟨⟨here, -⟩, rfl⟩ := (expect_eq_ok fixed).mp read
  exact steady.advance (here ▸ ne_end_of_fixed fixed)

theorem previous_expect {kind : TokenKind} {construct : Construct} {span : Span} (steady : c.Steady)
    (fixed : kind.spelling?.isSome) (read : expect kind construct c = .ok span c') :
    span = c'.previous := by
  obtain ⟨⟨here, rfl⟩, rfl⟩ := (expect_eq_ok fixed).mp read
  have notEnd : c.current.kind ≠ .endOfInput := here ▸ ne_end_of_fixed fixed
  rw [Cursor.previous_advance notEnd (steady.closed.rest_ne_nil notEnd)]

theorem reaches_expectName {construct : Construct} {name : String} (steady : c.Steady)
    (read : expectName construct c = .ok name c') : c.Reaches c' := by
  obtain ⟨here, rfl⟩ := expectName_eq_ok.mp read
  exact steady.advance (by simp [here])

theorem reaches_or_stays {kind : TokenKind} {ate : Bool} (steady : c.Steady)
    (fixed : kind.spelling?.isSome) (read : eat kind c = .ok ate c') :
    (ate = true ∧ c.Reaches c') ∨ (ate = false ∧ c = c') := by
  rcases (eat_eq_ok fixed).mp read with ⟨here, eaten, rfl⟩ | ⟨_, uneaten, same⟩
  · exact .inl ⟨eaten, steady.advance (here ▸ ne_end_of_fixed fixed)⟩
  · exact .inr ⟨uneaten, same⟩

theorem reaches_eat {kind : TokenKind} {ate : Bool} (reaches : c.Reaches mid)
    (fixed : kind.spelling?.isSome) (read : eat kind mid = .ok ate c') :
    c.Reaches c' ∧ mid.previous.stop ≤ c'.previous.stop := by
  rcases reaches_or_stays reaches.steady fixed read with ⟨_, more⟩ | ⟨_, rfl⟩
  · exact ⟨reaches.trans more, more.previous_le_stop reaches.steady⟩
  · exact ⟨reaches, Nat.le_refl _⟩

abbrev PlacesExpr (rule : Rule Expr) : Prop :=
  Yields rule fun c e c' => Placed c (.expression e) c'

abbrev PlacesBlock (rule : Rule Block) : Prop :=
  Yields rule fun c b c' => Placed c (.block b) c'

/-- The value of a `return` is placed, if there is one. -/
def Returned (c : Cursor) (value : Option Expr) (c' : Cursor) : Prop :=
  match value with
  | none => c = c'
  | some e => Placed c (.expression e) c'

def Closes (c : Cursor) (args : List Expr) (c' : Cursor) : Prop :=
  c.Reaches c' ∧ Lined c.current.span.start c'.previous.stop (args.map .expression)

theorem binding_placed {value : Rule Expr} {t : Stmt} (places : PlacesExpr value)
    (steady : c.Steady) (here : c.current.kind = .letKeyword) (read : binding value c = .ok t c') :
    Placed c (.statement t) c' := by
  unfold binding at read
  obtain ⟨_, afterStart, advanced, read⟩ := bind_eq_ok.mp read
  obtain ⟨rfl, rfl⟩ := advance_eq_ok.mp advanced
  have start := steady.advance (by simp [here])
  obtain ⟨name, afterName, named, read⟩ := bind_eq_ok.mp read
  have name := start.trans (reaches_expectName start.steady named)
  obtain ⟨_, afterAssign, assigned, read⟩ := bind_eq_ok.mp read
  have assign := name.trans (reaches_expect name.steady rfl assigned)
  obtain ⟨e, afterValue, valued, read⟩ := bind_eq_ok.mp read
  have placed := yields_within _ places assign.steady valued
  obtain ⟨_, last, eaten, read⟩ := bind_eq_ok.mp read
  obtain ⟨whole, later⟩ := reaches_eat (assign.trans placed.toReaches) rfl eaten
  obtain ⟨_, _, passed, read⟩ := bind_eq_ok.mp read
  obtain ⟨rfl, rfl⟩ := previous_eq_ok.mp passed
  obtain ⟨rfl, rfl⟩ := pure_eq_ok.mp read
  refine placed_of_lined whole (congrArg some whole.merge) ?_ trivial
  exact placed.lined assign.start_le later

theorem returning_placed {value : Rule (Option Expr)} {t : Stmt} (returns : Yields value Returned)
    (steady : c.Steady) (here : c.current.kind = .returnKeyword)
    (read : returning value c = .ok t c') : Placed c (.statement t) c' := by
  unfold returning at read
  obtain ⟨_, afterStart, advanced, read⟩ := bind_eq_ok.mp read
  obtain ⟨rfl, rfl⟩ := advance_eq_ok.mp advanced
  have start := steady.advance (by simp [here])
  obtain ⟨value, afterValue, valued, read⟩ := bind_eq_ok.mp read
  have returned := returns start.steady valued
  obtain ⟨_, last, eaten, read⟩ := bind_eq_ok.mp read
  obtain ⟨_, _, passed, read⟩ := bind_eq_ok.mp read
  obtain ⟨rfl, rfl⟩ := previous_eq_ok.mp passed
  obtain ⟨rfl, rfl⟩ := pure_eq_ok.mp read
  cases value with
  | none =>
      cases returned
      obtain ⟨whole, _⟩ := reaches_eat start rfl eaten
      refine placed_of_lined whole (congrArg some whole.merge) (.nil ?_) trivial
      exact Nat.le_of_lt whole.lt_stop
  | some e =>
      have placed : Placed c.advance (.expression e) afterValue := returned
      obtain ⟨whole, later⟩ := reaches_eat (start.trans placed.toReaches) rfl eaten
      refine placed_of_lined whole (congrArg some whole.merge) ?_ trivial
      exact placed.lined start.start_le later

theorem standing_placed {value : Rule Expr} {t : Stmt} (places : PlacesExpr value)
    (steady : c.Steady) (read : standing value c = .ok t c') : Placed c (.statement t) c' := by
  unfold standing at read
  obtain ⟨e, afterValue, valued, read⟩ := bind_eq_ok.mp read
  have placed := places steady valued
  have span : e.span = c.stretch afterValue := Option.some.inj placed.span
  obtain ⟨ate, last, eaten, read⟩ := bind_eq_ok.mp read
  obtain ⟨whole, later⟩ := reaches_eat placed.toReaches rfl eaten
  have lined : Lined c.current.span.start last.previous.stop [.expression e] :=
    placed.lined (Nat.le_refl _) later
  cases ate with
  | true =>
      obtain ⟨_, _, passed, read⟩ := bind_eq_ok.mp read
      obtain ⟨rfl, rfl⟩ := previous_eq_ok.mp passed
      obtain ⟨rfl, rfl⟩ := pure_eq_ok.mp read
      refine placed_of_lined whole (congrArg some ?_) lined trivial
      change e.span.merge last.previous = _
      rw [span, whole.merge_stretch later]
  | false =>
      obtain ⟨rfl, rfl⟩ := pure_eq_ok.mp read
      rcases reaches_or_stays placed.steady rfl eaten with ⟨ate, _⟩ | ⟨_, rfl⟩
      · cases ate
      · exact placed_of_lined whole (congrArg some span) lined trivial

theorem literal_placed {node : Span → Expr} {e : Expr} (steady : c.Steady)
    (notEnd : c.current.kind ≠ .endOfInput) (read : (do return node (← advance)) c = .ok e c')
    (spanned : ∀ span, (node span).span = span)
    (leaf : ∀ span, (Node.expression (node span)).children = [])
    (literal : ∀ span, (Node.expression (node span)).HoldsLiteral) :
    Placed c (.expression e) c' := by
  obtain ⟨_, _, advanced, read⟩ := bind_eq_ok.mp read
  obtain ⟨rfl, rfl⟩ := advance_eq_ok.mp advanced
  obtain ⟨rfl, rfl⟩ := pure_eq_ok.mp read
  have whole := steady.advance notEnd
  have span : c.current.span = c.stretch c.advance := by
    rw [Cursor.stretch, Cursor.previous_advance notEnd (steady.closed.rest_ne_nil notEnd)]
  refine placed_of_lined whole (congrArg some ((spanned _).trans span)) ?_ (literal _)
  rw [leaf]
  exact .nil (Nat.le_of_lt whole.lt_stop)

theorem unary_placed {operand : Rule Expr} (op : UnaryOp) {e : Expr} (places : PlacesExpr operand)
    (steady : c.Steady) (notEnd : c.current.kind ≠ .endOfInput)
    (read : unary op operand c = .ok e c') : Placed c (.expression e) c' := by
  unfold unary at read
  obtain ⟨_, afterStart, advanced, read⟩ := bind_eq_ok.mp read
  obtain ⟨rfl, rfl⟩ := advance_eq_ok.mp advanced
  have start := steady.advance notEnd
  obtain ⟨inner, last, operated, read⟩ := bind_eq_ok.mp read
  obtain ⟨rfl, rfl⟩ := pure_eq_ok.mp read
  have placed := places start.steady operated
  have span : inner.span = c.advance.stretch last := Option.some.inj placed.span
  refine placed_of_lined (start.trans placed.toReaches) (congrArg some ?_) ?_ trivial
  · change c.current.span.merge inner.span = _
    rw [span, start.merge_since placed.toReaches]
  · exact placed.lined start.start_le (Nat.le_refl _)

theorem grouping_placed {inner : Rule Expr} {e : Expr} (places : PlacesExpr inner)
    (steady : c.Steady) (notEnd : c.current.kind ≠ .endOfInput)
    (read : grouping inner c = .ok e c') : Placed c (.expression e) c' := by
  unfold grouping at read
  obtain ⟨_, afterStart, advanced, read⟩ := bind_eq_ok.mp read
  obtain ⟨rfl, rfl⟩ := advance_eq_ok.mp advanced
  have start := steady.advance notEnd
  obtain ⟨e, close, held, read⟩ := bind_eq_ok.mp read
  have placed := yields_within _ places start.steady held
  obtain ⟨stop, last, closed, read⟩ := bind_eq_ok.mp read
  obtain rfl := previous_expect placed.steady rfl closed
  obtain ⟨rfl, rfl⟩ := pure_eq_ok.mp read
  have finish := reaches_expect placed.steady rfl closed
  have whole := start.trans (placed.toReaches.trans finish)
  have inner : e.span = c.advance.stretch close := Option.some.inj placed.span
  have span : (e.withSpan (c.current.span.merge last.previous)).span = c.stretch last := by
    rw [whole.merge]
    cases e <;> rfl
  refine ⟨whole, congrArg some span, .of_children ?_ ?_⟩
  · rw [whole.merge]
    refine placed.nests.self.withSpan ?_ ?_
    · rw [inner]
      exact start.start_le
    · rw [inner]
      exact finish.previous_le_stop placed.steady
  · rw [Node.children_withSpan]
    exact fun child => placed.nests.child

theorem conditional_placed {condition : Rule Expr} {branch : Rule Block} {e : Expr}
    (tests : PlacesExpr condition) (braces : PlacesBlock branch) (steady : c.Steady)
    (notEnd : c.current.kind ≠ .endOfInput) (read : conditional condition branch c = .ok e c') :
    Placed c (.expression e) c' := by
  unfold conditional at read
  obtain ⟨_, afterStart, advanced, read⟩ := bind_eq_ok.mp read
  obtain ⟨rfl, rfl⟩ := advance_eq_ok.mp advanced
  have start := steady.advance notEnd
  obtain ⟨_, afterOpen, opened, read⟩ := bind_eq_ok.mp read
  have open_ := start.trans (reaches_expect start.steady rfl opened)
  obtain ⟨condition, afterTest, tested, read⟩ := bind_eq_ok.mp read
  have test := yields_within _ tests open_.steady tested
  obtain ⟨_, afterClose, closed, read⟩ := bind_eq_ok.mp read
  have close := reaches_expect test.steady rfl closed
  obtain ⟨consequence, afterBranch, taken, read⟩ := bind_eq_ok.mp read
  have first := braces close.steady taken
  have soFar := open_.trans (test.toReaches.trans (close.trans first.toReaches))
  have behindOpen : c.current.span.start ≤ afterOpen.current.span.start :=
    open_.start_le
  have behindTest : afterTest.previous.stop ≤ afterClose.current.span.start :=
    close.previous_le test.steady
  obtain ⟨ate, afterElse, eaten, read⟩ := bind_eq_ok.mp read
  rcases reaches_or_stays first.steady rfl eaten with ⟨rfl, other⟩ | ⟨rfl, rfl⟩
  · obtain ⟨alternative, last, taken, read⟩ := bind_eq_ok.mp read
    have second := braces other.steady taken
    obtain ⟨_, _, passed, read⟩ := bind_eq_ok.mp read
    obtain ⟨rfl, rfl⟩ := previous_eq_ok.mp passed
    obtain ⟨rfl, rfl⟩ := pure_eq_ok.mp read
    have whole := soFar.trans (other.trans second.toReaches)
    have behindFirst : afterBranch.previous.stop ≤ afterElse.current.span.start :=
      other.previous_le first.steady
    refine placed_of_lined whole (congrArg some whole.merge) ?_ trivial
    exact .cons test behindOpen (.cons first behindTest
      (second.lined behindFirst (Nat.le_refl _)))
  · obtain ⟨_, _, passed, read⟩ := bind_eq_ok.mp read
    obtain ⟨rfl, rfl⟩ := previous_eq_ok.mp passed
    obtain ⟨rfl, rfl⟩ := pure_eq_ok.mp read
    refine placed_of_lined soFar (congrArg some soFar.merge) ?_ trivial
    exact .cons test behindOpen (first.lined behindTest (Nat.le_refl _))

theorem reaches_listed {items : Rule (List α)} {list : List α}
    {holds : Cursor → List α → Cursor → Prop} (steady : c.Steady)
    (empty : c.Reaches c' → holds c [] c') (reads : Yields items holds)
    (read : listed items c = .ok list c') : holds c list c' := by
  unfold listed at read
  obtain ⟨ate, mid, eaten, read⟩ := bind_eq_ok.mp read
  rcases reaches_or_stays steady rfl eaten with ⟨rfl, closing⟩ | ⟨rfl, rfl⟩
  · obtain ⟨rfl, rfl⟩ := pure_eq_ok.mp read
    exact empty closing
  · exact reads steady read

theorem reaches_params (allowance : Nat) (before : List String) :
    Yields (params allowance before) fun c _ c' => c.Reaches c' := by
  induction allowance generalizing before with
  | zero => exact yields_noExpression
  | succ allowance ih =>
      intro c names c' steady read
      unfold params at read
      obtain ⟨name, mid, named, read⟩ := bind_eq_ok.mp read
      have first := reaches_expectName steady named
      obtain ⟨ate, mid, eaten, read⟩ := bind_eq_ok.mp read
      rcases reaches_or_stays first.steady rfl eaten with ⟨rfl, comma⟩ | ⟨rfl, rfl⟩
      · exact (first.trans comma).trans (ih (name :: before) comma.steady read)
      · obtain ⟨_, last, closed, read⟩ := bind_eq_ok.mp read
        obtain ⟨rfl, rfl⟩ := pure_eq_ok.mp read
        exact first.trans (reaches_expect first.steady rfl closed)

theorem function_placed {names : Rule (List String)} {body : Rule Block} {e : Expr}
    (named : Yields names fun c _ c' => c.Reaches c') (braces : PlacesBlock body)
    (steady : c.Steady) (notEnd : c.current.kind ≠ .endOfInput)
    (read : function names body c = .ok e c') : Placed c (.expression e) c' := by
  unfold function at read
  obtain ⟨_, afterStart, advanced, read⟩ := bind_eq_ok.mp read
  obtain ⟨rfl, rfl⟩ := advance_eq_ok.mp advanced
  have start := steady.advance notEnd
  obtain ⟨_, afterOpen, opened, read⟩ := bind_eq_ok.mp read
  have open_ := start.trans (reaches_expect start.steady rfl opened)
  obtain ⟨params, afterParams, held, read⟩ := bind_eq_ok.mp read
  have list := open_.trans (reaches_listed open_.steady id named held)
  obtain ⟨body, last, taken, read⟩ := bind_eq_ok.mp read
  have placed := braces list.steady taken
  obtain ⟨_, _, passed, read⟩ := bind_eq_ok.mp read
  obtain ⟨rfl, rfl⟩ := previous_eq_ok.mp passed
  obtain ⟨rfl, rfl⟩ := pure_eq_ok.mp read
  have whole := list.trans placed.toReaches
  have behind : c.current.span.start ≤ afterParams.current.span.start :=
    list.start_le
  have span : body.span = afterParams.stretch last := Option.some.inj placed.span
  refine placed_of_lined whole (congrArg some whole.merge) (placed.lined behind (Nat.le_refl _)) ?_
  rw [whole.merge]
  refine ⟨Nat.le_refl _, whole.lt_stop, Nat.le_refl _, ?_, ?_⟩
  · rw [span]
    exact behind
  · rw [span]
    exact Nat.le_refl _

/-- All rules with this allowance place what they read. The climbing loop goes on behind an operand
    that was read from an earlier cursor. -/
structure PlacesAt (allowance : Nat) : Prop where
  statement : Yields (statement allowance) fun c t c' => Placed c (.statement t) c'
  returned : Yields (returned allowance) Returned
  block : ∀ construct, PlacesBlock (block allowance construct)
  statements : ∀ before, Yields (statements allowance before) fun c ts c' =>
    (∀ start : Cursor, start.Reaches c → start.Reaches c') ∧ ∃ more, ts = before.reverse ++ more ∧
      Lined c.current.span.start c'.current.span.start (more.map .statement)
  expression : ∀ least, PlacesExpr (expression allowance least)
  continued : ∀ least left, Yields (continued allowance least left) fun c e c' =>
    ∀ start, Placed start (.expression left) c → Placed start (.expression e) c'
  arguments : ∀ before, Yields (arguments allowance before) fun c args c' =>
    c.Reaches c' ∧ ∃ more, args = before.reverse ++ more ∧
      Lined c.current.span.start c'.previous.stop (more.map .expression)
  operand : PlacesExpr (operand allowance)

namespace PlacesAt

variable {allowance : Nat}

theorem zero : PlacesAt 0 where
  statement := yields_noExpression
  returned := yields_noExpression
  block _ := yields_noExpression
  statements _ := yields_noExpression
  expression _ := yields_noExpression
  continued _ _ := yields_noExpression
  arguments _ := yields_noExpression
  operand := yields_noExpression

theorem statement_succ (all : PlacesAt allowance) :
    Yields (Rule.statement (allowance + 1)) fun c t c' => Placed c (.statement t) c' := by
  intro c t c' steady read
  unfold Rule.statement at read
  obtain ⟨_, mid, seen, read⟩ := bind_eq_ok.mp read
  obtain ⟨rfl, rfl⟩ := current_eq_ok.mp seen
  cases here : c.current.kind with
  | letKeyword =>
      simp only [here] at read
      exact binding_placed (all.expression .lowest) steady here read
  | returnKeyword =>
      simp only [here] at read
      exact returning_placed all.returned steady here read
  | _ =>
      simp only [here] at read
      exact standing_placed (all.expression .lowest) steady read

theorem returned_succ (all : PlacesAt allowance) :
    Yields (Rule.returned (allowance + 1)) Returned := by
  intro c value c' steady read
  unfold Rule.returned at read
  obtain ⟨_, mid, seen, read⟩ := bind_eq_ok.mp read
  obtain ⟨rfl, rfl⟩ := current_eq_ok.mp seen
  cases here : c.current.kind with
  | semicolon | rightBrace | endOfInput =>
      simp only [here] at read
      obtain ⟨rfl, rfl⟩ := pure_eq_ok.mp read
      rfl
  | _ =>
      simp only [here] at read
      obtain ⟨e, mid, valued, read⟩ := bind_eq_ok.mp read
      obtain ⟨rfl, rfl⟩ := pure_eq_ok.mp read
      exact yields_within _ (all.expression .lowest) steady valued

theorem block_succ (all : PlacesAt allowance) (construct : Construct) :
    PlacesBlock (Rule.block (allowance + 1) construct) := by
  intro c b c' steady read
  unfold Rule.block at read
  obtain ⟨start, afterOpen, opened, read⟩ := bind_eq_ok.mp read
  obtain ⟨⟨-, rfl⟩, -⟩ := (expect_eq_ok rfl).mp opened
  have open_ := reaches_expect steady rfl opened
  obtain ⟨ts, afterInner, held, read⟩ := bind_eq_ok.mp read
  obtain ⟨later, more, rfl, lined⟩ := all.statements [] open_.steady held
  have inner := later c open_
  obtain ⟨stop, last, closed, read⟩ := bind_eq_ok.mp read
  obtain rfl := previous_expect inner.steady rfl closed
  obtain ⟨rfl, rfl⟩ := pure_eq_ok.mp read
  have close := reaches_expect inner.steady rfl closed
  have whole := inner.trans close
  refine placed_of_lined whole (congrArg some whole.merge) ?_ trivial
  exact lined.widen open_.start_le (Nat.le_of_lt close.lt_stop)

theorem statements_succ (all : PlacesAt allowance) (before : List Stmt) :
    Yields (Rule.statements (allowance + 1) before) fun c ts c' =>
      (∀ start : Cursor, start.Reaches c → start.Reaches c') ∧
        ∃ more, ts = before.reverse ++ more ∧
          Lined c.current.span.start c'.current.span.start (more.map .statement) := by
  intro c ts c' steady read
  unfold Rule.statements at read
  obtain ⟨_, mid, seen, read⟩ := bind_eq_ok.mp read
  obtain ⟨rfl, rfl⟩ := current_eq_ok.mp seen
  cases here : c.current.kind with
  | rightBrace | endOfInput =>
      simp only [here] at read
      obtain ⟨rfl, rfl⟩ := pure_eq_ok.mp read
      exact ⟨fun _ => id, [], by simp, .nil (Nat.le_refl _)⟩
  | _ =>
      simp only [here] at read
      obtain ⟨t, mid, first, read⟩ := bind_eq_ok.mp read
      have placed := all.statement steady first
      obtain ⟨later, more, rfl, lined⟩ := all.statements (t :: before) placed.steady read
      refine ⟨fun start reaches => later start (reaches.trans placed.toReaches), t :: more, by simp,
        ?_⟩
      exact .cons placed (Nat.le_refl _) (lined.widen placed.steady.behind (Nat.le_refl _))

theorem expression_succ (all : PlacesAt allowance) (least : Precedence) :
    PlacesExpr (Rule.expression (allowance + 1) least) := by
  intro c e c' steady read
  unfold Rule.expression at read
  obtain ⟨first, mid, opened, read⟩ := bind_eq_ok.mp read
  have placed := all.operand steady opened
  exact all.continued least first placed.steady read c placed

theorem binary_round {start c afterOp c' : Cursor} {op : BinaryOp} {left right : Expr}
    (first : Placed start (.expression left) c) (operator : c.Reaches afterOp)
    (second : Placed afterOp (.expression right) c') :
    Placed start (.expression (.binary (left.span.merge right.span) op left right)) c' := by
  have whole := first.toReaches.trans (operator.trans second.toReaches)
  have between : c.previous.stop ≤ afterOp.current.span.start :=
    operator.previous_le first.steady
  have spanLeft : left.span = start.stretch c := Option.some.inj first.span
  have spanRight : right.span = afterOp.stretch c' := Option.some.inj second.span
  have begins : (start.stretch c).start ≤ (afterOp.stretch c').start :=
    Nat.le_trans (Nat.le_of_lt first.lt_stop) between
  have ends : (start.stretch c).stop ≤ (afterOp.stretch c').stop :=
    Nat.le_trans between (Nat.le_of_lt second.lt_stop)
  refine placed_of_lined whole (congrArg some ?_)
    (.cons first (Nat.le_refl _) (second.lined between (Nat.le_refl _))) trivial
  change left.span.merge right.span = _
  rw [spanLeft, spanRight]
  exact Span.merge_of_le begins ends

theorem call_round {start c afterOpen c' : Cursor} {left : Expr} {args : List Expr}
    (first : Placed start (.expression left) c) (opening : c.Reaches afterOpen)
    (closes : Closes afterOpen args c') :
    Placed start (.expression (.call (left.span.merge c'.previous) left args)) c' := by
  obtain ⟨rest, lined⟩ := closes
  have list := opening.trans rest
  have whole := first.toReaches.trans list
  have behind : c.previous.stop ≤ afterOpen.current.span.start :=
    opening.previous_le first.steady
  have later : c.previous.stop ≤ c'.previous.stop :=
    Nat.le_trans behind (Nat.le_of_lt rest.lt_stop)
  have span : left.span = start.stretch c := Option.some.inj first.span
  refine placed_of_lined whole (congrArg some ?_)
    (.cons first (Nat.le_refl _) (lined.widen behind (Nat.le_refl _))) trivial
  change left.span.merge c'.previous = _
  rw [span, whole.merge_stretch later]

theorem continued_succ (all : PlacesAt allowance) (least : Precedence) (left : Expr) :
    Yields (Rule.continued (allowance + 1) least left) fun c e c' =>
      ∀ start, Placed start (.expression left) c → Placed start (.expression e) c' := by
  intro c e c' steady read start first
  unfold Rule.continued at read
  obtain ⟨_, mid, seen, read⟩ := bind_eq_ok.mp read
  obtain ⟨rfl, rfl⟩ := current_eq_ok.mp seen
  by_cases binds : least < c.current.kind.precedence
  · have notEnd := TokenKind.ne_end_of_binds binds
    simp only [binds, if_true] at read
    have next := steady.advance notEnd
    cases operator : c.current.kind.binaryOp? with
    | none =>
        simp only [operator] at read
        obtain ⟨_, afterOpen, advanced, read⟩ := bind_eq_ok.mp read
        obtain ⟨-, rfl⟩ := advance_eq_ok.mp advanced
        obtain ⟨args, afterArgs, held, read⟩ := bind_eq_ok.mp read
        have items : Yields (Rule.arguments allowance []) Closes := by
          intro c args c' steady read
          obtain ⟨reaches, more, rfl, lined⟩ := all.arguments [] steady read
          exact ⟨reaches, lined⟩
        have closes : Closes c.advance args afterArgs := by
          refine reaches_listed next.steady (fun closing => ⟨closing, .nil ?_⟩) items held
          exact Nat.le_of_lt closing.lt_stop
        obtain ⟨_, _, passed, read⟩ := bind_eq_ok.mp read
        obtain ⟨rfl, rfl⟩ := previous_eq_ok.mp passed
        exact all.continued least _ closes.1.steady read start (call_round first next closes)
    | some op =>
        simp only [operator] at read
        obtain ⟨_, afterOp, advanced, read⟩ := bind_eq_ok.mp read
        obtain ⟨-, rfl⟩ := advance_eq_ok.mp advanced
        obtain ⟨right, afterRight, second, read⟩ := bind_eq_ok.mp read
        have placed := all.expression op.precedence next.steady second
        exact all.continued least _ placed.steady read start (binary_round first next placed)
  · simp only [binds, if_false] at read
    obtain ⟨rfl, rfl⟩ := pure_eq_ok.mp read
    exact first

theorem arguments_succ (all : PlacesAt allowance) (before : List Expr) :
    Yields (Rule.arguments (allowance + 1) before) fun c args c' =>
      c.Reaches c' ∧ ∃ more, args = before.reverse ++ more ∧
        Lined c.current.span.start c'.previous.stop (more.map .expression) := by
  intro c args c' steady read
  unfold Rule.arguments at read
  obtain ⟨arg, afterArg, held, read⟩ := bind_eq_ok.mp read
  have placed := yields_within _ (all.expression .lowest) steady held
  obtain ⟨ate, mid, eaten, read⟩ := bind_eq_ok.mp read
  rcases reaches_or_stays placed.steady rfl eaten with ⟨rfl, comma⟩ | ⟨rfl, rfl⟩
  · obtain ⟨reaches, more, rfl, lined⟩ := all.arguments (arg :: before) comma.steady read
    have between : afterArg.previous.stop ≤ mid.current.span.start :=
      comma.previous_le placed.steady
    refine ⟨placed.toReaches.trans (comma.trans reaches), arg :: more, by simp, ?_⟩
    exact .cons placed (Nat.le_refl _) (lined.widen between (Nat.le_refl _))
  · obtain ⟨_, last, closed, read⟩ := bind_eq_ok.mp read
    obtain ⟨rfl, rfl⟩ := pure_eq_ok.mp read
    have close := reaches_expect placed.steady rfl closed
    have later : afterArg.previous.stop ≤ last.previous.stop :=
      close.previous_le_stop placed.steady
    exact ⟨placed.toReaches.trans close, [arg], by simp, placed.lined (Nat.le_refl _) later⟩

theorem operand_succ (all : PlacesAt allowance) : PlacesExpr (Rule.operand (allowance + 1)) := by
  intro c e c' steady read
  obtain ⟨_, mid, seen, read⟩ := bind_eq_ok.mp read
  obtain ⟨rfl, rfl⟩ := current_eq_ok.mp seen
  cases here : c.current.kind with
  | ident | int | trueKeyword | falseKeyword =>
      simp only [here] at read
      exact literal_placed steady (by simp [here]) read (fun _ => rfl) (fun _ => rfl)
        fun _ => trivial
  | bang =>
      simp only [here] at read
      exact unary_placed .not (all.expression .unary) steady (by simp [here]) read
  | minus =>
      simp only [here] at read
      exact unary_placed .neg (all.expression .unary) steady (by simp [here]) read
  | leftParen =>
      simp only [here] at read
      exact grouping_placed (all.expression .lowest) steady (by simp [here]) read
  | ifKeyword =>
      simp only [here] at read
      exact conditional_placed (all.expression .lowest) (all.block _) steady (by simp [here]) read
  | fnKeyword =>
      simp only [here] at read
      exact function_placed (reaches_params allowance []) (all.block _) steady (by simp [here]) read
  | _ =>
      simp only [here] at read
      exact absurd read noExpression_ne_ok

theorem succ (all : PlacesAt allowance) : PlacesAt (allowance + 1) where
  statement := all.statement_succ
  returned := all.returned_succ
  block := all.block_succ
  statements := all.statements_succ
  expression := all.expression_succ
  continued := all.continued_succ
  arguments := all.arguments_succ
  operand := all.operand_succ

end PlacesAt

/-- Whatever the allowance, the rules place what they read. -/
theorem placesAt (allowance : Nat) : PlacesAt allowance := by
  induction allowance with
  | zero => exact .zero
  | succ allowance ih => exact ih.succ

end Rule

section Programs

variable {c c' : Cursor} {ts : List Token} {text : String} {source : String} {p : Program}

theorem Cursor.Reads.lined {ts : List Stmt} (reads : c.Reads ts c') (steady : c.Steady) :
    Lined c.current.span.start c'.current.span.start (ts.map .statement) := by
  induction reads with
  | nil => exact .nil (Nat.le_refl _)
  | cons read _ ih =>
      have placed := (Rule.placesAt _).statement steady read
      have rest := ih placed.steady
      exact .cons placed (Nat.le_refl _) (rest.widen placed.steady.behind (Nat.le_refl _))

theorem Cursor.steady_start (cut : lexemes 0 text.toList = ts.map Token.lexeme) :
    (Cursor.start ts (endMarker 0 text)).Steady := by
  have noEnd := noEnd_of_lexemes cut
  have inside := (lexemes_ordered 0 text.toList).1
  rw [cut, List.forall_mem_map, byteSize_toList] at inside
  have ordered := ordered_of_lexemes cut
  constructor
  case closed => exact ⟨_, Cursor.start_shows noEnd⟩
  case ordered =>
    rw [Cursor.tokens_start]
    constructor
    case forward =>
      refine List.forall_mem_append.mpr ⟨ordered.forward, ?_⟩
      exact List.forall_mem_singleton.mpr (Nat.le_refl _)
    case apart =>
      refine List.pairwise_append.mpr ⟨ordered.apart, List.pairwise_singleton _ _, ?_⟩
      intro t member _ last
      rw [List.mem_singleton.mp last]
      exact (inside t member).2.2
  case solid =>
    rw [Cursor.tokens_start]
    refine List.forall_mem_append.mpr ⟨fun t member _ => (inside t member).2.1, ?_⟩
    exact List.forall_mem_singleton.mpr fun notEnd => absurd rfl notEnd
  case behind =>
    have nothing : (Cursor.start ts (endMarker 0 text)).previous = .zero := by cases ts <;> rfl
    rw [nothing]
    exact Nat.zero_le _

/-- The statements of a program stand in a row from the start of the source to its end. -/
theorem lined_of_parse (parsed : parse source = .ok p) :
    Lined 0 source.utf8ByteSize (p.statements.map .statement) := by
  obtain ⟨_, ts, cut, parsed⟩ := parse_eq_ok_iff.mp parsed
  have noEnd := noEnd_of_lexemes cut
  obtain ⟨c', reads, ended⟩ := exists_reads_of_parseTokens noEnd parsed
  have lined := reads.lined (Cursor.steady_start cut)
  -- The last cursor stands on the end marker.
  obtain ⟨u, first, _⟩ := reads.repeats ⟨_, Cursor.start_shows noEnd⟩
  obtain ⟨last, whole, here, _⟩ := Cursor.exists_passes noEnd (Cursor.tokens_start ts _)
  obtain ⟨_, rfl⟩ := first.unique whole ended (by rw [here])
  rw [here] at lined
  exact lined.widen (Nat.zero_le _) (Nat.le_of_eq (Nat.zero_add _))

end Programs

/-- The spans of a parsed tree nest and follow the source. Take any node of a program. If it is a
    statement, an expression or a block, its span is not empty and lies in the source, and the spans
    of its children lie in it. The children of a node, operands and branches and arguments as well as
    the statements of a list, stand one behind the other in the order of the source. And the literal
    of a function is not empty, lies in the span of its expression and holds the body. -/
theorem spans_nest {source : String} {p : Program} (parsed : parse source = .ok p) {node : Node}
    (within : Node.Within node (.program p)) :
    (∀ s ∈ node.span?, s.start < s.stop ∧ s.stop ≤ source.utf8ByteSize ∧
      ∀ child ∈ node.children, ∀ inner ∈ child.span?,
        s.start ≤ inner.start ∧ inner.stop ≤ s.stop) ∧
    (node.children.Pairwise fun a b => ∀ s ∈ a.span?, ∀ t ∈ b.span?, s.stop ≤ t.start) ∧
    node.HoldsLiteral := by
  have lined := lined_of_parse parsed
  rcases Relation.ReflTransGen.cases_tail within with rfl | ⟨outer, inside, member⟩
  · exact ⟨nofun, lined.row.apart, trivial⟩
  · have all := lined.nests outer member
    obtain ⟨range, ranged, _, solid, fits⟩ := lined.row.inside outer member
    obtain ⟨t, spanned, solidHere, _, stop⟩ := all.span_within ranged solid inside
    have nests : node.Nests := all node inside
    have row := nests.row t spanned
    refine ⟨fun s found => ?_, row.apart, nests.literal⟩
    cases spanned.symm.trans found
    refine ⟨solidHere, Nat.le_trans stop fits, fun child member inner innerSpan => ?_⟩
    obtain ⟨u, same, start, _, ends⟩ := row.inside child member
    cases same.symm.trans innerSpan
    exact ⟨start, ends⟩

/-- In `(fn(x){x})(1)` the parentheses widen the span of the callee and not that of its literal, and
    the argument stands behind both. -/
theorem spans_nest_callee :
    let body : Block := .mk ⟨6, 9⟩ [.expr ⟨7, 8⟩ (.ident ⟨7, 8⟩ "x")]
    let callee : Expr := .fn ⟨0, 10⟩ ⟨1, 9⟩ ["x"] body
    let call : Expr := .call ⟨0, 13⟩ callee [.int ⟨11, 12⟩ 1]
    parse "(fn(x){x})(1)" = .ok ⟨[.expr ⟨0, 13⟩ call]⟩ ∧
      Node.HoldsLiteral (.expression callee) ∧
      (Node.expression call).children.Pairwise
        fun a b => ∀ s ∈ a.span?, ∀ t ∈ b.span?, s.stop ≤ t.start := by
  intro body callee call
  have lexed : lex "(fn(x){x})(1)" = .ok [⟨.leftParen, ⟨0, 1⟩⟩, ⟨.fnKeyword, ⟨1, 3⟩⟩,
      ⟨.leftParen, ⟨3, 4⟩⟩, ⟨.ident "x", ⟨4, 5⟩⟩, ⟨.rightParen, ⟨5, 6⟩⟩, ⟨.leftBrace, ⟨6, 7⟩⟩,
      ⟨.ident "x", ⟨7, 8⟩⟩, ⟨.rightBrace, ⟨8, 9⟩⟩, ⟨.rightParen, ⟨9, 10⟩⟩, ⟨.leftParen, ⟨10, 11⟩⟩,
      ⟨.int 1, ⟨11, 12⟩⟩, ⟨.rightParen, ⟨12, 13⟩⟩, ⟨.endOfInput, ⟨13, 13⟩⟩] := by
    decide +kernel
  have parsed : parse "(fn(x){x})(1)" = .ok ⟨[.expr ⟨0, 13⟩ call]⟩ := by
    rw [parse, lexed]
    rfl
  have whole : Node.Within (.expression call) (.program ⟨[.expr ⟨0, 13⟩ call]⟩) :=
    .tail (.tail .refl List.mem_cons_self) List.mem_cons_self
  have part : Node.Within (.expression callee) (.program ⟨[.expr ⟨0, 13⟩ call]⟩) :=
    .head List.mem_cons_self whole
  exact ⟨parsed, (spans_nest parsed part).2.2, (spans_nest parsed whole).2.1⟩

end TreeWalk
