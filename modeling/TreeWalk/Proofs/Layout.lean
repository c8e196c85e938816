import TreeWalk.Proofs.Completeness
import TreeWalk.Proofs.Parts
import TreeWalk.Proofs.Replay
import TreeWalk.Proofs.Soundness

/-! # Which tokens a node is read from

Every expression and every statement in a tree is read from a stretch of the tokens. Its span
reaches from the first of them to the last, and the stretch alone is read as the same node.

An expression may be the left operand of another one, built in the middle of the climbing loop. So
it is not said to be read but to be climbed: after some rounds at the lowest precedence the loop
stands behind it with the expression as its left operand, wherever the loop was when it was built.
-/

namespace TreeWalk

/-- The tokens stand one behind the other. -/
structure Ordered (u : List Token) : Prop where
  forward : ∀ t ∈ u, t.span.start ≤ t.span.stop
  apart : u.Pairwise fun t s => t.span.stop ≤ s.span.start

def cover (u : List Token) : Span :=
  ⟨(u.head?.elim 0 fun t => t.span.start), (u.getLast?.elim 0 fun t => t.span.stop)⟩

/-- The last token is no semicolon. -/
def Ended (u : List Token) : Prop := ∀ t ∈ u.getLast?, t.kind ≠ .semicolon

section Stretches

variable {u v w : List Token} {t s : Token}

theorem Ordered.within (ordered : Ordered u) (inside : v <:+: u) : Ordered v where
  forward t member := ordered.forward t (inside.mem member)
  apart := ordered.apart.sublist inside.sublist

theorem Ordered.head_le (ordered : Ordered u) (first : u.head? = some t) (member : s ∈ u) :
    t.span.start ≤ s.span.start := by
  obtain ⟨u, rfl⟩ := List.head?_eq_some_iff.mp first
  rcases List.mem_cons.mp member with rfl | later
  · exact Nat.le_refl _
  · exact Nat.le_trans (ordered.forward t List.mem_cons_self)
      (List.rel_of_pairwise_cons ordered.apart later)

theorem Ordered.le_last (ordered : Ordered u) (last : u.getLast? = some t) (member : s ∈ u) :
    s.span.stop ≤ t.span.stop := by
  obtain ⟨u, rfl⟩ := List.getLast?_eq_some_iff.mp last
  rcases List.mem_append.mp member with earlier | here
  · have apart := (List.pairwise_append.mp ordered.apart).2.2 s earlier t (by simp)
    exact Nat.le_trans apart (ordered.forward t (by simp))
  · exact Nat.le_of_eq (by rw [List.mem_singleton.mp here])

@[simp] theorem cover_one (t : Token) : cover [t] = t.span := rfl

theorem merge_cover (ordered : Ordered u) (first : v <+: u) (last : w <:+ u) (someFirst : v ≠ [])
    (someLast : w ≠ []) : (cover v).merge (cover w) = cover u := by
  obtain ⟨t, head⟩ := Option.isSome_iff_exists.mp (List.isSome_head?.mpr someFirst)
  obtain ⟨t', tail⟩ := Option.isSome_iff_exists.mp (List.getLast?_isSome.mpr someFirst)
  obtain ⟨s, head'⟩ := Option.isSome_iff_exists.mp (List.isSome_head?.mpr someLast)
  obtain ⟨s', tail'⟩ := Option.isSome_iff_exists.mp (List.getLast?_isSome.mpr someLast)
  have begins : u.head? = some t := by
    obtain ⟨more, rfl⟩ := first
    rw [List.head?_append, head, Option.some_or]
  have ends : u.getLast? = some s' := by
    obtain ⟨before, rfl⟩ := last
    rw [List.getLast?_append, tail', Option.some_or]
  have start := ordered.head_le begins (last.mem (List.mem_of_head? head'))
  have stop := ordered.le_last ends (first.mem (List.mem_of_getLast? tail))
  simp [cover, Span.merge, head, tail, head', tail', begins, ends, start, stop]

theorem ended_one (other : t.kind ≠ .semicolon) : Ended [t] := by
  simpa [Ended] using other

theorem ended_append (nonempty : v ≠ []) (ended : Ended v) : Ended (u ++ v) := by
  obtain ⟨t, last⟩ := Option.isSome_iff_exists.mp (List.getLast?_isSome.mpr nonempty)
  intro s found
  rw [List.getLast?_append, last, Option.some_or] at found
  exact ended s (last.trans found)

end Stretches

namespace Rule

/-- The rules read `a` from these tokens alone, given enough steps. -/
def ReadsAlone (rules : Nat → Rule α) (u : List Token) (a : α) : Prop :=
  ∃ need, ∀ ⦃n d d'⦄, need ≤ n → d.Passes u d' → d'.current.kind = .endOfInput →
    rules n d = .ok a d'

/-- The statement is read from just these tokens, and its span covers them. -/
structure Spelled (u : List Token) (t : Stmt) : Prop where
  nonempty : u ≠ []
  spanned : Ordered u → t.span = cover u
  alone : ReadsAlone statement u t

end Rule

open Rule (Spelled)

namespace Node

/-- An expression or a statement, as a statement. -/
def statement? : Node → Option Stmt
  | .expression e => some (.expr e.span e)
  | .statement t => some t
  | _ => none

/-- Every expression and every statement within the node is read from a stretch of the tokens. -/
def Laid (u : List Token) (node : Node) : Prop :=
  ∀ inner, Within inner node → ∀ t ∈ inner.statement?, ∃ v, v <:+: u ∧ Spelled v t

variable {u v : List Token} {node : Node}

theorem Laid.widen (laid : Laid v node) (inside : v <:+: u) : Laid u node := by
  intro inner within t found
  obtain ⟨w, stretch, spelled⟩ := laid inner within t found
  exact ⟨w, stretch.trans inside, spelled⟩

theorem laid_of_children (here : ∀ t ∈ node.statement?, Spelled u t)
    (below : ∀ child ∈ node.children, Laid u child) : Laid u node := by
  intro inner within t found
  rcases Relation.ReflTransGen.cases_tail within with rfl | ⟨child, inside, member⟩
  · exact ⟨u, List.infix_refl u, here t found⟩
  · exact below child member inner inside t found

theorem children_withSpan (e : Expr) (span : Span) :
    (Node.expression (e.withSpan span)).children = (Node.expression e).children := by
  cases e <;> rfl

end Node

open Node (Laid laid_of_children)

theorem Cursor.Passes.closed_of_end {d d' : Cursor} {u : List Token} (passes : d.Passes u d')
    (ended : d'.current.kind = .endOfInput) : d.Closed := by
  induction passes with
  | nil => exact ⟨[], ended⟩
  | cons here notEnd _ _ ih =>
      obtain ⟨kinds, shows⟩ := ih ended
      exact ⟨_ :: kinds, rfl, here ▸ notEnd, shows⟩

namespace Rule

/-- Reading the tokens at the lowest precedence comes to stand behind them with `e` as the left
    operand of the loop, and with as many steps left as wanted, if they are followed as at `c'`. -/
def ClimbsTo (u : List Token) (e : Expr) (c' : Cursor) : Prop :=
  ∀ spare, ∃ need, ∀ ⦃n d d'⦄, need ≤ n → d.Closed → d.Passes u d' → c'.Meets d' →
    ∃ spared, spare ≤ spared ∧ expression n .lowest d = continued spared .lowest e d'

/-- An expression, as a node over the tokens that it was read from. -/
structure Formed (u : List Token) (e : Expr) : Prop where
  nonempty : u ≠ []
  ended : Ended u
  spanned : Ordered u → e.span = cover u
  below : ∀ child ∈ (Node.expression e).children, Laid u child

/-- An expression that has been read up to the cursor. -/
structure Shaped (u : List Token) (e : Expr) (c' : Cursor) : Prop extends Formed u e where
  climbs : ClimbsTo u e c'

variable {known : Prop} {allowance : Nat} {c : Cursor}

theorem starts_of_expression {n : Nat} {d d' : Cursor} {e : Expr} (closed : d.Closed)
    (read : expression n .lowest d = .ok e d') :
    Grammar.startsExpression d.current.kind = true := by
  obtain ⟨kinds, shows⟩ := closed
  obtain ⟨_, _, whole⟩ := (soundAt n).expression .lowest (by decide) shows read
  rw [shows.current]
  exact whole.lowest.starts

/-- An expression that is climbed is read from its tokens alone, as a statement too. -/
theorem Shaped.readsAlone {u : List Token} {e : Expr} {c' : Cursor} (shaped : Shaped u e c') :
    ReadsAlone statement u (.expr e.span e) := by
  obtain ⟨need, climbs⟩ := shaped.climbs 1
  refine ⟨need + 1, ?_⟩
  intro n d d' enough passes ended
  obtain ⟨n, rfl, left⟩ := exists_step enough
  have closed := passes.closed_of_end ended
  obtain ⟨spared, spare, read⟩ := climbs left closed passes (.inr ended)
  obtain ⟨spared, rfl, _⟩ := exists_step spare
  have shows : d'.Shows [] := ended
  rw [continued_stop shows (by decide)] at read
  have starts := starts_of_expression closed read
  have uneaten : eat .semicolon d' = .ok false d' :=
    (eat_eq_ok rfl).mpr (.inr ⟨by simp [ended], rfl, rfl⟩)
  have standing : standing (expression n .lowest) d = .ok (.expr e.span e) d' := by
    unfold Rule.standing
    rw [bind_of_ok read, bind_of_ok uneaten]
    rfl
  rw [statement, bind_of_ok current_ok]
  cases here : d.current.kind with
  | letKeyword | returnKeyword =>
      rw [here] at starts
      cases starts
  | _ => exact standing

theorem Shaped.laid {u : List Token} {e : Expr} {c' : Cursor} (shaped : Shaped u e c') :
    Laid u (.expression e) := by
  refine laid_of_children ?_ shaped.below
  rintro t ⟨⟩
  exact ⟨shaped.nonempty, shaped.spanned, shaped.readsAlone⟩

/-- One more round of the loop climbs to what the round makes of its left operand. -/
theorem ClimbsTo.round {kind : TokenKind} {left e : Expr} {v w : List Token} {c' : Cursor}
    (allowance : Nat) (climbs : ClimbsTo w left c) (here : c.current.kind = kind)
    (notEnd : kind ≠ .endOfInput)
    (step : ∀ ⦃spared d d' rest⦄, allowance ≤ spared → d.Shows (kind :: rest) →
      d.Passes ([c.current] ++ v) d' → c'.Meets d' →
      continued (spared + 1) .lowest left d = continued spared .lowest e d') :
    ClimbsTo (w ++ ([c.current] ++ v)) e c' := by
  intro spare
  obtain ⟨need, climbs⟩ := climbs (max allowance spare + 1)
  refine ⟨need, ?_⟩
  intro n d d' enough closed again meets
  obtain ⟨mid, begun, again⟩ := again.split
  obtain ⟨spared, spare, read⟩ := climbs enough closed begun (.inl (by rw [again.current]))
  obtain ⟨spared, rfl, left⟩ := exists_step spare
  have same : mid.current.kind = kind := by rw [again.current, here]
  obtain ⟨kinds, shows⟩ := begun.closed closed
  obtain ⟨rest, rfl, _⟩ := shows.exists_cons same notEnd
  exact ⟨spared, by omega, read.trans (step (by omega) shows again meets)⟩

theorem merge_ends {u : List Token} {c' : Cursor} (passes : c.Passes u c') (nonempty : u ≠ [])
    (ordered : Ordered u) : c.current.span.merge c'.previous = cover u := by
  obtain ⟨t, last⟩ := Option.isSome_iff_exists.mp (List.getLast?_isSome.mpr nonempty)
  obtain ⟨s, u, rfl⟩ := List.exists_cons_of_ne_nil nonempty
  obtain ⟨before, split⟩ := List.getLast?_eq_some_iff.mp last
  have ends : [t] <:+ s :: u := ⟨before, split.symm⟩
  rw [passes.current, passes.previous t last, ← cover_one s, ← cover_one t]
  exact merge_cover ordered ⟨u, rfl⟩ ends (by simp) (by simp)

/-- A form that takes its span from the token at the cursor to the last one. The last one is known
    only when all has been read. -/
theorem repeats_formed {looks : List Token → Prop} {rules : Nat → Rule Expr}
    (held : Repeats known looks allowance rules c fun u e c' =>
      u ≠ [] ∧ Ended u ∧ e.span = c.current.span.merge c'.previous ∧
        ∀ child ∈ (Node.expression e).children, Laid u child) :
    Repeats known looks allowance rules c fun u e _ => Formed u e := by
  refine held.imp ?_
  rintro u e c' passes _ ⟨nonempty, ended, span, below⟩
  exact ⟨nonempty, ended, fun ordered => span.trans (merge_ends passes nonempty ordered), below⟩

theorem repeats_literal {node : Span → Expr}
    (starts : Grammar.startsExpression c.current.kind = true)
    (spanned : ∀ span, (node span).span = span)
    (leaf : ∀ span, (Node.expression (node span)).children = []) :
    Repeats known Looks allowance (fun _ => do return node (← advance)) c fun u e _ =>
      Formed u e := by
  have notEnd : c.current.kind ≠ .endOfInput := by
    intro ended
    rw [ended] at starts
    cases starts
  have other : c.current.kind ≠ .semicolon := by
    intro ended
    rw [ended] at starts
    cases starts
  refine (repeats_advance notEnd).bind ?_
  rintro _ _ mid _ ⟨rfl, rfl⟩
  refine ⟨trivial, repeats_pure ⟨by simp, ended_one other, fun _ => spanned _, ?_⟩⟩
  rw [leaf]
  simp

theorem repeats_unary {operand : Nat → Rule Expr} (op : UnaryOp)
    (notEnd : c.current.kind ≠ .endOfInput)
    (reads : ∀ known mid, Repeats known Looks allowance operand mid Shaped) :
    Repeats known Looks allowance (fun n => unary op (operand n)) c fun u e _ => Formed u e := by
  refine (repeats_advance notEnd).bind ?_
  rintro _ _ mid _ ⟨rfl, rfl⟩
  refine ⟨trivial, (reads _ mid).bind ?_⟩
  intro v e c' _ shaped
  have last : v <:+ c.current :: v := List.suffix_cons _ v
  refine ⟨trivial, repeats_pure ?_⟩
  rw [List.append_nil]
  refine ⟨by simp, ended_append shaped.nonempty shaped.ended, ?_, ?_⟩
  · intro ordered
    rw [← merge_cover ordered ⟨v, rfl⟩ last (by simp) shaped.nonempty,
      ← shaped.spanned (ordered.within last.isInfix)]
    rfl
  · rintro child member
    rw [List.mem_singleton.mp member]
    exact shaped.laid.widen last.isInfix

theorem repeats_grouping {inner : Nat → Rule Expr} (notEnd : c.current.kind ≠ .endOfInput)
    (reads : ∀ known mid, Repeats known Looks allowance inner mid Shaped) :
    Repeats known Looks allowance (fun n => grouping (inner n)) c fun u e _ => Formed u e := by
  refine (repeats_advance notEnd).bind ?_
  rintro _ _ mid _ ⟨rfl, rfl⟩
  refine ⟨trivial, (repeats_within .grouping (reads _ mid)).bind ?_⟩
  intro v e close _ shaped
  refine ⟨trivial, (repeats_expect .grouping rfl).bind ?_⟩
  rintro _ _ c' _ ⟨rfl, here, rfl⟩
  have last : [close.current] <:+ [c.current] ++ (v ++ [close.current]) :=
    (List.suffix_append _ _).trans (List.suffix_append _ _)
  refine ⟨trivial, repeats_pure ?_⟩
  rw [List.append_nil]
  refine ⟨by simp, ?_, ?_, ?_⟩
  · exact ended_append (by simp) (ended_append (by simp) (ended_one (by simp [here])))
  · intro ordered
    rw [← merge_cover ordered ⟨_, rfl⟩ last (by simp) (by simp)]
    cases e <;> rfl
  · intro child member
    rw [Node.children_withSpan] at member
    exact (shaped.below child member).widen ⟨[c.current], [close.current], by simp⟩

theorem repeats_listed {items : Nat → Rule (List α)} {holds : List Token → List α → Prop}
    (closing : ∀ t, t.kind = .rightParen → holds [t] [])
    (reads : ∀ known, Repeats known Looks allowance items c fun u list _ => holds u list) :
    Repeats known Looks allowance (fun n => listed (items n)) c fun u list _ => holds u list := by
  refine (repeats_eat rfl).looking.bind ?_
  rintro _ _ mid _ (⟨rfl, rfl, here⟩ | ⟨rfl, rfl, rfl⟩)
  · exact ⟨trivial, repeats_pure (closing _ here)⟩
  · exact ⟨trivial, reads _⟩

theorem repeats_params (read : List String) :
    Repeats known Looks allowance (params · read) c fun u _ _ => u ≠ [] := by
  induction allowance generalizing known c read with
  | zero => exact repeats_nothing rfl
  | succ allowance ih =>
      refine Repeats.step ?_ fun n => by rw [params]
      refine (repeats_expectName _).bind ?_
      rintro _ name mid _ ⟨rfl, _⟩
      refine ⟨trivial, (repeats_eat rfl).looking.bind ?_⟩
      rintro _ _ close _ (⟨rfl, rfl, _⟩ | ⟨rfl, rfl, rfl⟩)
      · exact ⟨trivial, (ih (name :: read)).imp fun _ _ _ _ _ _ => by simp⟩
      · refine ⟨trivial, (repeats_expect _ rfl).bind ?_⟩
        rintro _ _ c' _ ⟨rfl, _⟩
        exact ⟨trivial, repeats_pure (by simp)⟩

structure Bracketed (u : List Token) (b : Block) : Prop where
  nonempty : u ≠ []
  ended : Ended u
  laid : Laid u (.block b)

theorem repeats_function {names : Nat → Rule (List String)} {body : Nat → Rule Block}
    (notEnd : c.current.kind ≠ .endOfInput)
    (named : ∀ known mid, Repeats known Looks allowance names mid fun u _ _ => u ≠ [])
    (braced : ∀ known mid, Repeats known Looks allowance body mid fun u b _ => Bracketed u b) :
    Repeats known Looks allowance (fun n => function (names n) (body n)) c fun u e _ =>
      Formed u e := by
  refine repeats_formed ((repeats_advance notEnd).bind ?_)
  rintro _ _ afterStart _ ⟨rfl, rfl⟩
  refine ⟨trivial, (repeats_expect _ rfl).bind ?_⟩
  rintro _ _ afterOpen _ ⟨rfl, _, rfl⟩
  refine ⟨trivial, (repeats_listed (by simp) fun _ => named _ afterOpen).bind ?_⟩
  intro v params afterNames _ someNames
  refine ⟨trivial, (braced _ afterNames).bind ?_⟩
  intro w b c' _ bracketed
  refine ⟨trivial, (repeats_previous (by simp)).looking.bind ?_⟩
  rintro _ _ _ _ ⟨rfl, rfl, rfl⟩
  refine ⟨trivial, repeats_pure ?_⟩
  have last : w <:+ [c.current] ++ ([afterStart.current] ++ (v ++ (w ++ ([] ++ [])))) :=
    ⟨c.current :: afterStart.current :: v, by simp⟩
  refine ⟨by simp, ?_, rfl, ?_⟩
  · obtain ⟨before, split⟩ := last
    rw [← split]
    exact ended_append bracketed.nonempty bracketed.ended
  · intro child member
    rw [List.mem_singleton.mp member]
    exact bracketed.laid.widen last.isInfix

theorem repeats_conditional {condition : Nat → Rule Expr} {branch : Nat → Rule Block}
    (notEnd : c.current.kind ≠ .endOfInput)
    (tests : ∀ known mid, Repeats known Looks allowance condition mid Shaped)
    (braced : ∀ known mid, Repeats known Looks allowance branch mid fun u b _ => Bracketed u b) :
    Repeats known Looks allowance (fun n => conditional (condition n) (branch n)) c fun u e _ =>
      Formed u e := by
  refine repeats_formed ((repeats_advance notEnd).bind ?_)
  rintro _ _ afterStart _ ⟨rfl, rfl⟩
  refine ⟨trivial, (repeats_expect _ rfl).bind ?_⟩
  rintro _ _ afterOpen _ ⟨rfl, _, rfl⟩
  refine ⟨trivial, (repeats_within _ (tests _ afterOpen)).bind ?_⟩
  intro v test close _ shaped
  refine ⟨trivial, (repeats_expect _ rfl).bind ?_⟩
  rintro _ _ afterClose _ ⟨rfl, _, rfl⟩
  refine ⟨trivial, (braced _ afterClose).bind ?_⟩
  intro w consequence afterBranch _ first
  refine ⟨trivial, (repeats_eat rfl).looking.bind ?_⟩
  rintro _ _ afterElse _ (⟨rfl, rfl, _⟩ | ⟨rfl, rfl, rfl⟩)
  · refine ⟨trivial, (braced _ afterElse).bind ?_⟩
    intro x alternative c' _ second
    refine ⟨trivial, (repeats_previous (by simp)).looking.bind ?_⟩
    rintro _ _ _ _ ⟨rfl, rfl, rfl⟩
    refine ⟨trivial, repeats_pure ⟨by simp, ?_, rfl, ?_⟩⟩
    · simp only [List.append_nil, ← List.append_assoc]
      exact ended_append second.nonempty second.ended
    · simp only [Node.children, Option.toList_some, List.map_cons, List.map_nil,
        List.forall_mem_cons, List.append_nil]
      exact ⟨shaped.laid.widen ⟨[c.current, afterStart.current],
          close.current :: (w ++ afterBranch.current :: x), by simp⟩,
        first.laid.widen ⟨c.current :: afterStart.current :: (v ++ [close.current]),
          afterBranch.current :: x, by simp⟩,
        second.laid.widen ⟨c.current :: afterStart.current :: (v ++ close.current :: (w ++
          [afterBranch.current])), [], by simp⟩, nofun⟩
  · refine ⟨trivial, (repeats_previous (by simp)).looking.bind ?_⟩
    rintro _ _ _ _ ⟨rfl, rfl, rfl⟩
    refine ⟨trivial, repeats_pure ⟨by simp, ?_, rfl, ?_⟩⟩
    · simp only [List.append_nil, ← List.append_assoc]
      exact ended_append first.nonempty first.ended
    · simp only [Node.children, Option.toList_none, List.map_nil, List.forall_mem_cons,
        List.append_nil]
      exact ⟨shaped.laid.widen ⟨[c.current, afterStart.current], close.current :: w, by simp⟩,
        first.laid.widen ⟨c.current :: afterStart.current :: (v ++ [close.current]), [], by simp⟩,
        nofun⟩

/-- A statement, as a node over the tokens that it was read from. -/
structure Stated (u : List Token) (t : Stmt) : Prop where
  nonempty : u ≠ []
  spanned : Ordered u → t.span = cover u
  below : ∀ child ∈ (Node.statement t).children, Laid u child

theorem repeats_stated {looks : List Token → Prop} {rules : Nat → Rule Stmt}
    (held : Repeats known looks allowance rules c fun u t c' =>
      u ≠ [] ∧ t.span = c.current.span.merge c'.previous ∧
        ∀ child ∈ (Node.statement t).children, Laid u child) :
    Repeats known looks allowance rules c fun u t _ => Stated u t := by
  refine held.imp ?_
  rintro u t c' passes _ ⟨nonempty, span, below⟩
  exact ⟨nonempty, fun ordered => span.trans (merge_ends passes nonempty ordered), below⟩

theorem repeats_binding {values : Nat → Rule Expr} (here : c.current.kind = .letKeyword)
    (reads : ∀ known mid, Repeats known Looks allowance values mid Shaped) :
    Repeats known Ended allowance (fun n => binding (values n)) c fun u t _ => Stated u t := by
  refine repeats_stated ((repeats_advance (by simp [here])).bind ?_)
  rintro _ _ afterStart _ ⟨rfl, rfl⟩
  refine ⟨ended_one (by simp [here]), (repeats_expectName _).bind ?_⟩
  rintro _ name afterName _ ⟨rfl, named⟩
  refine ⟨ended_append (by simp) (ended_one (by simp [named])), (repeats_expect _ rfl).bind ?_⟩
  rintro _ _ afterAssign _ ⟨rfl, assign, rfl⟩
  refine ⟨?_, (repeats_within _ (reads _ afterAssign)).bind ?_⟩
  · exact ended_append (by simp) (ended_append (by simp) (ended_one (by simp [assign])))
  intro v value afterValue _ shaped
  have ended : Ended ([c.current] ++ ([afterStart.current] ++ ([afterName.current] ++ v))) := by
    simp only [← List.append_assoc]
    exact ended_append shaped.nonempty shaped.ended
  refine ⟨ended, (repeats_eat rfl).bind_looking ?_⟩
  intro w _ c' _ _
  refine ⟨by rintro rfl; simpa using ended, (repeats_previous (by simp)).bind_looking ?_⟩
  rintro _ _ _ _ ⟨rfl, rfl, rfl⟩
  refine ⟨nofun, repeats_pure ⟨by simp, rfl, ?_⟩⟩
  rintro child member
  rw [List.mem_singleton.mp member]
  exact shaped.laid.widen ⟨[c.current, afterStart.current, afterName.current], w, by simp⟩

theorem repeats_returning {values : Nat → Rule (Option Expr)}
    (here : c.current.kind = .returnKeyword)
    (reads : ∀ known mid, Repeats known Looks allowance values mid fun u value c' =>
      (u = [] ∧ value = none) ∨ ∃ e, value = some e ∧ Shaped u e c') :
    Repeats known Ended allowance (fun n => returning (values n)) c fun u t _ => Stated u t := by
  refine repeats_stated ((repeats_advance (by simp [here])).bind ?_)
  rintro _ _ afterStart _ ⟨rfl, rfl⟩
  have one : Ended [c.current] := ended_one (by simp [here])
  refine ⟨one, (reads _ afterStart).bind ?_⟩
  intro v value afterValue _ found
  have ended : Ended ([c.current] ++ v) := by
    rcases found with ⟨rfl, _⟩ | ⟨e, _, shaped⟩
    · exact one
    · exact ended_append shaped.nonempty shaped.ended
  refine ⟨ended, (repeats_eat rfl).bind_looking ?_⟩
  intro w _ c' _ _
  refine ⟨by rintro rfl; simpa using ended, (repeats_previous (by simp)).bind_looking ?_⟩
  rintro _ _ _ _ ⟨rfl, rfl, rfl⟩
  refine ⟨nofun, repeats_pure ⟨by simp, rfl, ?_⟩⟩
  rcases found with ⟨_, rfl⟩ | ⟨e, rfl, shaped⟩
  · nofun
  · rintro child member
    rw [List.mem_singleton.mp member]
    exact shaped.laid.widen ⟨[c.current], w, by simp⟩

theorem repeats_standing {values : Nat → Rule Expr}
    (reads : Repeats known Looks allowance values c Shaped) :
    Repeats known Ended allowance (fun n => standing (values n)) c fun u t _ => Stated u t := by
  refine reads.bind ?_
  intro v value afterValue _ shaped
  refine ⟨shaped.ended, (repeats_eat rfl).bind_looking ?_⟩
  rintro _ _ c' passes (⟨rfl, rfl, _⟩ | ⟨rfl, rfl, rfl⟩)
  · refine ⟨nofun, (repeats_previous (by simp)).bind_looking ?_⟩
    rintro _ _ _ _ ⟨rfl, rfl, rfl⟩
    refine ⟨nofun, repeats_pure ?_⟩
    simp only [List.append_nil]
    refine ⟨by simp, ?_, ?_⟩
    · intro ordered
      rw [passes.previous afterValue.current rfl,
        ← merge_cover ordered (List.prefix_append _ _) (List.suffix_append _ _) shaped.nonempty
          (by simp), ← shaped.spanned (ordered.within (List.prefix_append _ _).isInfix)]
      rfl
    · rintro child member
      rw [List.mem_singleton.mp member]
      exact shaped.laid.widen (List.prefix_append _ _).isInfix
  · refine ⟨fun _ => by simpa using shaped.ended, repeats_pure ?_⟩
    simp only [List.append_nil]
    refine ⟨shaped.nonempty, shaped.spanned, ?_⟩
    rintro child member
    rw [List.mem_singleton.mp member]
    exact shaped.laid

end Rule

end TreeWalk
