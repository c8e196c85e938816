import TreeWalk.Proofs.Lockstep
import TreeWalk.Proofs.Spans

/-! # Texts that stand further on

Rules pass spans on and merge them, and do nothing else with them. So where a map on spans respects
merging, the tokens with their spans mapped are read as the tree with its spans mapped, or have the
faults with their spans mapped. Moving spans further on is such a map even if it stops at the
greatest offset.

The place before the first token is the one span that comes from no token. A cursor there does not
know its image; but every rule that asks for the span of the last token has consumed one.
-/

namespace TreeWalk

def Token.mapSpan (f : Span → Span) (t : Token) : Token := { t with span := f t.span }

@[simp] theorem Token.kind_mapSpan (f : Span → Span) (t : Token) :
    (t.mapSpan f).kind = t.kind := rfl

def SyntaxFault.mapSpan (f : Span → Span) (fault : SyntaxFault) : SyntaxFault :=
  { fault with span := f fault.span }

namespace Cursor

variable {f : Span → Span} {c d : Cursor}

/-- The second cursor sees the images of the tokens that the first one sees. -/
structure Image (f : Span → Span) (c d : Cursor) : Prop where
  closed : c.Closed
  tokens : d.ahead = c.ahead.map (Token.mapSpan f)

/-- The token consumed last is known as well. -/
structure FullImage (f : Span → Span) (c d : Cursor) : Prop extends Image f c d where
  previous : d.previous = f c.previous

namespace Image

theorem current (image : c.Image f d) : d.current = c.current.mapSpan f :=
  (List.cons.inj image.tokens).1

theorem kind (image : c.Image f d) : d.current.kind = c.current.kind := by
  rw [image.current]
  rfl

theorem span (image : c.Image f d) : d.current.span = f c.current.span := by
  rw [image.current]
  rfl

theorem rest (image : c.Image f d) : d.rest = c.rest.map (Token.mapSpan f) :=
  (List.cons.inj image.tokens).2

theorem advance (image : c.Image f d) (notEnd : c.current.kind ≠ .endOfInput) :
    c.advance.FullImage f d.advance := by
  obtain ⟨t, ts, rest⟩ := List.exists_cons_of_ne_nil (image.closed.rest_ne_nil notEnd)
  have rest' : d.rest = t.mapSpan f :: ts.map (Token.mapSpan f) := by
    rw [image.rest, rest, List.map_cons]
  refine ⟨⟨image.closed.advance notEnd, ?_⟩, ?_⟩
  · rw [advance_eq notEnd rest, advance_eq (image.kind ▸ notEnd) rest']
    rfl
  · rw [advance_eq notEnd rest, advance_eq (image.kind ▸ notEnd) rest']
    exact image.span

theorem recover (image : c.Image f d) : c.recover.Image f d.recover := by
  induction size : c.ahead.length using Nat.strongRecOn generalizing c d with
  | ind size ih =>
      by_cases ended : c.current.kind = .endOfInput
      · rw [recover_of_end ended, recover_of_end (image.kind ▸ ended)]
        exact image
      · have less := length_advance_lt image.closed ended
        have more := image.closed.rest_ne_nil ended
        have more' : d.rest ≠ [] := by
          rw [image.rest]
          simpa using more
        have behind := (image.advance ended).toImage
        rw [recover_eq ended more, recover_eq (image.kind ▸ ended) more', image.kind]
        split
        · exact behind
        · exact ih _ (size ▸ less) behind rfl

end Image

theorem FullImage.step (image : c.FullImage f d) : c.advance.FullImage f d.advance := by
  by_cases ended : c.current.kind = .endOfInput
  · rwa [advance_of_end ended, advance_of_end (image.kind ▸ ended)]
  · exact image.toImage.advance ended

end Cursor

namespace Rule

variable {α β : Type} {f : Span → Span} {g : α → α} {h : β → β} {c d : Cursor}

/-- The second result is the image of the first, where values are mapped by `g`. -/
inductive ResultImage (f : Span → Span) (g : α → α) :
    (result result' : EStateM.Result SyntaxFault Cursor α) → Prop where
  | ok {a : α} {c d : Cursor} : c.FullImage f d → ResultImage f g (.ok a c) (.ok (g a) d)
  | error {fault : SyntaxFault} {c d : Cursor} : c.Image f d →
      ResultImage f g (.error fault c) (.error (fault.mapSpan f) d)

/-- At the second cursor the second rule has the image of the result of the first. -/
def Follows (f : Span → Span) (g : α → α) (rule rule' : Rule α) (c d : Cursor) : Prop :=
  ResultImage f g (rule c) (rule' d)

theorem Follows.bind {first first' : Rule α} {next next' : α → Rule β}
    (begins : Follows f g first first' c d)
    (goesOn : ∀ a mid mid', mid.FullImage f mid' → Follows f h (next a) (next' (g a)) mid mid') :
    Follows f h (first >>= next) (first' >>= next') c d := by
  unfold Follows at begins ⊢
  generalize ran : first c = result, ran' : first' d = result' at begins
  cases begins with
  | ok image =>
      rw [bind_of_ok ran, bind_of_ok ran']
      exact goesOn _ _ _ image
  | error image =>
      rw [bind_of_error ran, bind_of_error ran']
      exact .error image

theorem follows_pure (image : c.FullImage f d) {a b : α} (same : b = g a) :
    Follows f g (pure a) (pure b) c d := by
  subst same
  exact .ok image

theorem follows_previous (image : c.FullImage f d) : Follows f f previous previous c d := by
  unfold Follows
  rw [previous_ok, previous_ok, image.previous]
  exact .ok image

theorem follows_advance (image : c.Image f d) (notEnd : c.current.kind ≠ .endOfInput) :
    Follows f f advance advance c d := by
  unfold Follows
  rw [advance_ok, advance_ok, image.span]
  exact .ok (image.advance notEnd)

theorem follows_noExpression (image : c.Image f d) :
    Follows f g noExpression noExpression c d := by
  unfold Follows noExpression
  rw [image.kind, image.span]
  exact .error image

theorem follows_eat (image : c.FullImage f d) (kind : TokenKind) :
    Follows f id (eat kind) (eat kind) c d := by
  unfold Follows eat Cursor.eat Cursor.check
  rw [image.kind]
  split
  · exact .ok image.step
  · exact .ok image

theorem follows_expect (image : c.FullImage f d) (kind : TokenKind) (construct : Construct) :
    Follows f f (expect kind construct) (expect kind construct) c d := by
  unfold Follows expect Cursor.expect Cursor.check
  rw [image.current, Token.kind_mapSpan]
  by_cases here : c.current.kind.sameClass kind = true
  · simp only [here, if_true]
    exact .ok image.step
  · simp only [here, Bool.false_eq_true, if_false]
    exact .error image.toImage

theorem follows_expectName (image : c.FullImage f d) (construct : Construct) :
    Follows f id (expectName construct) (expectName construct) c d := by
  unfold Follows expectName Cursor.expectName
  rw [image.current]
  cases here : c.current.kind with
  | ident name =>
      simp only [Token.kind_mapSpan, here]
      exact .ok image.step
  | _ =>
      simp only [Token.kind_mapSpan, here]
      exact .error image.toImage

theorem follows_within (construct : Construct) {rule rule' : Rule α}
    (inner : Follows f g rule rule' c d) :
    Follows f g (within construct rule) (within construct rule') c d := by
  unfold Follows within at *
  generalize rule c = result, rule' d = result' at inner
  cases inner with
  | ok image => exact .ok image
  | error image => exact .error image

theorem follows_current (image : c.Image f d) {next next' : Token → Rule α}
    (goesOn : ∀ t : Token, t.kind = c.current.kind →
      Follows f g (next c.current) (next' t) c d) :
    Follows f g (current >>= next) (current >>= next') c d := by
  unfold Follows
  rw [bind_of_ok current_ok, bind_of_ok current_ok]
  exact goesOn d.current image.kind

section Forms

variable (merges : ∀ a b, f (a.merge b) = (f a).merge (f b))

theorem follows_listed (image : c.FullImage f d) {items : Rule (List α)} {g : List α → List α}
    (nil : g [] = [])
    (list : ∀ {mid mid'}, mid.FullImage f mid' → Follows f g items items mid mid') :
    Follows f g (listed items) (listed items) c d := by
  refine (follows_eat image _).bind fun ate c₁ d₁ image₁ => ?_
  cases ate with
  | true => exact follows_pure image₁ nil.symm
  | false => exact list image₁

include merges

theorem follows_standing {value : Rule Expr}
    (inner : Follows f (Expr.mapSpans f) value value c d) :
    Follows f (Stmt.mapSpans f) (standing value) (standing value) c d := by
  refine inner.bind fun e c₁ d₁ image₁ => ?_
  refine (follows_eat image₁ _).bind fun ate c₂ d₂ image₂ => ?_
  cases ate with
  | true =>
      refine (follows_previous image₂).bind fun stop c₃ d₃ image₃ => ?_
      exact follows_pure image₃ (by simp only [Stmt.mapSpans, merges, Expr.span_mapSpans])
  | false => exact follows_pure image₂ (by simp only [Stmt.mapSpans, Expr.span_mapSpans])

variable (image : c.Image f d) (notEnd : c.current.kind ≠ .endOfInput)

include image notEnd

omit merges in
theorem follows_literal {node : Span → Expr}
    (maps : ∀ span, (node span).mapSpans f = node (f span)) :
    Follows f (Expr.mapSpans f) (do return node (← advance)) (do return node (← advance)) c d :=
  (follows_advance image notEnd).bind fun span _ _ image₁ => follows_pure image₁ (maps span).symm

theorem follows_binding {value : Rule Expr}
    (inner : ∀ {mid mid'}, mid.Image f mid' → Follows f (Expr.mapSpans f) value value mid mid') :
    Follows f (Stmt.mapSpans f) (binding value) (binding value) c d := by
  refine (follows_advance image notEnd).bind fun start c₁ d₁ image₁ => ?_
  refine (follows_expectName image₁ _).bind fun name c₂ d₂ image₂ => ?_
  refine (follows_expect image₂ _ _).bind fun _ c₃ d₃ image₃ => ?_
  refine (follows_within _ (inner image₃.toImage)).bind fun e c₄ d₄ image₄ => ?_
  refine (follows_eat image₄ _).bind fun _ c₅ d₅ image₅ => ?_
  refine (follows_previous image₅).bind fun stop c₆ d₆ image₆ => ?_
  exact follows_pure image₆ (by simp only [Stmt.mapSpans, merges, id])

theorem follows_returning {value : Rule (Option Expr)}
    (inner : ∀ {mid mid'}, mid.FullImage f mid' →
      Follows f (Option.map (Expr.mapSpans f)) value value mid mid') :
    Follows f (Stmt.mapSpans f) (returning value) (returning value) c d := by
  refine (follows_advance image notEnd).bind fun start c₁ d₁ image₁ => ?_
  refine (inner image₁).bind fun e c₂ d₂ image₂ => ?_
  refine (follows_eat image₂ _).bind fun _ c₃ d₃ image₃ => ?_
  refine (follows_previous image₃).bind fun stop c₄ d₄ image₄ => ?_
  exact follows_pure image₄ (by rw [Stmt.mapSpans_ret, merges])

theorem follows_grouping {inner : Rule Expr}
    (held : ∀ {mid mid'}, mid.Image f mid' → Follows f (Expr.mapSpans f) inner inner mid mid') :
    Follows f (Expr.mapSpans f) (grouping inner) (grouping inner) c d := by
  refine (follows_advance image notEnd).bind fun start c₁ d₁ image₁ => ?_
  refine (follows_within _ (held image₁.toImage)).bind fun e c₂ d₂ image₂ => ?_
  refine (follows_expect image₂ _ _).bind fun stop c₃ d₃ image₃ => ?_
  exact follows_pure image₃ (by rw [Expr.mapSpans_withSpan, merges])

theorem follows_conditional {condition : Rule Expr} {branch : Rule Block}
    (test : ∀ {mid mid'}, mid.Image f mid' →
      Follows f (Expr.mapSpans f) condition condition mid mid')
    (braced : ∀ {mid mid'}, mid.FullImage f mid' →
      Follows f (Block.mapSpans f) branch branch mid mid') :
    Follows f (Expr.mapSpans f) (conditional condition branch) (conditional condition branch)
      c d := by
  refine (follows_advance image notEnd).bind fun start c₁ d₁ image₁ => ?_
  refine (follows_expect image₁ _ _).bind fun _ c₂ d₂ image₂ => ?_
  refine (follows_within _ (test image₂.toImage)).bind fun e c₃ d₃ image₃ => ?_
  refine (follows_expect image₃ _ _).bind fun _ c₄ d₄ image₄ => ?_
  refine (braced image₄).bind fun consequence c₅ d₅ image₅ => ?_
  refine (follows_eat image₅ _).bind fun ate c₆ d₆ image₆ => ?_
  cases ate with
  | true =>
      refine (braced image₆).bind fun alternative c₇ d₇ image₇ => ?_
      refine (follows_previous image₇).bind fun stop c₈ d₈ image₈ => ?_
      exact follows_pure image₈ (by rw [Expr.mapSpans_cond, merges, Option.map_some])
  | false =>
      refine (follows_previous image₆).bind fun stop c₇ d₇ image₇ => ?_
      exact follows_pure image₇ (by rw [Expr.mapSpans_cond, merges, Option.map_none])

theorem follows_function {names : Rule (List String)} {body : Rule Block}
    (named : ∀ {mid mid'}, mid.FullImage f mid' → Follows f id names names mid mid')
    (braced : ∀ {mid mid'}, mid.FullImage f mid' →
      Follows f (Block.mapSpans f) body body mid mid') :
    Follows f (Expr.mapSpans f) (function names body) (function names body) c d := by
  refine (follows_advance image notEnd).bind fun start c₁ d₁ image₁ => ?_
  refine (follows_expect image₁ _ _).bind fun _ c₂ d₂ image₂ => ?_
  refine (follows_listed image₂ rfl named).bind fun params c₃ d₃ image₃ => ?_
  refine (braced image₃).bind fun b c₄ d₄ image₄ => ?_
  refine (follows_previous image₄).bind fun stop c₅ d₅ image₅ => ?_
  exact follows_pure image₅ (by simp only [Expr.mapSpans, merges, id])

theorem follows_unary (op : UnaryOp) {operand : Rule Expr}
    (inner : ∀ {mid mid'}, mid.Image f mid' →
      Follows f (Expr.mapSpans f) operand operand mid mid') :
    Follows f (Expr.mapSpans f) (unary op operand) (unary op operand) c d := by
  refine (follows_advance image notEnd).bind fun start c₁ d₁ image₁ => ?_
  refine (inner image₁.toImage).bind fun e c₂ d₂ image₂ => ?_
  exact follows_pure image₂ (by simp only [Expr.mapSpans, merges, Expr.span_mapSpans])

end Forms

theorem follows_params (image : c.FullImage f d) (n : Nat) (read : List String) :
    Follows f id (params n read) (params n read) c d := by
  induction n generalizing read c d with
  | zero => exact follows_noExpression image.toImage
  | succ n ih =>
      rw [params]
      refine (follows_expectName image _).bind fun name c₁ d₁ image₁ => ?_
      refine (follows_eat image₁ _).bind fun ate c₂ d₂ image₂ => ?_
      cases ate with
      | true => exact ih image₂ (name :: read)
      | false =>
          refine (follows_expect image₂ _ _).bind fun _ c₃ d₃ image₃ => ?_
          exact follows_pure image₃ rfl

structure FollowsAt (f : Span → Span) (n : Nat) : Prop where
  statement : ∀ ⦃c d⦄, c.Image f d →
    Follows f (Stmt.mapSpans f) (statement n) (statement n) c d
  returned : ∀ ⦃c d⦄, c.FullImage f d →
    Follows f (Option.map (Expr.mapSpans f)) (returned n) (returned n) c d
  block : ∀ construct ⦃c d⦄, c.FullImage f d →
    Follows f (Block.mapSpans f) (block n construct) (block n construct) c d
  statements : ∀ read ⦃c d⦄, c.FullImage f d →
    Follows f (Stmt.mapSpansAll f) (statements n read) (statements n (Stmt.mapSpansAll f read)) c d
  expression : ∀ least ⦃c d⦄, c.Image f d →
    Follows f (Expr.mapSpans f) (expression n least) (expression n least) c d
  continued : ∀ least left ⦃c d⦄, c.FullImage f d →
    Follows f (Expr.mapSpans f) (continued n least left) (continued n least (left.mapSpans f)) c d
  arguments : ∀ read ⦃c d⦄, c.FullImage f d →
    Follows f (Expr.mapSpansAll f) (arguments n read) (arguments n (Expr.mapSpansAll f read)) c d
  operand : ∀ ⦃c d⦄, c.Image f d →
    Follows f (Expr.mapSpans f) (operand n) (operand n) c d

namespace FollowsAt

variable {n : Nat}

theorem zero : FollowsAt f 0 where
  statement _ _ image := follows_noExpression image
  returned _ _ image := follows_noExpression image.toImage
  block _ _ _ image := follows_noExpression image.toImage
  statements _ _ _ image := follows_noExpression image.toImage
  expression _ _ _ image := follows_noExpression image
  continued _ _ _ _ image := follows_noExpression image.toImage
  arguments _ _ _ image := follows_noExpression image.toImage
  operand _ _ image := follows_noExpression image

variable (all : FollowsAt f n)

include all

theorem returned_succ (image : c.FullImage f d) :
    Follows f (Option.map (Expr.mapSpans f)) (Rule.returned (n + 1)) (Rule.returned (n + 1))
      c d := by
  rw [Rule.returned]
  refine follows_current image.toImage fun t same => ?_
  rw [same]
  cases c.current.kind with
  | semicolon | rightBrace | endOfInput => exact follows_pure image rfl
  | _ =>
      refine (follows_within _ (all.expression .lowest image.toImage)).bind
        fun e c₁ d₁ image₁ => ?_
      exact follows_pure image₁ rfl

theorem statements_succ (read : List Stmt) (image : c.FullImage f d) :
    Follows f (Stmt.mapSpansAll f) (Rule.statements (n + 1) read)
      (Rule.statements (n + 1) (Stmt.mapSpansAll f read)) c d := by
  rw [Rule.statements, Rule.statements]
  have goesOn : Follows f (Stmt.mapSpansAll f)
      (Rule.statement n >>= fun t => Rule.statements n (t :: read))
      (Rule.statement n >>= fun t => Rule.statements n (t :: Stmt.mapSpansAll f read)) c d :=
    (all.statement image.toImage).bind fun t c₁ d₁ image₁ => all.statements (t :: read) image₁
  refine follows_current image.toImage fun t same => ?_
  rw [same]
  cases c.current.kind with
  | rightBrace | endOfInput => exact follows_pure image (Stmt.mapSpansAll_reverse f read).symm
  | _ => exact goesOn

theorem arguments_succ (read : List Expr) (image : c.FullImage f d) :
    Follows f (Expr.mapSpansAll f) (Rule.arguments (n + 1) read)
      (Rule.arguments (n + 1) (Expr.mapSpansAll f read)) c d := by
  rw [Rule.arguments, Rule.arguments]
  refine (follows_within _ (all.expression .lowest image.toImage)).bind fun e c₁ d₁ image₁ => ?_
  refine (follows_eat image₁ _).bind fun ate c₂ d₂ image₂ => ?_
  cases ate with
  | true => exact all.arguments (e :: read) image₂
  | false =>
      refine (follows_expect image₂ _ _).bind fun _ c₃ d₃ image₃ => ?_
      exact follows_pure image₃ (Expr.mapSpansAll_reverse f (e :: read)).symm

theorem expression_succ (least : Precedence) (image : c.Image f d) :
    Follows f (Expr.mapSpans f) (Rule.expression (n + 1) least) (Rule.expression (n + 1) least)
      c d := by
  rw [Rule.expression]
  exact (all.operand image).bind fun first c₁ d₁ image₁ => all.continued least first image₁

variable (merges : ∀ a b, f (a.merge b) = (f a).merge (f b))

include merges

theorem statement_succ (image : c.Image f d) :
    Follows f (Stmt.mapSpans f) (Rule.statement (n + 1)) (Rule.statement (n + 1)) c d := by
  rw [Rule.statement]
  refine follows_current image fun t same => ?_
  rw [same]
  cases here : c.current.kind with
  | letKeyword =>
      exact follows_binding merges image (by simp [here]) fun image₁ => all.expression _ image₁
  | returnKeyword =>
      exact follows_returning merges image (by simp [here]) fun image₁ => all.returned image₁
  | _ => exact follows_standing merges (all.expression .lowest image)

theorem block_succ (construct : Construct) (image : c.FullImage f d) :
    Follows f (Block.mapSpans f) (Rule.block (n + 1) construct) (Rule.block (n + 1) construct)
      c d := by
  rw [Rule.block]
  refine (follows_expect image _ _).bind fun start c₁ d₁ image₁ => ?_
  refine (all.statements [] image₁).bind fun inner c₂ d₂ image₂ => ?_
  refine (follows_expect image₂ _ _).bind fun stop c₃ d₃ image₃ => ?_
  exact follows_pure image₃ (by simp only [Block.mapSpans, merges])

theorem continued_succ (least : Precedence) (left : Expr) (image : c.FullImage f d) :
    Follows f (Expr.mapSpans f) (Rule.continued (n + 1) least left)
      (Rule.continued (n + 1) least (left.mapSpans f)) c d := by
  rw [Rule.continued, Rule.continued]
  refine follows_current image.toImage fun t same => ?_
  rw [same]
  by_cases binds : least < c.current.kind.precedence
  · have notEnd := TokenKind.ne_end_of_binds binds
    simp only [binds, if_true]
    cases c.current.kind.binaryOp? with
    | none =>
        refine (follows_advance image.toImage notEnd).bind fun _ c₁ d₁ image₁ => ?_
        refine (follows_listed image₁ rfl fun image₂ => all.arguments [] image₂).bind
          fun args c₂ d₂ image₂ => ?_
        refine (follows_previous image₂).bind fun stop c₃ d₃ image₃ => ?_
        have called := all.continued least (.call (left.span.merge stop) left args) image₃
        simpa only [Expr.mapSpans, merges, Expr.span_mapSpans] using called
    | some op =>
        refine (follows_advance image.toImage notEnd).bind fun _ c₁ d₁ image₁ => ?_
        refine (all.expression op.precedence image₁.toImage).bind fun right c₂ d₂ image₂ => ?_
        have joined :=
          all.continued least (.binary (left.span.merge right.span) op left right) image₂
        simpa only [Expr.mapSpans, merges, Expr.span_mapSpans] using joined
  · simp only [binds, if_false]
    exact follows_pure image rfl

theorem operand_succ (image : c.Image f d) :
    Follows f (Expr.mapSpans f) (Rule.operand (n + 1)) (Rule.operand (n + 1)) c d := by
  refine follows_current image fun t same => ?_
  rw [same]
  cases here : c.current.kind with
  | ident name => exact follows_literal image (by simp [here]) fun _ => rfl
  | int value => exact follows_literal image (by simp [here]) fun _ => rfl
  | trueKeyword => exact follows_literal image (by simp [here]) fun _ => rfl
  | falseKeyword => exact follows_literal image (by simp [here]) fun _ => rfl
  | bang =>
      exact follows_unary merges image (by simp [here]) .not fun image₁ => all.expression _ image₁
  | minus =>
      exact follows_unary merges image (by simp [here]) .neg fun image₁ => all.expression _ image₁
  | leftParen =>
      exact follows_grouping merges image (by simp [here]) fun image₁ => all.expression _ image₁
  | ifKeyword =>
      exact follows_conditional merges image (by simp [here])
        (fun image₁ => all.expression _ image₁) fun image₁ => all.block _ image₁
  | fnKeyword =>
      exact follows_function merges image (by simp [here]) (fun image₁ => follows_params image₁ _ _)
        fun image₁ => all.block _ image₁
  | _ => exact follows_noExpression image

theorem succ : FollowsAt f (n + 1) where
  statement _ _ := all.statement_succ merges
  returned _ _ := all.returned_succ
  block construct _ _ := all.block_succ merges construct
  statements read _ _ := all.statements_succ read
  expression least _ _ := all.expression_succ least
  continued least left _ _ := all.continued_succ merges least left
  arguments read _ _ := all.arguments_succ read
  operand _ _ := all.operand_succ merges

end FollowsAt

theorem followsAt (merges : ∀ a b, f (a.merge b) = (f a).merge (f b)) (n : Nat) :
    FollowsAt f n := by
  induction n with
  | zero => exact .zero
  | succ n ih => exact ih.succ merges

theorem program_mapSpans (merges : ∀ a b, f (a.merge b) = (f a).merge (f b)) (bound n : Nat)
    (read : List Stmt) (faults : List SyntaxFault) (image : c.Image f d) :
    program bound n (Stmt.mapSpansAll f read) (faults.map (SyntaxFault.mapSpan f)) d =
      (Stmt.mapSpansAll f (program bound n read faults c).1,
        (program bound n read faults c).2.map (SyntaxFault.mapSpan f)) := by
  induction bound generalizing read faults c d with
  | zero => simp only [program, Stmt.mapSpansAll_reverse, List.map_reverse]
  | succ bound ih =>
      have same : d.atEnd = c.atEnd := by
        simp only [Cursor.atEnd, Token.isEnd, image.kind]
      unfold program
      rw [same]
      split
      · simp only [Stmt.mapSpansAll_reverse, List.map_reverse]
      · have outcome : ResultImage f (Stmt.mapSpans f) (statement n c) (statement n d) :=
          (followsAt merges n).statement image
        generalize statement n c = result, statement n d = result' at outcome
        cases outcome with
        | ok behind => exact ih (_ :: read) faults behind.toImage
        | error stopped => exact ih read (_ :: faults) stopped.recover

end Rule

section Tokens

variable {f : Span → Span} {ts : List Token} {stop : Span}

theorem Cursor.image_start (noEnd : ∀ t ∈ ts, t.kind ≠ .endOfInput) :
    (start ts stop).Image f (start (ts.map (Token.mapSpan f)) (f stop)) := by
  refine ⟨⟨_, start_shows noEnd⟩, ?_⟩
  rw [ahead_start, ahead_start, List.map_append]
  rfl

/-- Tokens with their spans mapped are read as the program with its spans mapped, or have the faults
    with their spans mapped. -/
theorem parseTokens_mapSpan (merges : ∀ a b, f (a.merge b) = (f a).merge (f b))
    (noEnd : ∀ t ∈ ts, t.kind ≠ .endOfInput) :
    parseTokens ((ts ++ [Token.mk .endOfInput stop]).map (Token.mapSpan f)) =
      match parseTokens (ts ++ [⟨.endOfInput, stop⟩]) with
      | .ok p => .ok (p.mapSpans f)
      | .error faults => .error (faults.map (SyntaxFault.mapSpan f)) := by
  have image : (Cursor.start ts stop).Image f
      (Cursor.start (ts.map (Token.mapSpan f)) (f stop)) := Cursor.image_start noEnd
  rw [List.map_append]
  change parseTokens (ts.map (Token.mapSpan f) ++ [⟨.endOfInput, f stop⟩]) = _
  simp only [parseTokens, Cursor.ofTokens?_start, List.length_append, List.length_map,
    List.length_singleton]
  have same := Rule.program_mapSpans merges (ts.length + 1) (8 * (ts.length + 1) + 8) [] [] image
  rw [List.map_nil, Stmt.mapSpansAll] at same
  rw [same]
  generalize Rule.program _ _ [] [] (Cursor.start ts stop) = read
  obtain ⟨statements, _ | ⟨fault, more⟩⟩ := read <;> rfl

end Tokens

theorem Span.shifted_merge (a b : Span) (offset : Nat) :
    (a.merge b).shifted offset = (a.shifted offset).merge (b.shifted offset) := by
  simp only [Span.merge, Span.shifted, Span.mk.injEq]
  omega

section Moved

variable {source : String} (offset : Nat)

theorem parseAt_of_parse {p : Program} (parsed : parse source = .ok p) :
    parseAt source offset = .ok (p.mapSpans (·.shifted offset)) := by
  obtain ⟨fits, ts, cut, parsed⟩ := parse_eq_ok_iff.mp parsed
  have moved : parseTokens ((ts ++ [Token.mk .endOfInput (endMarker 0 source)]).map
      (Token.mapSpan (·.shifted offset))) = _ :=
    parseTokens_mapSpan (Span.shifted_merge · · offset) (noEnd_of_lexemes cut)
  rw [parsed] at moved
  rw [parseAt, lex_of_tokens fits cut]
  rwa [endMarker, Nat.zero_add] at moved

theorem parseAt_of_unread {faults : List SyntaxFault} (unread : parse source = .error faults) :
    parseAt source offset = .error (faults.map (·.shifted offset)) := by
  unfold parse at unread
  unfold parseAt
  cases lexed : lex source with
  | error early =>
      rw [lexed] at unread
      cases unread
      simp only [List.map_map]
      rfl
  | ok tokens =>
      obtain ⟨_, ts, cut, rfl⟩ := lex_eq_ok_iff.mp lexed
      rw [lexed] at unread
      dsimp only at unread
      refine (parseTokens_mapSpan (f := (·.shifted offset)) (Span.shifted_merge · · offset)
        (noEnd_of_lexemes cut)).trans ?_
      rw [unread]
      rfl

end Moved

/-- A text that stands further on is read as the same program with every span moved, or has the same
    faults with their spans moved, also where positions stop at the greatest offset. -/
theorem parseAt_eq_parse_shifted (source : String) (offset : Nat) :
    parseAt source offset = match parse source with
      | .ok p => .ok (p.mapSpans (·.shifted offset))
      | .error faults => .error (faults.map (·.shifted offset)) := by
  cases parsed : parse source with
  | ok p => exact parseAt_of_parse offset parsed
  | error faults => exact parseAt_of_unread offset parsed

end TreeWalk
