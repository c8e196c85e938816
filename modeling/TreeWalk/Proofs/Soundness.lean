import TreeWalk.Proofs.Reading

/-! # The parser accepts only the grammar

Every rule that succeeds has read what the grammar derives from exactly the tokens it consumed. The
rules call each other, so the statement is one induction on the allowance over all of them.

Two facts carry the climbing loop. The left operand built so far is of a layer that the place of the
expression allows, and the next token does not bind more tightly than that layer; so an operator
that is folded in finds its left operand in its own layer.
-/

namespace TreeWalk

open Grammar

theorem Cursor.Shows.eq_nil {c : Cursor} {kinds : List TokenKind} (shows : c.Shows kinds)
    (atEnd : next kinds = .endOfInput) : kinds = [] := by
  cases kinds with
  | nil => rfl
  | cons kind _ => exact absurd atEnd shows.2.1

namespace Grammar

/-- The layers whose expressions may stand behind an operator of precedence `least`. The operand of
    a unary operator may be one itself. -/
def Allowed (least layer : Precedence) : Prop := least < layer ∨ layer = .unary

theorem Allowed.of_tight {least layer : Precedence} (loose : least < .call)
    (tight : ¬ layer < .unary) : Allowed least layer := by
  rcases Precedence.eq_or_lt tight with rfl | above
  · exact .inr rfl
  · cases layer <;> simp_all [Allowed, Precedence.lt_iff, Precedence.level]

/-- `e` reads from `input` to `rest` where only operators above `least` are folded in: its layer is
    allowed there, and the next token does not continue it. -/
def Whole (least : Precedence) (input : List TokenKind) (e : Expr) (rest : List TokenKind) : Prop :=
  ∃ layer, Allowed least layer ∧ Expression layer input e rest ∧ ¬ least < (next rest).precedence

/-- `e` starts an expression: no binary operator is folded in, and a call only where its callee
    needs no parentheses. -/
def Opening (input : List TokenKind) (e : Expr) (rest : List TokenKind) : Prop :=
  ∃ layer, ¬ layer < .unary ∧ Expression layer input e rest ∧ ¬ layer < (next rest).precedence

theorem Whole.lowest (whole : Whole .lowest input e rest) : Expression .lowest input e rest := by
  obtain ⟨layer, _, inner, _⟩ := whole
  exact inner.down (by simp [Precedence.lt_iff, Precedence.level])

theorem Whole.unary (whole : Whole .unary input e rest) : Expression .unary input e rest := by
  obtain ⟨layer, above | rfl, inner, _⟩ := whole
  · exact inner.looser above
  · exact inner

/-- Where an expression ends at the lowest precedence, its semicolon may be left out. -/
theorem Whole.omitted (whole : Whole .lowest input e rest) : Ends rest rest := by
  obtain ⟨_, _, _, stops⟩ := whole
  refine .omitted ?_ ?_
  · intro paren
    rw [paren] at stops
    exact stops (by decide)
  · cases operator : (next rest).binaryOp? with
    | none => rfl
    | some op =>
        rw [BinaryOp.eq_token operator, op.precedence_token] at stops
        exact absurd op.precedence_level.1 stops

/-- The right operand of an operator is of a tighter layer. -/
theorem Whole.above {op : BinaryOp} (whole : Whole op.precedence input e rest) :
    ∃ tighter, op.precedence < tighter ∧ Expression tighter input e rest := by
  obtain ⟨layer, above | rfl, inner, _⟩ := whole
  · exact ⟨layer, above, inner⟩
  · exact ⟨.unary, op.precedence_level.2, inner⟩

end Grammar

namespace Rule

variable {α : Type} {c c' : Cursor} {kinds : List TokenKind}

/-- Whatever the rule reads is related by `derives` to the tokens before and behind it. -/
def Sound (rule : Rule α) (derives : List TokenKind → α → List TokenKind → Prop) : Prop :=
  ∀ ⦃c a c' kinds⦄, c.Shows kinds → rule c = .ok a c' →
    ∃ rest, c'.Shows rest ∧ derives kinds a rest

theorem sound_noExpression {derives : List TokenKind → α → List TokenKind → Prop} :
    Sound (noExpression : Rule α) derives := by
  intro c a c' kinds _ read
  exact absurd read noExpression_ne_ok

theorem sound_within {derives : List TokenKind → α → List TokenKind → Prop} {rule : Rule α}
    (construct : Construct) (sound : Sound rule derives) : Sound (within construct rule) derives := by
  intro c a c' kinds shows read
  exact sound shows (within_eq_ok.mp read)

/-- Behind a whole expression, a semicolon is eaten exactly if there is one. -/
theorem ends_of_eat {ate : Bool} (omitted : Ends kinds kinds) (shows : c.Shows kinds)
    (read : eat .semicolon c = .ok ate c') : ∃ rest, c'.Shows rest ∧ Ends kinds rest := by
  rcases eat_ok rfl shows read with ⟨_, rest, rfl, behind⟩ | ⟨_, _, behind⟩
  · exact ⟨rest, behind, .semicolon⟩
  · exact ⟨kinds, behind, omitted⟩

theorem sound_params (allowance : Nat) (read : List String) :
    Sound (params allowance read) fun input names rest =>
      ∃ more, names = read.reverse ++ more ∧ Names input more rest := by
  induction allowance generalizing read with
  | zero => exact sound_noExpression
  | succ allowance ih =>
      intro c names c' kinds shows reading
      unfold params at reading
      obtain ⟨name, mid, named, reading⟩ := bind_eq_ok.mp reading
      obtain ⟨kinds, rfl, afterName⟩ := expectName_ok shows named
      obtain ⟨ate, mid, eaten, reading⟩ := bind_eq_ok.mp reading
      rcases eat_ok rfl afterName eaten with ⟨rfl, kinds, rfl, afterComma⟩ | ⟨rfl, _, noComma⟩
      · obtain ⟨rest, behind, more, rfl, derived⟩ := ih (name :: read) afterComma reading
        exact ⟨rest, behind, name :: more, by simp, .cons derived⟩
      · obtain ⟨_, mid, closed, reading⟩ := bind_eq_ok.mp reading
        obtain ⟨rest, rfl, behind⟩ := expect_ok rfl noComma closed
        obtain ⟨rfl, rfl⟩ := pure_eq_ok.mp reading
        exact ⟨rest, behind, [name], by simp, .last⟩

theorem sound_names (allowance : Nat) : Sound (params allowance []) Names := by
  intro c names c' kinds shows read
  obtain ⟨rest, behind, more, rfl, list⟩ := sound_params allowance [] shows read
  exact ⟨rest, behind, list⟩

theorem listed_ok {derives : List TokenKind → List α → List TokenKind → Prop}
    {items : Rule (List α)} {list : List α} (sound : Sound items derives) (shows : c.Shows kinds)
    (read : listed items c = .ok list c') :
    ∃ rest, c'.Shows rest ∧ ((kinds = .rightParen :: rest ∧ list = []) ∨ derives kinds list rest) := by
  unfold listed at read
  obtain ⟨ate, mid, eaten, read⟩ := bind_eq_ok.mp read
  rcases eat_ok rfl shows eaten with ⟨rfl, rest, rfl, behind⟩ | ⟨rfl, _, notClosed⟩
  · obtain ⟨rfl, rfl⟩ := pure_eq_ok.mp read
    exact ⟨rest, behind, .inl ⟨rfl, rfl⟩⟩
  · obtain ⟨rest, behind, derived⟩ := sound notClosed read
    exact ⟨rest, behind, .inr derived⟩

theorem binding_ok {value : Rule Expr} {t : Stmt} (sound : Sound value (Whole .lowest))
    (shows : c.Shows (.letKeyword :: kinds)) (read : binding value c = .ok t c') :
    ∃ rest, c'.Shows rest ∧ Statement (.letKeyword :: kinds) t rest := by
  unfold binding at read
  obtain ⟨_, mid, advanced, read⟩ := bind_eq_ok.mp read
  obtain ⟨-, rfl⟩ := advance_eq_ok.mp advanced
  obtain ⟨name, mid, named, read⟩ := bind_eq_ok.mp read
  obtain ⟨kinds, rfl, afterName⟩ := expectName_ok shows.advance named
  obtain ⟨_, mid, assigned, read⟩ := bind_eq_ok.mp read
  obtain ⟨kinds, rfl, afterAssign⟩ := expect_ok rfl afterName assigned
  obtain ⟨e, mid, valued, read⟩ := bind_eq_ok.mp read
  obtain ⟨middle, afterValue, whole⟩ := sound_within _ sound afterAssign valued
  obtain ⟨_, mid, eaten, read⟩ := bind_eq_ok.mp read
  obtain ⟨rest, behind, ends⟩ := ends_of_eat whole.omitted afterValue eaten
  obtain ⟨_, mid, passed, read⟩ := bind_eq_ok.mp read
  obtain ⟨-, rfl⟩ := previous_eq_ok.mp passed
  obtain ⟨rfl, rfl⟩ := pure_eq_ok.mp read
  exact ⟨rest, behind, .bind whole.lowest ends⟩

/-- What stands between `return` and the end of its statement. -/
def ReturnValue (input : List TokenKind) (value : Option Expr) (rest : List TokenKind) : Prop :=
  match value with
  | none => rest = input ∧
      (next input = .semicolon ∨ next input = .rightBrace ∨ next input = .endOfInput)
  | some e => Whole .lowest input e rest

theorem returning_ok {value : Rule (Option Expr)} {t : Stmt} (sound : Sound value ReturnValue)
    (shows : c.Shows (.returnKeyword :: kinds)) (read : returning value c = .ok t c') :
    ∃ rest, c'.Shows rest ∧ Statement (.returnKeyword :: kinds) t rest := by
  unfold returning at read
  obtain ⟨_, mid, advanced, read⟩ := bind_eq_ok.mp read
  obtain ⟨-, rfl⟩ := advance_eq_ok.mp advanced
  obtain ⟨value, mid, valued, read⟩ := bind_eq_ok.mp read
  obtain ⟨middle, afterValue, returned⟩ := sound shows.advance valued
  obtain ⟨_, mid, eaten, read⟩ := bind_eq_ok.mp read
  obtain ⟨_, last, passed, read⟩ := bind_eq_ok.mp read
  obtain ⟨-, rfl⟩ := previous_eq_ok.mp passed
  obtain ⟨rfl, rfl⟩ := pure_eq_ok.mp read
  cases value with
  | some e =>
      obtain ⟨rest, behind, ends⟩ := ends_of_eat returned.omitted afterValue eaten
      exact ⟨rest, behind, .ret returned.lowest ends⟩
  | none =>
      obtain ⟨rfl, stops⟩ := returned
      rcases eat_ok rfl afterValue eaten with ⟨_, rest, rfl, behind⟩ | ⟨_, other, behind⟩
      · exact ⟨rest, behind, .retNothing .semicolon⟩
      · refine ⟨middle, behind, .retNothing ?_⟩
        rcases stops with semicolon | brace | atEnd
        · exact absurd semicolon other
        · exact .brace brace
        · rw [behind.eq_nil atEnd]
          exact .finish

theorem sound_standing {value : Rule Expr} (sound : Sound value (Whole .lowest)) :
    Sound (standing value) Statement := by
  intro c t c' kinds shows read
  unfold standing at read
  obtain ⟨e, mid, valued, read⟩ := bind_eq_ok.mp read
  obtain ⟨middle, afterValue, whole⟩ := sound shows valued
  obtain ⟨ate, mid, eaten, read⟩ := bind_eq_ok.mp read
  obtain ⟨rest, behind, ends⟩ := ends_of_eat whole.omitted afterValue eaten
  cases ate with
  | true =>
      obtain ⟨_, mid, passed, read⟩ := bind_eq_ok.mp read
      obtain ⟨-, rfl⟩ := previous_eq_ok.mp passed
      obtain ⟨rfl, rfl⟩ := pure_eq_ok.mp read
      exact ⟨rest, behind, .expr whole.lowest ends⟩
  | false =>
      obtain ⟨rfl, rfl⟩ := pure_eq_ok.mp read
      exact ⟨rest, behind, .expr whole.lowest ends⟩

theorem grouping_ok {inner : Rule Expr} {e : Expr} (sound : Sound inner (Whole .lowest))
    (shows : c.Shows (.leftParen :: kinds)) (read : grouping inner c = .ok e c') :
    ∃ rest, c'.Shows rest ∧ Expression .call (.leftParen :: kinds) e rest := by
  unfold grouping at read
  obtain ⟨_, mid, advanced, read⟩ := bind_eq_ok.mp read
  obtain ⟨-, rfl⟩ := advance_eq_ok.mp advanced
  obtain ⟨e, mid, held, read⟩ := bind_eq_ok.mp read
  obtain ⟨middle, afterInner, whole⟩ := sound_within _ sound shows.advance held
  obtain ⟨_, mid, closed, read⟩ := bind_eq_ok.mp read
  obtain ⟨rest, rfl, behind⟩ := expect_ok rfl afterInner closed
  obtain ⟨rfl, rfl⟩ := pure_eq_ok.mp read
  exact ⟨rest, behind, .group whole.lowest⟩

theorem conditional_ok {condition : Rule Expr} {branch : Rule Block} {e : Expr}
    (test : Sound condition (Whole .lowest)) (braced : Sound branch Braced)
    (shows : c.Shows (.ifKeyword :: kinds)) (read : conditional condition branch c = .ok e c') :
    ∃ rest, c'.Shows rest ∧ Expression .call (.ifKeyword :: kinds) e rest := by
  unfold conditional at read
  obtain ⟨_, mid, advanced, read⟩ := bind_eq_ok.mp read
  obtain ⟨-, rfl⟩ := advance_eq_ok.mp advanced
  obtain ⟨_, mid, opened, read⟩ := bind_eq_ok.mp read
  obtain ⟨kinds, rfl, afterOpen⟩ := expect_ok rfl shows.advance opened
  obtain ⟨condition, mid, tested, read⟩ := bind_eq_ok.mp read
  obtain ⟨middle, afterTest, whole⟩ := sound_within _ test afterOpen tested
  obtain ⟨_, mid, closed, read⟩ := bind_eq_ok.mp read
  obtain ⟨middle, rfl, afterClose⟩ := expect_ok rfl afterTest closed
  obtain ⟨consequence, mid, taken, read⟩ := bind_eq_ok.mp read
  obtain ⟨last, afterBranch, first⟩ := braced afterClose taken
  obtain ⟨ate, mid, eaten, read⟩ := bind_eq_ok.mp read
  rcases eat_ok rfl afterBranch eaten with ⟨rfl, last, rfl, afterElse⟩ | ⟨rfl, _, noElse⟩
  · obtain ⟨alternative, mid, taken, read⟩ := bind_eq_ok.mp read
    obtain ⟨rest, behind, second⟩ := braced afterElse taken
    obtain ⟨_, mid, passed, read⟩ := bind_eq_ok.mp read
    obtain ⟨-, rfl⟩ := previous_eq_ok.mp passed
    obtain ⟨rfl, rfl⟩ := pure_eq_ok.mp read
    exact ⟨rest, behind, .condElse whole.lowest first second⟩
  · obtain ⟨_, mid, passed, read⟩ := bind_eq_ok.mp read
    obtain ⟨-, rfl⟩ := previous_eq_ok.mp passed
    obtain ⟨rfl, rfl⟩ := pure_eq_ok.mp read
    exact ⟨last, noElse, .cond whole.lowest first⟩

theorem function_ok {names : Rule (List String)} {code : Rule Block} {e : Expr}
    (named : Sound names Names) (braced : Sound code Braced)
    (shows : c.Shows (.fnKeyword :: kinds)) (read : function names code c = .ok e c') :
    ∃ rest, c'.Shows rest ∧ Expression .call (.fnKeyword :: kinds) e rest := by
  unfold function at read
  obtain ⟨_, mid, advanced, read⟩ := bind_eq_ok.mp read
  obtain ⟨-, rfl⟩ := advance_eq_ok.mp advanced
  obtain ⟨_, mid, opened, read⟩ := bind_eq_ok.mp read
  obtain ⟨kinds, rfl, afterOpen⟩ := expect_ok rfl shows.advance opened
  obtain ⟨params, mid, held, read⟩ := bind_eq_ok.mp read
  obtain ⟨middle, afterParams, parameters⟩ := listed_ok named afterOpen held
  obtain ⟨body, mid, taken, read⟩ := bind_eq_ok.mp read
  obtain ⟨rest, behind, derived⟩ := braced afterParams taken
  obtain ⟨_, mid, passed, read⟩ := bind_eq_ok.mp read
  obtain ⟨-, rfl⟩ := previous_eq_ok.mp passed
  obtain ⟨rfl, rfl⟩ := pure_eq_ok.mp read
  rcases parameters with ⟨rfl, rfl⟩ | list
  · exact ⟨rest, behind, .fn .empty derived⟩
  · exact ⟨rest, behind, .fn (.items list) derived⟩

theorem unary_ok (op : UnaryOp) {operand : Rule Expr} {e : Expr}
    (sound : Sound operand (Whole .unary)) (shows : c.Shows (op.token :: kinds))
    (read : unary op operand c = .ok e c') :
    ∃ rest, c'.Shows rest ∧ Opening (op.token :: kinds) e rest := by
  unfold unary at read
  obtain ⟨_, mid, advanced, read⟩ := bind_eq_ok.mp read
  obtain ⟨-, rfl⟩ := advance_eq_ok.mp advanced
  obtain ⟨inner, mid, operated, read⟩ := bind_eq_ok.mp read
  obtain ⟨rest, behind, whole⟩ := sound shows.advance operated
  obtain ⟨rfl, rfl⟩ := pure_eq_ok.mp read
  obtain ⟨_, _, _, stops⟩ := id whole
  exact ⟨rest, behind, .unary, by decide, .unary op whole.unary, stops⟩

/-- All rules with this allowance read what the grammar derives. A rule that goes on behind a part
    read earlier derives the rest of the whole. -/
structure SoundAt (allowance : Nat) : Prop where
  statement : Sound (statement allowance) Statement
  returned : Sound (returned allowance) ReturnValue
  block : ∀ construct, Sound (block allowance construct) Braced
  statements : ∀ read, Sound (statements allowance read) fun input ts rest =>
    ∃ more, ts = read.reverse ++ more ∧ Statements input more rest
  expression : ∀ least, least < .call → Sound (expression allowance least) (Whole least)
  continued : ∀ least left, Sound (continued allowance least left) fun input e rest =>
    ∀ start layer, Expression layer start left input → Allowed least layer →
      ¬ layer < (next input).precedence → Whole least start e rest
  arguments : ∀ read, Sound (arguments allowance read) fun input args rest =>
    ∃ more, args = read.reverse ++ more ∧ Items input more rest
  operand : Sound (operand allowance) Opening

namespace SoundAt

variable {allowance : Nat}

theorem zero : SoundAt 0 where
  statement := sound_noExpression
  returned := sound_noExpression
  block _ := sound_noExpression
  statements _ := sound_noExpression
  expression _ _ := sound_noExpression
  continued _ _ := sound_noExpression
  arguments _ := sound_noExpression
  operand := sound_noExpression

theorem statement_succ (sound : SoundAt allowance) :
    Sound (Rule.statement (allowance + 1)) Statement := by
  intro c t c' kinds shows read
  unfold Rule.statement at read
  obtain ⟨_, mid, seen, read⟩ := bind_eq_ok.mp read
  obtain ⟨rfl, rfl⟩ := current_eq_ok.mp seen
  cases here : c.current.kind with
  | letKeyword =>
      simp only [here] at read
      obtain ⟨kinds, rfl, _⟩ := shows.exists_cons here (by decide)
      exact binding_ok (sound.expression .lowest (by decide)) shows read
  | returnKeyword =>
      simp only [here] at read
      obtain ⟨kinds, rfl, _⟩ := shows.exists_cons here (by decide)
      exact returning_ok sound.returned shows read
  | _ =>
      simp only [here] at read
      exact sound_standing (sound.expression .lowest (by decide)) shows read

theorem returned_succ (sound : SoundAt allowance) :
    Sound (Rule.returned (allowance + 1)) ReturnValue := by
  intro c value c' kinds shows read
  unfold Rule.returned at read
  obtain ⟨_, mid, seen, read⟩ := bind_eq_ok.mp read
  obtain ⟨rfl, rfl⟩ := current_eq_ok.mp seen
  cases here : c.current.kind with
  | semicolon | rightBrace | endOfInput =>
      simp only [here] at read
      obtain ⟨rfl, rfl⟩ := pure_eq_ok.mp read
      rw [shows.current] at here
      exact ⟨kinds, shows, rfl, by simp [here]⟩
  | _ =>
      simp only [here] at read
      obtain ⟨e, mid, valued, read⟩ := bind_eq_ok.mp read
      obtain ⟨rest, behind, whole⟩ := sound_within _ (sound.expression .lowest (by decide)) shows valued
      obtain ⟨rfl, rfl⟩ := pure_eq_ok.mp read
      exact ⟨rest, behind, whole⟩

theorem block_succ (sound : SoundAt allowance) (construct : Construct) :
    Sound (Rule.block (allowance + 1) construct) Braced := by
  intro c b c' kinds shows read
  unfold Rule.block at read
  obtain ⟨_, mid, opened, read⟩ := bind_eq_ok.mp read
  obtain ⟨kinds, rfl, afterOpen⟩ := expect_ok rfl shows opened
  obtain ⟨ts, mid, held, read⟩ := bind_eq_ok.mp read
  obtain ⟨middle, afterInner, more, rfl, derived⟩ := sound.statements [] afterOpen held
  obtain ⟨_, mid, closed, read⟩ := bind_eq_ok.mp read
  obtain ⟨rest, rfl, behind⟩ := expect_ok rfl afterInner closed
  obtain ⟨rfl, rfl⟩ := pure_eq_ok.mp read
  exact ⟨rest, behind, .mk derived⟩

theorem statements_succ (sound : SoundAt allowance) (before : List Stmt) :
    Sound (Rule.statements (allowance + 1) before) fun input ts rest =>
      ∃ more, ts = before.reverse ++ more ∧ Statements input more rest := by
  intro c ts c' kinds shows read
  unfold Rule.statements at read
  obtain ⟨_, mid, seen, read⟩ := bind_eq_ok.mp read
  obtain ⟨rfl, rfl⟩ := current_eq_ok.mp seen
  cases here : c.current.kind with
  | rightBrace | endOfInput =>
      simp only [here] at read
      obtain ⟨rfl, rfl⟩ := pure_eq_ok.mp read
      exact ⟨kinds, shows, [], by simp, .nil⟩
  | _ =>
      simp only [here] at read
      obtain ⟨t, mid, first, read⟩ := bind_eq_ok.mp read
      obtain ⟨middle, afterFirst, head⟩ := sound.statement shows first
      obtain ⟨rest, behind, more, rfl, tail⟩ := sound.statements (t :: before) afterFirst read
      exact ⟨rest, behind, t :: more, by simp, .cons head tail⟩

theorem expression_succ (sound : SoundAt allowance) (least : Precedence) (loose : least < .call) :
    Sound (Rule.expression (allowance + 1) least) (Whole least) := by
  intro c e c' kinds shows read
  unfold Rule.expression at read
  obtain ⟨first, mid, opened, read⟩ := bind_eq_ok.mp read
  obtain ⟨middle, afterFirst, layer, tight, derived, stops⟩ := sound.operand shows opened
  obtain ⟨rest, behind, ends⟩ := sound.continued least first afterFirst read
  exact ⟨rest, behind, ends kinds layer derived (Allowed.of_tight loose tight) stops⟩

theorem binary_round (sound : SoundAt allowance) {least : Precedence} {left : Expr} {op : BinaryOp}
    {e : Expr} {c c' : Cursor} {kinds : List TokenKind} (shows : c.Shows (op.token :: kinds))
    (binds : least < op.precedence)
    (read : (do
      let _ ← advance
      let right ← Rule.expression allowance op.precedence
      Rule.continued allowance least (.binary (left.span.merge right.span) op left right)) c =
        .ok e c') :
    ∃ rest, c'.Shows rest ∧ ∀ start layer, Expression layer start left (op.token :: kinds) →
      Allowed least layer → ¬ layer < op.precedence → Whole least start e rest := by
  obtain ⟨_, mid, advanced, read⟩ := bind_eq_ok.mp read
  obtain ⟨-, rfl⟩ := advance_eq_ok.mp advanced
  obtain ⟨right, mid, second, read⟩ := bind_eq_ok.mp read
  obtain ⟨middle, afterRight, whole⟩ := sound.expression op.precedence op.precedence_lt_call shows.advance second
  obtain ⟨rest, behind, ends⟩ := sound.continued least _ afterRight read
  refine ⟨rest, behind, ?_⟩
  intro start layer first _ notBelow
  obtain ⟨tighter, above, derived⟩ := whole.above
  obtain ⟨_, _, _, stops⟩ := whole
  exact ends start op.precedence (.binary op (first.down notBelow) derived above) (.inl binds) stops

theorem call_round (sound : SoundAt allowance) {least : Precedence} {left : Expr} {e : Expr}
    {c c' : Cursor} {kinds : List TokenKind} (shows : c.Shows (.leftParen :: kinds))
    (binds : least < .call)
    (read : (do
      let _ ← advance
      let args ← listed (Rule.arguments allowance [])
      let span ← previous
      Rule.continued allowance least (.call (left.span.merge span) left args)) c = .ok e c') :
    ∃ rest, c'.Shows rest ∧ ∀ start layer, Expression layer start left (.leftParen :: kinds) →
      Allowed least layer → ¬ layer < .call → Whole least start e rest := by
  obtain ⟨_, mid, advanced, read⟩ := bind_eq_ok.mp read
  obtain ⟨-, rfl⟩ := advance_eq_ok.mp advanced
  obtain ⟨args, mid, held, read⟩ := bind_eq_ok.mp read
  obtain ⟨middle, afterArgs, list⟩ := listed_ok (sound.arguments []) shows.advance held
  obtain ⟨_, mid, passed, read⟩ := bind_eq_ok.mp read
  obtain ⟨-, rfl⟩ := previous_eq_ok.mp passed
  obtain ⟨rest, behind, ends⟩ := sound.continued least _ afterArgs read
  have arguments : Arguments kinds args middle := by
    rcases list with ⟨rfl, rfl⟩ | ⟨more, rfl, items⟩
    · exact .empty
    · exact .items items
  refine ⟨rest, behind, ?_⟩
  intro start layer head _ notBelow
  exact ends start .call (.call (head.down notBelow) arguments) (.inl binds)
    (Precedence.not_call_lt _)

theorem continued_succ (sound : SoundAt allowance) (least : Precedence) (left : Expr) :
    Sound (Rule.continued (allowance + 1) least left) fun input e rest =>
      ∀ start layer, Expression layer start left input → Allowed least layer →
        ¬ layer < (next input).precedence → Whole least start e rest := by
  intro c e c' kinds shows read
  unfold Rule.continued at read
  obtain ⟨_, mid, seen, read⟩ := bind_eq_ok.mp read
  obtain ⟨rfl, rfl⟩ := current_eq_ok.mp seen
  by_cases binds : least < c.current.kind.precedence
  · simp only [binds, if_true] at read
    cases operator : c.current.kind.binaryOp? with
    | none =>
        simp only [operator] at read
        have here := TokenKind.eq_leftParen (Precedence.lowest_lt binds) operator
        obtain ⟨kinds, rfl, _⟩ := shows.exists_cons here (by decide)
        exact call_round sound shows (by rwa [here] at binds) read
    | some op =>
        simp only [operator] at read
        have here := BinaryOp.eq_token operator
        obtain ⟨kinds, rfl, _⟩ := shows.exists_cons here (by cases op <;> decide)
        rw [here, op.precedence_token] at binds
        simpa only [next_cons, op.precedence_token] using binary_round sound shows binds read
  · simp only [binds, if_false] at read
    obtain ⟨rfl, rfl⟩ := pure_eq_ok.mp read
    refine ⟨kinds, shows, ?_⟩
    intro start layer derived allowed _
    rw [shows.current] at binds
    exact ⟨layer, allowed, derived, binds⟩

theorem arguments_succ (sound : SoundAt allowance) (before : List Expr) :
    Sound (Rule.arguments (allowance + 1) before) fun input args rest =>
      ∃ more, args = before.reverse ++ more ∧ Items input more rest := by
  intro c args c' kinds shows read
  unfold Rule.arguments at read
  obtain ⟨arg, mid, first, read⟩ := bind_eq_ok.mp read
  obtain ⟨middle, afterArg, whole⟩ :=
    sound_within _ (sound.expression .lowest (by decide)) shows first
  obtain ⟨ate, mid, eaten, read⟩ := bind_eq_ok.mp read
  rcases eat_ok rfl afterArg eaten with ⟨rfl, middle, rfl, afterComma⟩ | ⟨rfl, _, noComma⟩
  · obtain ⟨rest, behind, more, rfl, items⟩ := sound.arguments (arg :: before) afterComma read
    exact ⟨rest, behind, arg :: more, by simp, .cons whole.lowest items⟩
  · obtain ⟨_, mid, closed, read⟩ := bind_eq_ok.mp read
    obtain ⟨rest, rfl, behind⟩ := expect_ok rfl noComma closed
    obtain ⟨rfl, rfl⟩ := pure_eq_ok.mp read
    exact ⟨rest, behind, [arg], by simp, .last whole.lowest⟩

/-- A form of the tightest layer starts an expression, whatever follows. -/
theorem opening_of_call {c' : Cursor} {input : List TokenKind} {e : Expr}
    (derived : ∃ rest, c'.Shows rest ∧ Expression .call input e rest) :
    ∃ rest, c'.Shows rest ∧ Opening input e rest := by
  obtain ⟨rest, behind, inner⟩ := derived
  exact ⟨rest, behind, .call, by decide, inner, Precedence.not_call_lt _⟩

theorem literal_ok {c c' : Cursor} {kinds : List TokenKind} {kind : TokenKind} {node : Span → Expr}
    {e : Expr} (shows : c.Shows kinds) (here : c.current.kind = kind) (notEnd : kind ≠ .endOfInput)
    (derived : ∀ {span rest}, Expression .call (kind :: rest) (node span) rest)
    (read : (do return node (← advance)) c = .ok e c') :
    ∃ rest, c'.Shows rest ∧ Opening kinds e rest := by
  obtain ⟨kinds, rfl, behind⟩ := shows.exists_cons here notEnd
  obtain ⟨_, mid, advanced, read⟩ := bind_eq_ok.mp read
  obtain ⟨-, rfl⟩ := advance_eq_ok.mp advanced
  obtain ⟨rfl, rfl⟩ := pure_eq_ok.mp read
  exact opening_of_call ⟨kinds, behind, derived⟩

theorem operand_succ (sound : SoundAt allowance) :
    Sound (Rule.operand (allowance + 1)) Opening := by
  intro c e c' kinds shows read
  obtain ⟨_, mid, seen, read⟩ := bind_eq_ok.mp read
  obtain ⟨rfl, rfl⟩ := current_eq_ok.mp seen
  cases here : c.current.kind with
  | ident name =>
      simp only [here] at read
      exact literal_ok shows here (by simp) .ident read
  | int value =>
      simp only [here] at read
      exact literal_ok shows here (by simp) .int read
  | trueKeyword =>
      simp only [here] at read
      exact literal_ok shows here (by simp) .trueLiteral read
  | falseKeyword =>
      simp only [here] at read
      exact literal_ok shows here (by simp) .falseLiteral read
  | bang =>
      simp only [here] at read
      obtain ⟨kinds, rfl, _⟩ := shows.exists_cons here (by decide)
      exact unary_ok .not (sound.expression .unary (by decide)) shows read
  | minus =>
      simp only [here] at read
      obtain ⟨kinds, rfl, _⟩ := shows.exists_cons here (by decide)
      exact unary_ok .neg (sound.expression .unary (by decide)) shows read
  | leftParen =>
      simp only [here] at read
      obtain ⟨kinds, rfl, _⟩ := shows.exists_cons here (by decide)
      exact opening_of_call (grouping_ok (sound.expression .lowest (by decide)) shows read)
  | ifKeyword =>
      simp only [here] at read
      obtain ⟨kinds, rfl, _⟩ := shows.exists_cons here (by decide)
      exact opening_of_call
        (conditional_ok (sound.expression .lowest (by decide)) (sound.block _) shows read)
  | fnKeyword =>
      simp only [here] at read
      obtain ⟨kinds, rfl, _⟩ := shows.exists_cons here (by decide)
      exact opening_of_call (function_ok (sound_names allowance) (sound.block _) shows read)
  | _ =>
      simp only [here] at read
      exact absurd read noExpression_ne_ok

theorem succ (sound : SoundAt allowance) : SoundAt (allowance + 1) where
  statement := statement_succ sound
  returned := returned_succ sound
  block := block_succ sound
  statements := statements_succ sound
  expression := expression_succ sound
  continued := continued_succ sound
  arguments := arguments_succ sound
  operand := operand_succ sound

end SoundAt

/-- Whatever the allowance, the rules read only what the grammar derives. -/
theorem soundAt (allowance : Nat) : SoundAt allowance := by
  induction allowance with
  | zero => exact .zero
  | succ allowance ih => exact .succ ih

theorem program_faults_ne_nil (bound allowance : Nat) (read : List Stmt) (fault : SyntaxFault)
    (faults : List SyntaxFault) (c : Cursor) :
    (program bound allowance read (fault :: faults) c).2 ≠ [] := by
  induction bound generalizing read fault faults c with
  | zero => simp [program]
  | succ bound ih =>
      unfold program
      split
      · simp
      · split
        · exact ih _ _ _ _
        · exact ih _ _ _ _

theorem program_ok {bound allowance : Nat} {read ts : List Stmt} {c : Cursor}
    {kinds : List TokenKind} (shows : c.Shows kinds) (enough : kinds.length ≤ bound)
    (parsed : program bound allowance read [] c = (ts, [])) :
    ∃ more, ts = read.reverse ++ more ∧ Statements kinds more [] := by
  induction bound generalizing read c kinds with
  | zero =>
      obtain rfl := List.length_eq_zero_iff.mp (Nat.le_zero.mp enough)
      cases parsed
      exact ⟨[], by simp, .nil⟩
  | succ bound ih =>
      unfold program at parsed
      by_cases finished : c.atEnd = true
      · obtain rfl := shows.atEnd_iff.mp finished
        simp only [finished, if_true] at parsed
        cases parsed
        exact ⟨[], by simp, .nil⟩
      · simp only [finished, Bool.false_eq_true, if_false] at parsed
        cases first : statement allowance c with
        | error fault mid =>
            simp only [first] at parsed
            exact absurd (congrArg Prod.snd parsed) (program_faults_ne_nil _ _ _ _ _ _)
        | ok t mid =>
            simp only [first] at parsed
            obtain ⟨middle, afterFirst, head⟩ := (soundAt allowance).statement shows first
            have shorter := head.length_lt
            obtain ⟨more, rfl, tail⟩ := ih afterFirst (by omega) parsed
            exact ⟨t :: more, by simp, .cons head tail⟩

end Rule

/-- Whatever the parser accepts is derived by the grammar from exactly the tokens that it was given:
    none is skipped, and none stands for two places of the tree. -/
theorem derives_of_parseTokens {ts : List Token} {stop : Span} {p : Program}
    (noEnd : ∀ t ∈ ts, t.kind ≠ .endOfInput)
    (parsed : parseTokens (ts ++ [⟨.endOfInput, stop⟩]) = .ok p) :
    Grammar.Derives (ts.map Token.kind) p := by
  unfold parseTokens at parsed
  cases tokens : ts ++ [⟨.endOfInput, stop⟩] with
  | nil => simp at tokens
  | cons current rest =>
      have shows := Cursor.shows_of_tokens ts stop 0 .zero current rest tokens noEnd
      have size : ts.length ≤ (current :: rest).length := by
        rw [← tokens]
        simp
      rw [tokens] at parsed
      simp only [Cursor.ofTokens?] at parsed
      split at parsed
      · rename_i statements read
        cases parsed
        obtain ⟨more, same, derived⟩ := Rule.program_ok shows (by simpa using size) read
        simpa [Grammar.Derives, same] using derived
      · cases parsed

/-- `return -a * f(1)`. -/
theorem derives_of_parseTokens_product :
    Grammar.Derives
      [.returnKeyword, .minus, .ident "a", .star, .ident "f", .leftParen, .int 1, .rightParen]
      ⟨[.ret ⟨0, 16⟩ (some (.binary ⟨7, 16⟩ .mul (.unary ⟨7, 9⟩ .neg (.ident ⟨8, 9⟩ "a"))
        (.call ⟨12, 16⟩ (.ident ⟨12, 13⟩ "f") [.int ⟨14, 15⟩ 1])))]⟩ :=
  @derives_of_parseTokens
    [⟨.returnKeyword, ⟨0, 6⟩⟩, ⟨.minus, ⟨7, 8⟩⟩, ⟨.ident "a", ⟨8, 9⟩⟩, ⟨.star, ⟨10, 11⟩⟩,
      ⟨.ident "f", ⟨12, 13⟩⟩, ⟨.leftParen, ⟨13, 14⟩⟩, ⟨.int 1, ⟨14, 15⟩⟩, ⟨.rightParen, ⟨15, 16⟩⟩]
    ⟨16, 16⟩ _ (by decide) rfl

end TreeWalk
