import TreeWalk.Proofs.Soundness

/-! # Tokens that can be completed

What the grammar derives from some tokens it derives from them whatever follows. Only the end of a
statement depends on what is behind it, and there a closing brace or the end is always right.

Tokens are viable if something can be put behind them so that the grammar derives the whole. Every
place of the grammar where reading can stop is viable, because what is still missing there has a
shortest form: a name for an expression, an empty list, an empty block, a semicolon.
-/

namespace TreeWalk

theorem BinaryOp.token_ne_end (op : BinaryOp) : TokenKind.endOfInput ≠ op.token := by
  cases op <;> decide

theorem UnaryOp.token_ne_end (op : UnaryOp) : TokenKind.endOfInput ≠ op.token := by
  cases op <;> decide

namespace Grammar

variable {α : Type}

/-- The tokens derive `a`, whatever follows. -/
def Free (derives : List TokenKind → α → List TokenKind → Prop) (u : List TokenKind) (a : α) :
    Prop :=
  ∀ rest, derives (u ++ rest) a rest

/-- The derivation consumes some tokens, and consumes them whatever follows. -/
def Consumes (derives : List TokenKind → α → List TokenKind → Prop) (input : List TokenKind)
    (a : α) (rest : List TokenKind) : Prop :=
  ∃ u, input = u ++ rest ∧ .endOfInput ∉ u ∧ Free derives u a

/-- Behind statements there may stand a closing brace or the end. -/
def Closes (rest : List TokenKind) : Prop := rest = [] ∨ next rest = .rightBrace

/-- What stands behind statements may be replaced by what closes them, or by tokens that start in
    the same way. -/
def Fits (rest rest' : List TokenKind) : Prop :=
  Closes rest' ∨ (rest ≠ [] ∧ next rest' = next rest)

/-- The derivation consumes some tokens, and consumes them before all that fits as well. -/
def ConsumesBefore (derives : List TokenKind → α → List TokenKind → Prop) (input : List TokenKind)
    (a : α) (rest : List TokenKind) : Prop :=
  ∃ u, input = u ++ rest ∧ .endOfInput ∉ u ∧ ∀ rest', Fits rest rest' → derives (u ++ rest') a rest'

theorem Fits.append {u rest rest' : List TokenKind} (fits : Fits rest rest') :
    Fits (u ++ rest) (u ++ rest') := by
  cases u with
  | nil => exact fits
  | cons kind u => exact .inr ⟨nofun, rfl⟩

theorem Ends.consumes (ends : Ends middle rest) :
    ∃ u, middle = u ++ rest ∧ .endOfInput ∉ u ∧
      ∀ rest', Fits rest rest' → Ends (u ++ rest') rest' := by
  cases ends with
  | semicolon => exact ⟨[.semicolon], rfl, by simp, fun _ _ => .semicolon⟩
  | omitted noCall noOperator =>
      refine ⟨[], rfl, by simp, fun rest' fits => ?_⟩
      rcases fits with (rfl | brace) | ⟨_, same⟩
      · exact .omitted (by decide) rfl
      · exact .omitted (by simp [brace]) (by simp [brace, TokenKind.binaryOp?])
      · exact .omitted (same ▸ noCall) (same ▸ noOperator)

theorem BareEnds.consumes (ends : BareEnds input rest) :
    ∃ u, input = u ++ rest ∧ .endOfInput ∉ u ∧
      ∀ rest', Fits rest rest' → BareEnds (u ++ rest') rest' := by
  have closed : ∀ {rest'}, Closes rest' → BareEnds rest' rest' := by
    rintro rest' (rfl | brace)
    · exact .finish
    · exact .brace brace
  cases ends with
  | semicolon => exact ⟨[.semicolon], rfl, by simp, fun _ _ => .semicolon⟩
  | brace here =>
      refine ⟨[], rfl, by simp, fun rest' fits => ?_⟩
      rcases fits with closes | ⟨_, same⟩
      · exact closed closes
      · exact .brace (same.trans here)
  | finish =>
      refine ⟨[], rfl, by simp, fun rest' fits => ?_⟩
      rcases fits with closes | ⟨some, _⟩
      · exact closed closes
      · exact absurd rfl some

theorem Names.consumes (names : Names input ns rest) : Consumes Names input ns rest := by
  induction names with
  | @last name rest => exact ⟨[.ident name, .rightParen], rfl, by simp, fun _ => .last⟩
  | @cons input names rest name _ ih =>
      obtain ⟨u, rfl, noEnd, free⟩ := ih
      exact ⟨.ident name :: .comma :: u, rfl, by simp [noEnd], fun more => .cons (free more)⟩

theorem Params.consumes (params : Params input ns rest) : Consumes Params input ns rest := by
  cases params with
  | empty => exact ⟨[.rightParen], rfl, by simp, fun _ => .empty⟩
  | items list =>
      obtain ⟨u, rfl, noEnd, free⟩ := list.consumes
      exact ⟨u, rfl, noEnd, fun more => .items (free more)⟩

theorem consumes_group (inner : Consumes (Expression .lowest) input e (.rightParen :: rest)) :
    Consumes (Expression .call) (.leftParen :: input) (e.withSpan span) rest := by
  obtain ⟨u, rfl, noEnd, free⟩ := inner
  refine ⟨.leftParen :: u ++ [.rightParen], by simp, by simp [noEnd], fun more => ?_⟩
  simpa using Expression.group (free (.rightParen :: more))

theorem consumes_cond (test : Consumes (Expression .lowest) input condition (.rightParen :: middle))
    (branch : Consumes Braced middle consequence rest) :
    Consumes (Expression .call) (.ifKeyword :: .leftParen :: input)
      (.cond span condition consequence none) rest := by
  obtain ⟨u, rfl, noEnd, free⟩ := test
  obtain ⟨v, rfl, noEndThen, freeThen⟩ := branch
  refine ⟨.ifKeyword :: .leftParen :: u ++ .rightParen :: v, by simp, by simp [noEnd, noEndThen],
    fun more => ?_⟩
  simpa using Expression.cond (free (.rightParen :: (v ++ more))) (freeThen more)

theorem consumes_condElse
    (test : Consumes (Expression .lowest) input condition (.rightParen :: middle))
    (branch : Consumes Braced middle consequence (.elseKeyword :: last))
    (other : Consumes Braced last alternative rest) :
    Consumes (Expression .call) (.ifKeyword :: .leftParen :: input)
      (.cond span condition consequence (some alternative)) rest := by
  obtain ⟨u, rfl, noEnd, free⟩ := test
  obtain ⟨v, rfl, noEndThen, freeThen⟩ := branch
  obtain ⟨w, rfl, noEndElse, freeElse⟩ := other
  refine ⟨.ifKeyword :: .leftParen :: u ++ .rightParen :: v ++ .elseKeyword :: w, by simp,
    by simp [noEnd, noEndThen, noEndElse], fun more => ?_⟩
  simpa using Expression.condElse (free (.rightParen :: (v ++ .elseKeyword :: (w ++ more))))
    (freeThen (.elseKeyword :: (w ++ more))) (freeElse more)

theorem consumes_fn (names : Consumes Params input params middle)
    (code : Consumes Braced middle body rest) :
    Consumes (Expression .call) (.fnKeyword :: .leftParen :: input)
      (.fn span literalSpan params body) rest := by
  obtain ⟨u, rfl, noEnd, free⟩ := names
  obtain ⟨v, rfl, noEndBody, freeBody⟩ := code
  refine ⟨.fnKeyword :: .leftParen :: u ++ v, by simp, by simp [noEnd, noEndBody], fun more => ?_⟩
  simpa using Expression.fn (free (v ++ more)) (freeBody more)

theorem consumes_call (head : Consumes (Expression .call) input callee (.leftParen :: middle))
    (list : Consumes Arguments middle args rest) :
    Consumes (Expression .call) input (.call span callee args) rest := by
  obtain ⟨u, rfl, noEnd, free⟩ := head
  obtain ⟨v, rfl, noEndList, freeList⟩ := list
  refine ⟨u ++ .leftParen :: v, by simp, by simp [noEnd, noEndList], fun more => ?_⟩
  simpa using Expression.call (free (.leftParen :: (v ++ more))) (freeList more)

theorem consumes_unary (op : UnaryOp) (inner : Consumes (Expression .unary) input operand rest) :
    Consumes (Expression .unary) (op.token :: input) (.unary span op operand) rest := by
  obtain ⟨u, rfl, noEnd, free⟩ := inner
  exact ⟨op.token :: u, rfl, by simp [op.token_ne_end, noEnd], fun more => .unary op (free more)⟩

theorem consumes_binary (op : BinaryOp)
    (first : Consumes (Expression op.precedence) input left (op.token :: middle))
    (second : Consumes (Expression tighter) middle right rest) (above : op.precedence < tighter) :
    Consumes (Expression op.precedence) input (.binary span op left right) rest := by
  obtain ⟨u, rfl, noEnd, free⟩ := first
  obtain ⟨v, rfl, noEndRight, freeRight⟩ := second
  refine ⟨u ++ op.token :: v, by simp, by simp [op.token_ne_end, noEnd, noEndRight],
    fun more => ?_⟩
  simpa using Expression.binary op (free (op.token :: (v ++ more))) (freeRight more) above

theorem consumes_items_last (item : Consumes (Expression .lowest) input arg (.rightParen :: rest)) :
    Consumes Items input [arg] rest := by
  obtain ⟨u, rfl, noEnd, free⟩ := item
  refine ⟨u ++ [.rightParen], by simp, by simp [noEnd], fun more => ?_⟩
  simpa using Items.last (free (.rightParen :: more))

theorem consumes_items_cons (item : Consumes (Expression .lowest) input arg (.comma :: middle))
    (more : Consumes Items middle args rest) : Consumes Items input (arg :: args) rest := by
  obtain ⟨u, rfl, noEnd, free⟩ := item
  obtain ⟨v, rfl, noEndMore, freeMore⟩ := more
  refine ⟨u ++ .comma :: v, by simp, by simp [noEnd, noEndMore], fun more => ?_⟩
  simpa using Items.cons (free (.comma :: (v ++ more))) (freeMore more)

theorem consumes_bind (inner : Consumes (Expression .lowest) input value middle)
    (ends : Ends middle rest) :
    ConsumesBefore Statement (.letKeyword :: .ident name :: .assign :: input)
      (.bind span name value) rest := by
  obtain ⟨u, rfl, noEnd, free⟩ := inner
  obtain ⟨v, rfl, noEndLast, ends⟩ := ends.consumes
  refine ⟨.letKeyword :: .ident name :: .assign :: u ++ v, by simp, by simp [noEnd, noEndLast],
    fun more fits => ?_⟩
  simpa using Statement.bind (free (v ++ more)) (ends more fits)

theorem consumes_ret (inner : Consumes (Expression .lowest) input value middle)
    (ends : Ends middle rest) :
    ConsumesBefore Statement (.returnKeyword :: input) (.ret span (some value)) rest := by
  obtain ⟨u, rfl, noEnd, free⟩ := inner
  obtain ⟨v, rfl, noEndLast, ends⟩ := ends.consumes
  refine ⟨.returnKeyword :: u ++ v, by simp, by simp [noEnd, noEndLast], fun more fits => ?_⟩
  simpa using Statement.ret (free (v ++ more)) (ends more fits)

theorem consumes_retNothing (ends : BareEnds input rest) :
    ConsumesBefore Statement (.returnKeyword :: input) (.ret span none) rest := by
  obtain ⟨v, rfl, noEnd, ends⟩ := ends.consumes
  exact ⟨.returnKeyword :: v, rfl, by simp [noEnd], fun more fits => .retNothing (ends more fits)⟩

theorem consumes_expr (inner : Consumes (Expression .lowest) input value middle)
    (ends : Ends middle rest) : ConsumesBefore Statement input (.expr span value) rest := by
  obtain ⟨u, rfl, noEnd, free⟩ := inner
  obtain ⟨v, rfl, noEndLast, ends⟩ := ends.consumes
  refine ⟨u ++ v, by simp, by simp [noEnd, noEndLast], fun more fits => ?_⟩
  simpa using Statement.expr (free (v ++ more)) (ends more fits)

theorem consumes_cons (head : ConsumesBefore Statement input t middle)
    (tail : ConsumesBefore Statements middle ts rest) :
    ConsumesBefore Statements input (t :: ts) rest := by
  obtain ⟨u, rfl, noEnd, before⟩ := head
  obtain ⟨v, rfl, noEndTail, behind⟩ := tail
  refine ⟨u ++ v, by simp, by simp [noEnd, noEndTail], fun more fits => ?_⟩
  simpa using Statements.cons (before (v ++ more) fits.append) (behind more fits)

theorem consumes_braced (inner : ConsumesBefore Statements input ts (.rightBrace :: rest)) :
    Consumes Braced (.leftBrace :: input) (.mk span ts) rest := by
  obtain ⟨u, rfl, noEnd, before⟩ := inner
  refine ⟨.leftBrace :: u ++ [.rightBrace], by simp, by simp [noEnd], fun more => ?_⟩
  simpa using Braced.mk (before (.rightBrace :: more) (.inl (.inr rfl)))

mutual

theorem Expression.consumes : Expression layer input e rest →
    Consumes (Expression layer) input e rest
  | .ident => ⟨[.ident _], rfl, by simp, fun _ => .ident⟩
  | .int => ⟨[.int _], rfl, by simp, fun _ => .int⟩
  | .trueLiteral => ⟨[.trueKeyword], rfl, by simp, fun _ => .trueLiteral⟩
  | .falseLiteral => ⟨[.falseKeyword], rfl, by simp, fun _ => .falseLiteral⟩
  | .group inner => consumes_group inner.consumes
  | .cond test branch => consumes_cond test.consumes branch.consumes
  | .condElse test branch other => consumes_condElse test.consumes branch.consumes other.consumes
  | .fn names code => consumes_fn names.consumes code.consumes
  | .call head list => consumes_call head.consumes list.consumes
  | .unary op inner => consumes_unary op inner.consumes
  | .binary op first second above => consumes_binary op first.consumes second.consumes above
  | .looser inner above => by
      obtain ⟨u, cut, noEnd, free⟩ := inner.consumes
      exact ⟨u, cut, noEnd, fun more => (free more).looser above⟩

theorem Arguments.consumes : Arguments input args rest → Consumes Arguments input args rest
  | .empty => ⟨[.rightParen], rfl, by simp, fun _ => .empty⟩
  | .items list => by
      obtain ⟨u, cut, noEnd, free⟩ := list.consumes
      exact ⟨u, cut, noEnd, fun more => .items (free more)⟩

theorem Items.consumes : Items input args rest → Consumes Items input args rest
  | .last item => consumes_items_last item.consumes
  | .cons item more => consumes_items_cons item.consumes more.consumes

theorem Statement.consumes : Statement input t rest → ConsumesBefore Statement input t rest
  | .bind inner ends => consumes_bind inner.consumes ends
  | .ret inner ends => consumes_ret inner.consumes ends
  | .retNothing ends => consumes_retNothing ends
  | .expr inner ends => consumes_expr inner.consumes ends

theorem Statements.consumes : Statements input ts rest → ConsumesBefore Statements input ts rest
  | .nil => ⟨[], rfl, by simp, fun _ _ => .nil⟩
  | .cons head tail => consumes_cons head.consumes tail.consumes

theorem Braced.consumes : Braced input b rest → Consumes Braced input b rest
  | .mk inner => consumes_braced inner.consumes

end

/-- With some tokens behind them, these derive something, whatever follows. -/
def Viable (derives : List TokenKind → α → List TokenKind → Prop) (u : List TokenKind) : Prop :=
  ∃ w a, Free derives (u ++ w) a

/-- With some tokens behind them, these derive statements, if a closing brace or the end follows.
    No tokens at all need none behind them. -/
def ViableStatements (u : List TokenKind) : Prop :=
  ∃ w ts, (u = [] → w = []) ∧ ∀ rest, Closes rest → Statements (u ++ (w ++ rest)) ts rest

variable {u v w : List TokenKind}

theorem Free.viable {derives : List TokenKind → α → List TokenKind → Prop} {a : α}
    (free : Free derives u a) : Viable derives u :=
  ⟨[], a, by rwa [List.append_nil]⟩

theorem Viable.before {derives : List TokenKind → α → List TokenKind → Prop}
    (viable : Viable derives (u ++ v)) : Viable derives u := by
  obtain ⟨w, a, free⟩ := viable
  exact ⟨v ++ w, a, by rwa [← List.append_assoc]⟩

theorem Free.down {layer lower : Precedence} (free : Free (Expression layer) u e)
    (notBelow : ¬ layer < lower) : Free (Expression lower) u e :=
  fun rest => (free rest).down notBelow

theorem Viable.down {layer lower : Precedence} (viable : Viable (Expression layer) u)
    (notBelow : ¬ layer < lower) : Viable (Expression lower) u := by
  obtain ⟨w, e, free⟩ := viable
  exact ⟨w, e, free.down notBelow⟩

theorem viable_operand : Viable (Expression .call) [] :=
  ⟨[.ident "x"], .ident .zero "x", fun _ => .ident⟩

theorem viable_expression : Viable (Expression .lowest) [] := viable_operand.down (by decide)

theorem viable_group (inner : Viable (Expression .lowest) v) :
    Viable (Expression .call) (.leftParen :: v) := by
  obtain ⟨w, e, free⟩ := inner
  refine ⟨w ++ [.rightParen], e.withSpan .zero, fun rest => ?_⟩
  simpa using Expression.group (free (.rightParen :: rest))

theorem viable_unary (op : UnaryOp) (inner : Viable (Expression .unary) v) :
    Viable (Expression .unary) (op.token :: v) := by
  obtain ⟨w, e, free⟩ := inner
  exact ⟨w, .unary .zero op e, fun rest => .unary op (free rest)⟩

theorem viable_binary (op : BinaryOp) (first : Free (Expression op.precedence) u left)
    (second : Viable (Expression tighter) v) (above : op.precedence < tighter) :
    Viable (Expression op.precedence) (u ++ op.token :: v) := by
  obtain ⟨w, e, free⟩ := second
  refine ⟨w, .binary .zero op left e, fun rest => ?_⟩
  simpa using Expression.binary op (first (op.token :: (v ++ w ++ rest))) (free rest) above

theorem viable_call (head : Free (Expression .call) u callee) (list : Viable Arguments v) :
    Viable (Expression .call) (u ++ .leftParen :: v) := by
  obtain ⟨w, args, free⟩ := list
  refine ⟨w, .call .zero callee args, fun rest => ?_⟩
  simpa using Expression.call (head (.leftParen :: (v ++ w ++ rest))) (free rest)

theorem viable_items (item : Viable (Expression .lowest) v) : Viable Items v := by
  obtain ⟨w, e, free⟩ := item
  refine ⟨w ++ [.rightParen], [e], fun rest => ?_⟩
  simpa using Items.last (free (.rightParen :: rest))

theorem viable_more_items (item : Free (Expression .lowest) u e) (more : Viable Items v) :
    Viable Items (u ++ .comma :: v) := by
  obtain ⟨w, args, free⟩ := more
  refine ⟨w, e :: args, fun rest => ?_⟩
  simpa using Items.cons (item (.comma :: (v ++ w ++ rest))) (free rest)

theorem viable_arguments (list : Viable Items v) : Viable Arguments v := by
  obtain ⟨w, args, free⟩ := list
  exact ⟨w, args, fun rest => .items (free rest)⟩

theorem viable_names : Viable Names [] :=
  ⟨[.ident "x", .rightParen], ["x"], fun _ => .last⟩

theorem viable_more_names (name : String) (more : Viable Names v) :
    Viable Names (.ident name :: .comma :: v) := by
  obtain ⟨w, names, free⟩ := more
  exact ⟨w, name :: names, fun rest => .cons (free rest)⟩

theorem viable_params (list : Viable Names v) : Viable Params v := by
  obtain ⟨w, names, free⟩ := list
  exact ⟨w, names, fun rest => .items (free rest)⟩

theorem viable_braced (inner : ViableStatements v) : Viable Braced (.leftBrace :: v) := by
  obtain ⟨w, ts, _, derived⟩ := inner
  refine ⟨w ++ [.rightBrace], .mk .zero ts, fun rest => ?_⟩
  simpa using Braced.mk (derived (.rightBrace :: rest) (.inr rfl))

theorem viable_statements : ViableStatements [] := ⟨[], [], fun _ => rfl, fun _ _ => .nil⟩

theorem viable_block : Viable Braced [] := Viable.before (u := []) (viable_braced viable_statements)

theorem viable_test (test : Viable (Expression .lowest) v) :
    Viable (Expression .call) (.ifKeyword :: .leftParen :: v) := by
  obtain ⟨w, e, free⟩ := test
  obtain ⟨braces, b, freeBlock⟩ := viable_block
  refine ⟨w ++ .rightParen :: braces, .cond .zero e b none, fun rest => ?_⟩
  simpa using Expression.cond (free (.rightParen :: (braces ++ rest))) (freeBlock rest)

theorem viable_branch (test : Free (Expression .lowest) u e) (branch : Viable Braced v) :
    Viable (Expression .call) (.ifKeyword :: .leftParen :: (u ++ .rightParen :: v)) := by
  obtain ⟨w, b, free⟩ := branch
  refine ⟨w, .cond .zero e b none, fun rest => ?_⟩
  simpa using Expression.cond (test (.rightParen :: (v ++ w ++ rest))) (free rest)

theorem viable_other (test : Free (Expression .lowest) u e) (branch : Free Braced v b)
    (other : Viable Braced w) :
    Viable (Expression .call)
      (.ifKeyword :: .leftParen :: (u ++ .rightParen :: (v ++ .elseKeyword :: w))) := by
  obtain ⟨x, b', free⟩ := other
  refine ⟨x, .cond .zero e b (some b'), fun rest => ?_⟩
  simpa using Expression.condElse (test (.rightParen :: (v ++ .elseKeyword :: (w ++ x ++ rest))))
    (branch (.elseKeyword :: (w ++ x ++ rest))) (free rest)

theorem viable_function (names : Viable Params v) :
    Viable (Expression .call) (.fnKeyword :: .leftParen :: v) := by
  obtain ⟨w, params, free⟩ := names
  obtain ⟨braces, b, freeBlock⟩ := viable_block
  refine ⟨w ++ braces, .fn .zero .zero params b, fun rest => ?_⟩
  simpa using Expression.fn (free (braces ++ rest)) (freeBlock rest)

theorem viable_body (names : Free Params u params) (code : Viable Braced v) :
    Viable (Expression .call) (.fnKeyword :: .leftParen :: (u ++ v)) := by
  obtain ⟨w, b, free⟩ := code
  refine ⟨w, .fn .zero .zero params b, fun rest => ?_⟩
  simpa using Expression.fn (names (v ++ w ++ rest)) (free rest)

theorem viable_bind (name : String) (value : Viable (Expression .lowest) v) :
    Viable Statement (.letKeyword :: .ident name :: .assign :: v) := by
  obtain ⟨w, e, free⟩ := value
  refine ⟨w ++ [.semicolon], .bind .zero name e, fun rest => ?_⟩
  simpa using Statement.bind (free (.semicolon :: rest)) .semicolon

theorem viable_ret (value : Viable (Expression .lowest) v) :
    Viable Statement (.returnKeyword :: v) := by
  obtain ⟨w, e, free⟩ := value
  refine ⟨w ++ [.semicolon], .ret .zero (some e), fun rest => ?_⟩
  simpa using Statement.ret (free (.semicolon :: rest)) .semicolon

theorem viable_expr (value : Viable (Expression .lowest) v) : Viable Statement v := by
  obtain ⟨w, e, free⟩ := value
  refine ⟨w ++ [.semicolon], .expr .zero e, fun rest => ?_⟩
  simpa using Statement.expr (free (.semicolon :: rest)) .semicolon

theorem Viable.statements (viable : Viable Statement u) : ViableStatements u := by
  obtain ⟨w, t, free⟩ := viable
  by_cases empty : u = []
  · rw [empty]
    exact viable_statements
  · refine ⟨w, [t], fun none => absurd none empty, fun rest _ => ?_⟩
    rw [← List.append_assoc]
    exact .cons (free rest) .nil

theorem viable_more_statements
    (head : ∀ rest', Fits (v ++ rest) rest' → Statement (u ++ rest') t rest')
    (tail : ViableStatements v) : ViableStatements (u ++ v) := by
  obtain ⟨w, ts, added, derived⟩ := tail
  refine ⟨w, t :: ts, fun none => added (List.append_eq_nil_iff.mp none).2, fun more closes => ?_⟩
  rw [List.append_assoc]
  refine .cons (head _ ?_) (derived more closes)
  cases v with
  | nil =>
      rw [added rfl]
      exact .inl closes
  | cons kind v => exact .inr ⟨nofun, rfl⟩

/-- Viable statements are the beginning of a program. -/
theorem ViableStatements.derives (viable : ViableStatements u) :
    ∃ w p, .endOfInput ∉ w ∧ Derives (u ++ w) p := by
  obtain ⟨w, ts, _, derived⟩ := viable
  have program := derived [] (.inl rfl)
  obtain ⟨v, cut, noEnd, _⟩ := program.consumes
  rw [List.append_nil] at program
  rw [List.append_nil, List.append_nil] at cut
  refine ⟨w, ⟨ts⟩, ?_, program⟩
  intro ended
  exact noEnd (cut ▸ List.mem_append_right u ended)

end Grammar

end TreeWalk
