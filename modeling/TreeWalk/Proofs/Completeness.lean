import TreeWalk.Proofs.Bare
import TreeWalk.Proofs.Reading

/-! # The parser accepts all of the grammar

Where the grammar derives a tree, the rules read it, up to spans, and stop behind the last of its
tokens. The proof is one recursion over derivations.

The climbing loop builds from the left what the grammar derives from the top, so an expression is
not said to be read but to be climbed: after some rounds the loop stands behind it with the
expression as its left operand. It goes on from there, or stops if the next token does not bind.

Every rule gets an allowance of eight steps for each token ahead, and a few more.
-/

namespace TreeWalk

open Grammar

namespace Rule

variable {α β γ : Type} {c : Cursor} {kinds input middle last rest : List TokenKind}

/-- The rule succeeds at the cursor with a result of this form, and stops before `rest`. -/
def Gives (rule : Rule α) (form : α → β) (c : Cursor) (b : β) (rest : List TokenKind) : Prop :=
  ∃ a c', rule c = .ok a c' ∧ form a = b ∧ c'.Shows rest

/-- The rule succeeds in the same way wherever the cursor shows `input`. -/
def Accepts (rule : Rule α) (form : α → β) (input : List TokenKind) (b : β)
    (rest : List TokenKind) : Prop :=
  ∀ ⦃c : Cursor⦄, c.Shows input → Gives rule form c b rest

theorem gives_bind {rule : Rule γ} {after : γ → Rule α} {form : α → β} {b : β} {a : γ}
    {mid : Cursor} (read : rule c = .ok a mid) (later : Gives (after a) form mid b rest) :
    Gives (rule >>= after) form c b rest := by
  obtain ⟨result, c', reads, same, behind⟩ := later
  exact ⟨result, c', (bind_of_ok read).trans reads, same, behind⟩

theorem gives_pure {form : α → β} {a : α} {b : β} (same : form a = b) (shows : c.Shows rest) :
    Gives (pure a) form c b rest :=
  ⟨a, c, rfl, same, shows⟩

theorem eat_of_ends (ends : Ends kinds rest) (follows : followsStatement (next rest) = true)
    (shows : c.Shows kinds) : ∃ ate c', eat .semicolon c = .ok ate c' ∧ c'.Shows rest := by
  cases ends with
  | semicolon => exact ⟨true, c.advance, eat_of_shows rfl shows, shows.advance⟩
  | omitted _ _ =>
      have other : next kinds ≠ .semicolon := by
        intro semicolon
        rw [semicolon] at follows
        cases follows
      exact ⟨false, c, eat_of_ne rfl shows other, shows⟩

/-- An allowance that is enough for one step leaves enough for the rest. -/
theorem exists_step {need allowance : Nat} (enough : need + 1 ≤ allowance) :
    ∃ spared, allowance = spared + 1 ∧ need ≤ spared :=
  ⟨allowance - 1, by omega, by omega⟩

theorem names_gives (names : Names input ns rest) (read : List String) (allowance : Nat)
    (enough : input.length ≤ allowance) (shows : c.Shows input) :
    Gives (params allowance read) id c (read.reverse ++ ns) rest := by
  induction names generalizing c read allowance with
  | last =>
      obtain ⟨allowance, rfl, _⟩ := exists_step enough
      apply gives_bind (expectName_of_shows _ shows)
      apply gives_bind (eat_of_ne rfl shows.advance (by simp))
      apply gives_bind (expect_of_shows _ rfl shows.advance)
      exact gives_pure (by simp) shows.advance.advance
  | @cons _ _ _ name more ih =>
      obtain ⟨allowance, rfl, spare⟩ := exists_step enough
      have later := ih (name :: read) allowance (Nat.le_of_succ_le spare) shows.advance.advance
      apply gives_bind (expectName_of_shows _ shows)
      apply gives_bind (eat_of_shows rfl shows.advance)
      simpa using later

/-- A list in parentheses is read by its items, unless the parenthesis closes at once. -/
theorem listed_gives {items : Rule (List α)} {form : List α → β} {b : β}
    (open_ : next input ≠ .rightParen) (shows : c.Shows input) (gives : Gives items form c b rest) :
    Gives (listed items) form c b rest := by
  apply gives_bind (eat_of_ne rfl shows open_)
  exact gives

theorem listed_gives_nil {items : Rule (List α)} {form : List α → β}
    (shows : c.Shows (.rightParen :: rest)) : Gives (listed items) form c (form []) rest := by
  apply gives_bind (eat_of_shows rfl shows)
  exact gives_pure rfl shows.advance

theorem params_gives (params : Params input ns rest) (allowance : Nat)
    (enough : input.length ≤ allowance) (shows : c.Shows input) :
    Gives (listed (Rule.params allowance [])) id c ns rest := by
  cases params with
  | empty => exact listed_gives_nil shows
  | items names =>
      have notClosed : next input ≠ .rightParen := by cases names <;> simp
      exact listed_gives notClosed shows (names_gives names [] allowance enough shows)

theorem binding_gives {value : Rule Expr} {e : Expr} {name : String} {span : Span}
    (reads : Accepts value Expr.bare input e.bare middle) (ends : Ends middle rest)
    (follows : followsStatement (next rest) = true)
    (shows : c.Shows (.letKeyword :: .ident name :: .assign :: input)) :
    Gives (binding value) Stmt.bare c (Stmt.bind span name e).bare rest := by
  obtain ⟨e', mid, valued, alike, afterValue⟩ := reads shows.advance.advance.advance
  obtain ⟨ate, c', eaten, behind⟩ := eat_of_ends ends follows afterValue
  apply gives_bind advance_ok
  apply gives_bind (expectName_of_shows _ shows.advance)
  apply gives_bind (expect_of_shows _ rfl shows.advance.advance)
  apply gives_bind (within_eq_ok.mpr valued)
  apply gives_bind eaten
  apply gives_bind previous_ok
  exact gives_pure (by simp only [Stmt.bare, Stmt.mapSpans, alike]) behind

theorem returning_gives {value : Rule (Option Expr)} {e : Option Expr} {span : Span}
    (reads : Accepts value (Option.map Expr.bare) input (e.map Expr.bare) middle)
    (ends : ∀ {mid : Cursor}, mid.Shows middle →
      ∃ ate c', eat .semicolon mid = .ok ate c' ∧ c'.Shows rest)
    (shows : c.Shows (.returnKeyword :: input)) :
    Gives (returning value) Stmt.bare c (Stmt.ret span e).bare rest := by
  obtain ⟨e', mid, valued, alike, afterValue⟩ := reads shows.advance
  obtain ⟨ate, c', eaten, behind⟩ := ends afterValue
  apply gives_bind advance_ok
  apply gives_bind valued
  apply gives_bind eaten
  apply gives_bind previous_ok
  exact gives_pure (by simp only [Stmt.bare, Stmt.mapSpans_ret, alike]) behind

theorem standing_gives {value : Rule Expr} {e : Expr} {span : Span}
    (reads : Accepts value Expr.bare input e.bare middle) (ends : Ends middle rest)
    (follows : followsStatement (next rest) = true) (shows : c.Shows input) :
    Gives (standing value) Stmt.bare c (Stmt.expr span e).bare rest := by
  obtain ⟨e', mid, valued, alike, afterValue⟩ := reads shows
  obtain ⟨ate, c', eaten, behind⟩ := eat_of_ends ends follows afterValue
  apply gives_bind valued
  apply gives_bind eaten
  cases ate with
  | true =>
      apply gives_bind previous_ok
      exact gives_pure (by simp only [Stmt.bare, Stmt.mapSpans, alike]) behind
  | false => exact gives_pure (by simp only [Stmt.bare, Stmt.mapSpans, alike]) behind

theorem grouping_gives {inner : Rule Expr} {e : Expr}
    (reads : Accepts inner Expr.bare input e.bare (.rightParen :: rest))
    (shows : c.Shows (.leftParen :: input)) : Gives (grouping inner) Expr.bare c e.bare rest := by
  obtain ⟨e', mid, held, alike, afterInner⟩ := reads shows.advance
  apply gives_bind advance_ok
  apply gives_bind (within_eq_ok.mpr held)
  apply gives_bind (expect_of_shows _ rfl afterInner)
  exact gives_pure (by rw [Expr.bare_withSpan, alike]) afterInner.advance

theorem conditional_gives {condition : Rule Expr} {branch : Rule Block} {test : Expr}
    {consequence : Block} {span : Span}
    (tests : Accepts condition Expr.bare input test.bare (.rightParen :: middle))
    (branches : Accepts branch Block.bare middle consequence.bare rest)
    (noElse : next rest ≠ .elseKeyword) (shows : c.Shows (.ifKeyword :: .leftParen :: input)) :
    Gives (conditional condition branch) Expr.bare c (Expr.cond span test consequence none).bare
      rest := by
  obtain ⟨test', mid, tested, sameTest, afterTest⟩ := tests shows.advance.advance
  obtain ⟨first, c', taken, sameFirst, behind⟩ := branches afterTest.advance
  apply gives_bind advance_ok
  apply gives_bind (expect_of_shows _ rfl shows.advance)
  apply gives_bind (within_eq_ok.mpr tested)
  apply gives_bind (expect_of_shows _ rfl afterTest)
  apply gives_bind taken
  apply gives_bind (eat_of_ne rfl behind noElse)
  apply gives_bind previous_ok
  exact gives_pure (by simp only [Expr.bare, Expr.mapSpans, sameTest, sameFirst]) behind

theorem conditional_gives_else {condition : Rule Expr} {branch : Rule Block} {test : Expr}
    {consequence alternative : Block} {span : Span}
    (tests : Accepts condition Expr.bare input test.bare (.rightParen :: middle))
    (branches : Accepts branch Block.bare middle consequence.bare (.elseKeyword :: last))
    (others : Accepts branch Block.bare last alternative.bare rest)
    (shows : c.Shows (.ifKeyword :: .leftParen :: input)) :
    Gives (conditional condition branch) Expr.bare c
      (Expr.cond span test consequence (some alternative)).bare rest := by
  obtain ⟨test', mid, tested, sameTest, afterTest⟩ := tests shows.advance.advance
  obtain ⟨first, mid, taken, sameFirst, afterBranch⟩ := branches afterTest.advance
  obtain ⟨second, c', other, sameSecond, behind⟩ := others afterBranch.advance
  apply gives_bind advance_ok
  apply gives_bind (expect_of_shows _ rfl shows.advance)
  apply gives_bind (within_eq_ok.mpr tested)
  apply gives_bind (expect_of_shows _ rfl afterTest)
  apply gives_bind taken
  apply gives_bind (eat_of_shows rfl afterBranch)
  apply gives_bind other
  apply gives_bind previous_ok
  exact gives_pure (by simp only [Expr.bare, Expr.mapSpans, sameTest, sameFirst, sameSecond]) behind

theorem function_gives {names : Rule (List String)} {code : Rule Block} {params : List String}
    {body : Block} {span literalSpan : Span}
    (named : Accepts (listed names) id input params middle)
    (braced : Accepts code Block.bare middle body.bare rest)
    (shows : c.Shows (.fnKeyword :: .leftParen :: input)) :
    Gives (function names code) Expr.bare c (Expr.fn span literalSpan params body).bare rest := by
  obtain ⟨_, mid, held, rfl, afterParams⟩ := named shows.advance.advance
  obtain ⟨body', c', taken, same, behind⟩ := braced afterParams
  apply gives_bind advance_ok
  apply gives_bind (expect_of_shows _ rfl shows.advance)
  apply gives_bind held
  apply gives_bind taken
  apply gives_bind previous_ok
  exact gives_pure (by simp only [Expr.bare, Expr.mapSpans, same, id]) behind

theorem unary_gives {op : UnaryOp} {operand : Rule Expr} {e : Expr} {span : Span}
    (reads : Accepts operand Expr.bare input e.bare rest) (shows : c.Shows (op.token :: input)) :
    Gives (unary op operand) Expr.bare c (Expr.unary span op e).bare rest := by
  obtain ⟨e', c', operated, alike, behind⟩ := reads shows.advance
  apply gives_bind advance_ok
  apply gives_bind operated
  exact gives_pure (by simp only [Expr.bare, Expr.mapSpans, alike]) behind

theorem continued_stop {least : Precedence} {left : Expr} (shows : c.Shows rest)
    (stops : ¬ least < (next rest).precedence) (allowance : Nat) :
    continued (allowance + 1) least left c = .ok left c := by
  rw [continued, bind_of_ok current_ok, shows.current, if_neg stops]
  rfl

theorem continued_binary {least : Precedence} {left right : Expr} {op : BinaryOp} {c' : Cursor}
    {allowance : Nat} (shows : c.Shows (op.token :: rest)) (binds : least < op.precedence)
    (read : expression allowance op.precedence c.advance = .ok right c') :
    continued (allowance + 1) least left c =
      continued allowance least (.binary (left.span.merge right.span) op left right) c' := by
  rw [continued, bind_of_ok current_ok, shows.current, next_cons, op.precedence_token,
    if_pos binds, op.binaryOp?_token]
  simp only
  rw [bind_of_ok advance_ok, bind_of_ok read]

theorem continued_call {least : Precedence} {left : Expr} {args : List Expr} {c' : Cursor}
    {allowance : Nat} (shows : c.Shows (.leftParen :: rest)) (binds : least < .call)
    (read : listed (arguments allowance []) c.advance = .ok args c') :
    continued (allowance + 1) least left c =
      continued allowance least (.call (left.span.merge c'.previous) left args) c' := by
  rw [continued, bind_of_ok current_ok, shows.current, next_cons]
  have binds' : least < TokenKind.leftParen.precedence := binds
  rw [if_pos binds']
  simp only [TokenKind.binaryOp?]
  rw [bind_of_ok advance_ok, bind_of_ok read, bind_of_ok previous_ok]

/-- Reading at this cursor comes to stand behind `e`, with `e` up to spans as the left operand of
    the loop and enough of the allowance left for all the tokens behind it. -/
def Climbs (least : Precedence) (allowance : Nat) (c : Cursor) (e : Expr)
    (rest : List TokenKind) : Prop :=
  ∃ left spared c', expression allowance least c = continued spared least left c' ∧
    left.bare = e.bare ∧ c'.Shows rest ∧ 8 * rest.length < spared

/-- Where the next token does not bind, the expression is read. -/
theorem Climbs.gives {least : Precedence} {allowance : Nat} {e : Expr}
    (climbs : Climbs least allowance c e rest) (stops : ¬ least < (next rest).precedence) :
    Gives (expression allowance least) Expr.bare c e.bare rest := by
  obtain ⟨left, spared, c', read, alike, behind, enough⟩ := climbs
  obtain ⟨spared, rfl⟩ := Nat.exists_eq_add_of_le' enough
  exact ⟨left, c', read.trans (continued_stop behind stops _), alike, behind⟩

end Rule

namespace Grammar

open Rule

/-- Reading above `least` folds in every operator of the layer. -/
def Admits (least layer : Precedence) : Prop :=
  least < .call ∧ ∀ op : BinaryOp, ¬ op.precedence < layer → least < op.precedence

/-- The tokens behind an expression of a layer do not continue it. -/
def Follows (layer : Precedence) (rest : List TokenKind) : Prop :=
  ¬ layer < (next rest).precedence ∧ next rest ≠ .elseKeyword

theorem Admits.tighter {least layer tighter : Precedence} (admits : Admits least layer)
    (above : layer < tighter) : Admits least tighter := by
  refine ⟨admits.1, fun op notBelow => admits.2 op fun below => notBelow ?_⟩
  simp only [Precedence.lt_iff] at *
  omega

theorem Follows.tighter {layer tighter : Precedence} (follows : Follows layer rest)
    (above : layer < tighter) : Follows tighter rest := by
  refine ⟨fun binds => follows.1 ?_, follows.2⟩
  simp only [Precedence.lt_iff] at *
  omega

theorem admits_lowest : Admits .lowest .lowest :=
  ⟨by decide, fun op _ => op.precedence_level.1⟩

theorem admits_unary : Admits .unary .unary :=
  ⟨by decide, fun op notBelow => absurd op.precedence_level.2 notBelow⟩

theorem admits_above {op : BinaryOp} {tighter : Precedence} (above : op.precedence < tighter) :
    Admits op.precedence tighter := by
  refine ⟨by cases op <;> decide, fun other notBelow => ?_⟩
  simp only [Precedence.lt_iff] at *
  omega

theorem follows_lowest (kind : TokenKind) (binds : kind.precedence = .lowest)
    (noElse : kind ≠ .elseKeyword) : Follows .lowest (kind :: rest) := by
  refine ⟨?_, noElse⟩
  rw [next_cons, binds]
  decide

theorem follows_operator (op : BinaryOp) : Follows op.precedence (op.token :: rest) := by
  refine ⟨?_, by cases op <;> simp [BinaryOp.token]⟩
  rw [next_cons, op.precedence_token]
  exact Nat.lt_irrefl _

theorem Items.next_ne (items : Items input args rest) : next input ≠ .rightParen := by
  have starts : startsExpression (next input) = true := by
    cases items with
    | last item => exact item.starts
    | cons item _ => exact item.starts
  intro closed
  rw [closed] at starts
  cases starts

theorem Ends.follows (ends : Ends middle rest) (behind : followsStatement (next rest) = true) :
    Follows .lowest middle := by
  cases ends with
  | semicolon => exact follows_lowest .semicolon rfl (by simp)
  | omitted noCall noOperator =>
      refine ⟨fun binds => noCall (TokenKind.eq_leftParen binds noOperator), ?_⟩
      intro isElse
      rw [isElse] at behind
      cases behind

/-- The expression is climbed wherever reading folds in all operators of the layer. -/
def Climbed (layer : Precedence) (input : List TokenKind) (e : Expr) (rest : List TokenKind) : Prop :=
  ∀ {least : Precedence} {allowance : Nat} {c : Cursor}, Admits least layer → Follows layer rest →
    8 * input.length + 2 ≤ allowance → c.Shows input → Climbs least allowance c e rest

def ReadsArguments (input : List TokenKind) (args : List Expr) (rest : List TokenKind) : Prop :=
  ∀ {allowance : Nat}, 8 * input.length + 3 ≤ allowance →
    Accepts (listed (arguments allowance [])) Expr.bareAll input (Expr.bareAll args) rest

def ReadsItems (input : List TokenKind) (args : List Expr) (rest : List TokenKind) : Prop :=
  ∀ {allowance : Nat} (read : List Expr), 8 * input.length + 3 ≤ allowance →
    Accepts (arguments allowance read) Expr.bareAll input (Expr.bareAll (read.reverse ++ args)) rest

def ReadsStatement (input : List TokenKind) (t : Stmt) (rest : List TokenKind) : Prop :=
  ∀ {allowance : Nat}, followsStatement (next rest) = true → 8 * input.length + 3 ≤ allowance →
    Accepts (statement allowance) Stmt.bare input t.bare rest

def ReadsStatements (input : List TokenKind) (ts : List Stmt) (rest : List TokenKind) : Prop :=
  ∀ {allowance : Nat} (read : List Stmt), next rest = .rightBrace →
    8 * input.length + 4 ≤ allowance →
    Accepts (statements allowance read) Stmt.bareAll input (Stmt.bareAll (read.reverse ++ ts)) rest

def ReadsBlock (input : List TokenKind) (b : Block) (rest : List TokenKind) : Prop :=
  ∀ {allowance : Nat} {construct : Construct}, 8 * input.length + 1 ≤ allowance →
    Accepts (block allowance construct) Block.bare input b.bare rest

theorem Climbed.accepts (climbed : Climbed .lowest input e rest) {allowance : Nat}
    (follows : Follows .lowest rest) (enough : 8 * input.length + 2 ≤ allowance) :
    Accepts (expression allowance .lowest) Expr.bare input e.bare rest := by
  intro c shows
  exact (climbed admits_lowest follows enough shows).gives follows.1

/-- What the rule for operands reads is behind the cursor before the first round of the loop. -/
theorem climbed_of_operand (derived : Expression layer input e rest)
    (reads : ∀ {allowance : Nat} {c : Cursor}, 8 * input.length ≤ allowance →
      Follows layer rest → c.Shows input →
      Gives (operand (allowance + 1)) Expr.bare c e.bare rest) :
    Climbed layer input e rest := by
  intro least allowance c admits follows enough shows
  have shorter := derived.length_lt
  obtain ⟨spared, rfl, spare⟩ := exists_step enough
  obtain ⟨spared, rfl, spare⟩ := exists_step spare
  obtain ⟨left, c', read, alike, behind⟩ := reads (by omega) follows shows
  refine ⟨left, spared + 1, c', ?_, alike, behind, by omega⟩
  rw [expression, bind_of_ok read]

theorem literal_gives {node : Span → Expr} {kind : TokenKind} {c : Cursor} {span : Span}
    (alike : ∀ other, (node other).bare = (node span).bare) (shows : c.Shows (kind :: rest)) :
    Gives (do return node (← advance)) Expr.bare c (node span).bare rest := by
  apply gives_bind advance_ok
  exact gives_pure (alike _) shows.advance

theorem climbed_ident : Climbed .call (.ident name :: rest) (.ident span name) rest := by
  apply climbed_of_operand .ident
  intro allowance c _ _ shows
  apply gives_bind current_ok
  rw [shows.1]
  exact literal_gives (fun _ => rfl) shows

theorem climbed_int : Climbed .call (.int value :: rest) (.int span value) rest := by
  apply climbed_of_operand .int
  intro allowance c _ _ shows
  apply gives_bind current_ok
  rw [shows.1]
  exact literal_gives (fun _ => rfl) shows

theorem climbed_true : Climbed .call (.trueKeyword :: rest) (.bool span true) rest := by
  apply climbed_of_operand .trueLiteral
  intro allowance c _ _ shows
  apply gives_bind current_ok
  rw [shows.1]
  exact literal_gives (fun _ => rfl) shows

theorem climbed_false : Climbed .call (.falseKeyword :: rest) (.bool span false) rest := by
  apply climbed_of_operand .falseLiteral
  intro allowance c _ _ shows
  apply gives_bind current_ok
  rw [shows.1]
  exact literal_gives (fun _ => rfl) shows

theorem follows_rightParen : Follows .lowest (.rightParen :: rest) :=
  follows_lowest .rightParen rfl (by simp)

theorem climbed_group (inner : Expression .lowest input e (.rightParen :: rest))
    (climbed : Climbed .lowest input e (.rightParen :: rest)) :
    Climbed .call (.leftParen :: input) (e.withSpan span) rest := by
  apply climbed_of_operand (.group inner)
  intro allowance c enough _ shows
  simp only [List.length_cons] at enough
  apply gives_bind current_ok
  rw [shows.1, Expr.bare_withSpan]
  exact grouping_gives (climbed.accepts follows_rightParen (by omega)) shows

theorem climbed_cond (test : Expression .lowest input condition (.rightParen :: middle))
    (branch : Braced middle consequence rest)
    (tests : Climbed .lowest input condition (.rightParen :: middle))
    (branches : ReadsBlock middle consequence rest) :
    Climbed .call (.ifKeyword :: .leftParen :: input) (.cond span condition consequence none)
      rest := by
  apply climbed_of_operand (.cond test branch)
  intro allowance c enough follows shows
  have shorter := test.length_lt
  simp only [List.length_cons] at enough shorter
  apply gives_bind current_ok
  rw [shows.1]
  exact conditional_gives (tests.accepts follows_rightParen (by omega)) (branches (by omega))
    follows.2 shows

theorem climbed_condElse (test : Expression .lowest input condition (.rightParen :: middle))
    (branch : Braced middle consequence (.elseKeyword :: last)) (other : Braced last alternative rest)
    (tests : Climbed .lowest input condition (.rightParen :: middle))
    (branches : ReadsBlock middle consequence (.elseKeyword :: last))
    (others : ReadsBlock last alternative rest) :
    Climbed .call (.ifKeyword :: .leftParen :: input)
      (.cond span condition consequence (some alternative)) rest := by
  apply climbed_of_operand (.condElse test branch other)
  intro allowance c enough _ shows
  have afterTest := test.length_lt
  have afterBranch := branch.length_lt
  simp only [List.length_cons] at enough afterTest afterBranch
  apply gives_bind current_ok
  rw [shows.1]
  exact conditional_gives_else (tests.accepts follows_rightParen (by omega)) (branches (by omega))
    (others (by omega)) shows

theorem climbed_fn (list : Params input names middle) (code : Braced middle body rest)
    (braced : ReadsBlock middle body rest) :
    Climbed .call (.fnKeyword :: .leftParen :: input) (.fn span literalSpan names body) rest := by
  apply climbed_of_operand (.fn list code)
  intro allowance c enough _ shows
  have shorter := list.length_lt
  simp only [List.length_cons] at enough
  have named : Accepts (listed (params allowance [])) id input names middle := by
    intro c shows
    exact params_gives list allowance (by omega) shows
  apply gives_bind current_ok
  rw [shows.1]
  exact function_gives named (braced (by omega)) shows

theorem climbed_unary (op : UnaryOp) (inner : Expression .unary input e rest)
    (climbed : Climbed .unary input e rest) :
    Climbed .unary (op.token :: input) (.unary span op e) rest := by
  apply climbed_of_operand (.unary op inner)
  intro allowance c enough follows shows
  simp only [List.length_cons] at enough
  have reads : Accepts (expression allowance .unary) Expr.bare input e.bare rest := by
    intro c shows
    have enoughLeft : 8 * input.length + 2 ≤ allowance := by omega
    exact (climbed admits_unary follows enoughLeft shows).gives follows.1
  apply gives_bind current_ok
  rw [shows.1]
  cases op with
  | not => exact unary_gives reads shows
  | neg => exact unary_gives reads shows

/-- The callee is climbed in its own layer, and one round of the loop adds the arguments. -/
theorem climbed_call (list : Arguments middle args rest)
    (climbed : Climbed .call input callee (.leftParen :: middle))
    (reads : ReadsArguments middle args rest) :
    Climbed .call input (.call span callee args) rest := by
  intro least allowance c admits _ enough shows
  obtain ⟨left, spared, mid, read, alike, afterHead, spare⟩ :=
    climbed admits ⟨Precedence.not_call_lt _, by simp⟩ enough shows
  obtain ⟨spared, rfl, spare⟩ := exists_step spare
  have shorter := list.length_lt
  simp only [List.length_cons] at spare
  have enoughLeft : 8 * middle.length + 3 ≤ spared := by omega
  obtain ⟨args, c', listed, same, behind⟩ := reads enoughLeft afterHead.advance
  refine ⟨_, spared, c', read.trans (continued_call afterHead admits.1 listed), ?_, behind,
    by omega⟩
  simp only [Expr.bare, Expr.mapSpans, alike, same]

/-- The left operand is climbed in its own layer, and one round of the loop adds the right one,
    which is read whole because the token behind it binds no more tightly than the operator. -/
theorem climbed_binary (op : BinaryOp) (second : Expression tighter middle right rest)
    (above : op.precedence < tighter)
    (climbed : Climbed op.precedence input left (op.token :: middle))
    (climbs : Climbed tighter middle right rest) :
    Climbed op.precedence input (.binary span op left right) rest := by
  intro least allowance c admits follows enough shows
  obtain ⟨left, spared, mid, read, alike, afterFirst, spare⟩ :=
    climbed admits (follows_operator op) enough shows
  obtain ⟨spared, rfl, spare⟩ := exists_step spare
  have shorter := second.length_lt
  simp only [List.length_cons] at spare
  have enoughLeft : 8 * middle.length + 2 ≤ spared := by omega
  obtain ⟨right, c', reading, same, behind⟩ :=
    (climbs (admits_above above) (follows.tighter above) enoughLeft afterFirst.advance).gives
      follows.1
  have binds : least < op.precedence := admits.2 op (Nat.lt_irrefl _)
  refine ⟨_, spared, c', read.trans (continued_binary afterFirst binds reading), ?_, behind,
    by omega⟩
  simp only [Expr.bare, Expr.mapSpans, alike, same]

theorem reads_items_last (climbed : Climbed .lowest input arg (.rightParen :: rest)) :
    ReadsItems input [arg] rest := by
  intro allowance read enough c shows
  obtain ⟨allowance, rfl, spare⟩ := exists_step enough
  obtain ⟨arg, mid, reading, alike, afterItem⟩ := climbed.accepts follows_rightParen spare shows
  apply gives_bind (within_eq_ok.mpr reading)
  apply gives_bind (eat_of_ne rfl afterItem (by simp))
  apply gives_bind (expect_of_shows _ rfl afterItem)
  refine gives_pure ?_ afterItem.advance
  simp only [List.reverse_cons, Expr.bareAll, Expr.mapSpansAll_append, Expr.mapSpansAll, alike]

theorem reads_items_cons (item : Expression .lowest input arg (.comma :: middle))
    (climbed : Climbed .lowest input arg (.comma :: middle)) (more : ReadsItems middle args rest) :
    ReadsItems input (arg :: args) rest := by
  intro allowance read enough c shows
  obtain ⟨allowance, rfl, spare⟩ := exists_step enough
  have shorter := item.length_lt
  simp only [List.length_cons] at shorter
  have comma : Follows .lowest (.comma :: middle) := follows_lowest .comma rfl (by simp)
  obtain ⟨arg, mid, reading, alike, afterItem⟩ := climbed.accepts comma spare shows
  have later := more (arg :: read) (by omega : _ ≤ allowance) afterItem.advance
  apply gives_bind (within_eq_ok.mpr reading)
  apply gives_bind (eat_of_shows rfl afterItem)
  simpa only [List.reverse_cons, Expr.bareAll, Expr.mapSpansAll_append, Expr.mapSpansAll, alike,
    List.append_assoc, List.cons_append, List.nil_append, if_true] using later

theorem reads_arguments_items (items : Items input args rest) (reads : ReadsItems input args rest) :
    ReadsArguments input args rest := by
  intro allowance enough c shows
  exact listed_gives items.next_ne shows (reads [] enough shows)

theorem reads_arguments_empty : ReadsArguments (.rightParen :: rest) [] rest := by
  intro allowance _ c shows
  exact listed_gives_nil shows

theorem reads_bind (climbed : Climbed .lowest input value middle) (ends : Ends middle rest) :
    ReadsStatement (.letKeyword :: .ident name :: .assign :: input) (.bind span name value)
      rest := by
  intro allowance follows enough c shows
  obtain ⟨allowance, rfl, spare⟩ := exists_step enough
  simp only [List.length_cons] at spare
  apply gives_bind current_ok
  rw [shows.1]
  exact binding_gives (climbed.accepts (ends.follows follows) (by omega)) ends follows shows

theorem reads_ret (inner : Expression .lowest input value middle)
    (climbed : Climbed .lowest input value middle) (ends : Ends middle rest) :
    ReadsStatement (.returnKeyword :: input) (.ret span (some value)) rest := by
  intro allowance follows enough c shows
  simp only [List.length_cons] at enough
  obtain ⟨allowance, rfl, _⟩ := exists_step enough
  obtain ⟨allowance, rfl, spare⟩ := exists_step (by omega : 8 * input.length + 3 ≤ allowance)
  have reads := climbed.accepts (ends.follows follows) spare
  have returns : Accepts (returned (allowance + 1)) (Option.map Expr.bare) input
      ((some value).map Expr.bare) middle := by
    intro c shows
    obtain ⟨e, c', reading, alike, behind⟩ := reads shows
    have starts := inner.starts
    apply gives_bind current_ok
    rw [shows.current]
    cases here : next input with
    | semicolon | rightBrace | endOfInput =>
        rw [here] at starts
        cases starts
    | _ =>
        apply gives_bind (within_eq_ok.mpr reading)
        exact gives_pure (congrArg some alike) behind
  apply gives_bind current_ok
  rw [shows.1]
  exact returning_gives returns (eat_of_ends ends follows) shows

theorem eat_of_bareEnds {c : Cursor} (ends : BareEnds input rest) (shows : c.Shows input) :
    ∃ ate c', eat .semicolon c = .ok ate c' ∧ c'.Shows rest := by
  cases ends with
  | semicolon => exact ⟨true, c.advance, eat_of_shows rfl shows, shows.advance⟩
  | brace here => exact ⟨false, c, eat_of_ne rfl shows (by simp [here]), shows⟩
  | finish => exact ⟨false, c, eat_of_ne rfl shows (by simp), shows⟩

theorem reads_retNothing (ends : BareEnds input rest) :
    ReadsStatement (.returnKeyword :: input) (.ret span none) rest := by
  intro allowance follows enough c shows
  simp only [List.length_cons] at enough
  obtain ⟨allowance, rfl, _⟩ := exists_step enough
  obtain ⟨allowance, rfl, spare⟩ := exists_step (by omega : 8 * input.length + 3 ≤ allowance)
  have returns : Accepts (returned (allowance + 1)) (Option.map Expr.bare) input
      ((none : Option Expr).map Expr.bare) input := by
    intro c shows
    apply gives_bind current_ok
    rw [shows.current]
    cases ends with
    | semicolon => exact gives_pure rfl shows
    | brace here =>
        rw [here]
        exact gives_pure rfl shows
    | finish => exact gives_pure rfl shows
  apply gives_bind current_ok
  rw [shows.1]
  exact returning_gives returns (eat_of_bareEnds ends) shows

theorem reads_expr (inner : Expression .lowest input value middle)
    (climbed : Climbed .lowest input value middle) (ends : Ends middle rest) :
    ReadsStatement input (.expr span value) rest := by
  intro allowance follows enough c shows
  obtain ⟨allowance, rfl, spare⟩ := exists_step enough
  have reads := climbed.accepts (ends.follows follows) spare
  have starts := inner.starts
  apply gives_bind current_ok
  rw [shows.current]
  cases here : next input with
  | letKeyword | returnKeyword =>
      rw [here] at starts
      cases starts
  | _ => exact standing_gives reads ends follows shows

theorem reads_statements_nil : ReadsStatements rest [] rest := by
  intro allowance read brace enough c shows
  obtain ⟨allowance, rfl, _⟩ := exists_step enough
  apply gives_bind current_ok
  rw [shows.current, brace]
  exact gives_pure (by simp) shows

theorem reads_statements_cons (head : Statement input t middle) (tail : Statements middle ts rest)
    (reads : ReadsStatement input t middle) (more : ReadsStatements middle ts rest) :
    ReadsStatements input (t :: ts) rest := by
  intro allowance read brace enough c shows
  obtain ⟨allowance, rfl, spare⟩ := exists_step enough
  have shorter := head.length_lt
  have starts := head.starts
  have follows : followsStatement (next middle) = true := tail.starts (by rw [brace]; rfl)
  obtain ⟨t', mid, reading, alike, afterHead⟩ := reads follows spare shows
  have later := more (t' :: read) brace (by omega : _ ≤ allowance) afterHead
  have joined : Gives (statements allowance (t' :: read)) Stmt.bareAll mid
      (Stmt.bareAll (read.reverse ++ t :: ts)) rest := by
    simpa only [List.reverse_cons, Stmt.bareAll, Stmt.mapSpansAll_append, Stmt.mapSpansAll, alike,
      List.append_assoc, List.cons_append, List.nil_append] using later
  apply gives_bind current_ok
  rw [shows.current]
  cases here : next input with
  | rightBrace | endOfInput =>
      rw [here] at starts
      cases starts
  | _ => exact gives_bind reading joined

theorem reads_block (reads : ReadsStatements input ts (.rightBrace :: rest)) :
    ReadsBlock (.leftBrace :: input) (.mk span ts) rest := by
  intro allowance construct enough c shows
  obtain ⟨allowance, rfl, spare⟩ := exists_step enough
  simp only [List.length_cons] at spare
  have enoughLeft : 8 * input.length + 4 ≤ allowance := by omega
  obtain ⟨ts', mid, reading, same, afterInner⟩ := reads [] rfl enoughLeft shows.advance
  apply gives_bind (expect_of_shows _ rfl shows)
  apply gives_bind reading
  apply gives_bind (expect_of_shows _ rfl afterInner)
  exact gives_pure (congrArg (Block.mk .zero) same) afterInner.advance

mutual

theorem Expression.climbed : Expression layer input e rest → Climbed layer input e rest
  | .ident => climbed_ident
  | .int => climbed_int
  | .trueLiteral => climbed_true
  | .falseLiteral => climbed_false
  | .group inner => climbed_group inner inner.climbed
  | .cond test branch => climbed_cond test branch test.climbed branch.reads
  | .condElse test branch other =>
      climbed_condElse test branch other test.climbed branch.reads other.reads
  | .fn list code => climbed_fn list code code.reads
  | .call head list => climbed_call list head.climbed list.reads
  | .unary op inner => climbed_unary op inner inner.climbed
  | .binary op first second above =>
      climbed_binary op second above first.climbed second.climbed
  | .looser inner above => fun admits follows enough shows =>
      inner.climbed (admits.tighter above) (follows.tighter above) enough shows

theorem Arguments.reads : Arguments input args rest → ReadsArguments input args rest
  | .empty => reads_arguments_empty
  | .items list => reads_arguments_items list list.reads

theorem Items.reads : Items input args rest → ReadsItems input args rest
  | .last item => reads_items_last item.climbed
  | .cons item more => reads_items_cons item item.climbed more.reads

theorem Statement.reads : Statement input t rest → ReadsStatement input t rest
  | .bind inner ends => reads_bind inner.climbed ends
  | .ret inner ends => reads_ret inner inner.climbed ends
  | .retNothing ends => reads_retNothing ends
  | .expr inner ends => reads_expr inner inner.climbed ends

theorem Statements.reads : Statements input ts rest → ReadsStatements input ts rest
  | .nil => reads_statements_nil
  | .cons head tail => reads_statements_cons head tail head.reads tail.reads

theorem Braced.reads : Braced input b rest → ReadsBlock input b rest
  | .mk inner => reads_block inner.reads

end

end Grammar

theorem Rule.program_of_derivation {input : List TokenKind} {ts : List Stmt}
    (derived : Statements input ts []) {bound allowance : Nat} {c : Cursor} (read : List Stmt)
    (bounded : input.length ≤ bound) (enough : 8 * input.length + 3 ≤ allowance)
    (shows : c.Shows input) :
    ∃ result, Rule.program bound allowance read [] c = (result, []) ∧
      Stmt.bareAll result = Stmt.bareAll (read.reverse ++ ts) := by
  induction ts generalizing input bound c read with
  | nil =>
      cases derived
      refine ⟨read.reverse, ?_, by simp⟩
      cases bound with
      | zero => rfl
      | succ bound => simp [Rule.program, shows.atEnd_iff]
  | cons t ts ih =>
      cases derived with
      | cons head tail =>
          have shorter := head.length_lt
          have follows := tail.starts rfl
          obtain ⟨bound, rfl, spare⟩ := exists_step (Nat.le_trans (Nat.succ_le_of_lt shorter) bounded)
          have notEnd : c.atEnd ≠ true := by
            rw [Ne, shows.atEnd_iff]
            rintro rfl
            cases shorter
          obtain ⟨t', mid, reading, alike, afterHead⟩ := head.reads follows enough shows
          obtain ⟨result, parsed, same⟩ := ih tail (t' :: read) spare (by omega) afterHead
          refine ⟨result, ?_, ?_⟩
          · rw [Rule.program, if_neg notEnd]
            simp only [reading]
            exact parsed
          · simpa only [List.reverse_cons, Stmt.bareAll, Stmt.mapSpansAll_append, Stmt.mapSpansAll,
              alike, List.append_assoc, List.cons_append, List.nil_append] using same

/-- Whatever the grammar derives is accepted, and read as the tree it was derived for. -/
theorem exists_parseTokens_of_derives {ts : List Token} {p : Program} (stop : Span)
    (noEnd : ∀ t ∈ ts, t.kind ≠ .endOfInput) (derived : Derives (ts.map Token.kind) p) :
    ∃ q, parseTokens (ts ++ [⟨.endOfInput, stop⟩]) = .ok q ∧ q.bare = p.bare := by
  cases tokens : ts ++ [⟨.endOfInput, stop⟩] with
  | nil => simp at tokens
  | cons current rest =>
      have shows := Cursor.shows_of_tokens ts stop 0 .zero current rest tokens noEnd
      have size : (ts.map Token.kind).length + 1 = (current :: rest).length := by
        rw [← tokens]
        simp
      obtain ⟨result, parsed, same⟩ :=
        Rule.program_of_derivation derived [] (by omega : _ ≤ (current :: rest).length)
          (by omega : _ ≤ 8 * (current :: rest).length + 8) shows
      refine ⟨⟨result⟩, ?_, congrArg Program.mk same⟩
      simp only [parseTokens, Cursor.ofTokens?, parsed]

end TreeWalk
