import TreeWalk.Proofs.Lockstep

/-! # Rounds and allowances

The rules call each other and spend one step of their allowance with every call. Here the rules of
one allowance are made from those of the allowance below, loop by loop and round by round, whatever
these are. So it can be said that an allowance is never used up: with enough steps the rules do the
same on top of any rules at all.
-/

namespace TreeWalk

/-- The rules that call each other. -/
structure Rules where
  params : (read : List String) → Rule (List String)
  statement : Rule Stmt
  returned : Rule (Option Expr)
  block : Construct → Rule Block
  statements : (read : List Stmt) → Rule (List Stmt)
  expression : (least : Precedence) → Rule Expr
  continued : (least : Precedence) → (left : Expr) → Rule Expr
  arguments : (read : List Expr) → Rule (List Expr)
  operand : Rule Expr

namespace Rule

/-- Go on behind a round of a loop, unless it was the last one. -/
def goOn {α : Type} (again : α → Rule α) : ForInStep α → Rule α
  | .done a => pure a
  | .yield a => again a

/-- One round of a parameter list: a name, and the comma or the closing parenthesis behind it. -/
def paramsRound (read : List String) : Rule (ForInStep (List String)) := do
  let name ← expectName .functionParams
  if ← eat .comma then return .yield (name :: read)
  else do
    let _ ← expect .rightParen .functionParams
    return .done (name :: read).reverse

end Rule

namespace Rules

open Rule

/-- One round of a block: a statement, unless the block ends here. -/
def statementsRound (rules : Rules) (read : List Stmt) : Rule (ForInStep (List Stmt)) := do
  match (← current).kind with
  | .rightBrace | .endOfInput => return .done read.reverse
  | _ => do
      let next ← rules.statement
      return .yield (next :: read)

/-- One round of an expression: an operator with its operand or an argument list, unless what comes
    next binds too loosely. -/
def continuedRound (rules : Rules) (least : Precedence) (left : Expr) : Rule (ForInStep Expr) := do
  let next := (← current).kind
  if least < next.precedence then
    match next.binaryOp? with
    | none => do
        let _ ← advance
        let args ← listed (rules.arguments [])
        return .yield (.call (left.span.merge (← previous)) left args)
    | some op => do
        let _ ← advance
        let right ← rules.expression op.precedence
        return .yield (.binary (left.span.merge right.span) op left right)
  else return .done left

/-- One round of an argument list: an argument, and the comma or the closing parenthesis behind
    it. -/
def argumentsRound (rules : Rules) (read : List Expr) : Rule (ForInStep (List Expr)) := do
  let arg ← within .callArguments (rules.expression .lowest)
  if ← eat .comma then return .yield (arg :: read)
  else do
    let _ ← expect .rightParen .callArguments
    return .done (arg :: read).reverse

/-- The rules that have one step more than these. -/
def above (rules : Rules) : Rules where
  params read := paramsRound read >>= goOn rules.params
  statement := do
    match (← current).kind with
    | .letKeyword => binding (rules.expression .lowest)
    | .returnKeyword => returning rules.returned
    | _ => standing (rules.expression .lowest)
  returned := do
    match (← current).kind with
    | .semicolon | .rightBrace | .endOfInput => return none
    | _ => return some (← within .returnStatement (rules.expression .lowest))
  block construct := do
    let start ← expect .leftBrace construct
    let inner ← rules.statements []
    let stop ← expect .rightBrace .block
    return .mk (start.merge stop) inner
  statements read := rules.statementsRound read >>= goOn rules.statements
  expression least := do
    let first ← rules.operand
    rules.continued least first
  continued least left := rules.continuedRound least left >>= goOn (rules.continued least)
  arguments read := rules.argumentsRound read >>= goOn rules.arguments
  operand := do
    match (← current).kind with
    | .ident name => return .ident (← advance) name
    | .int value => return .int (← advance) value
    | .trueKeyword => return .bool (← advance) true
    | .falseKeyword => return .bool (← advance) false
    | .bang => unary .not (rules.expression .unary)
    | .minus => unary .neg (rules.expression .unary)
    | .leftParen => grouping (rules.expression .lowest)
    | .ifKeyword => conditional (rules.expression .lowest) (rules.block .ifExpression)
    | .fnKeyword => function (rules.params []) (rules.block .functionLiteral)
    | _ => noExpression

/-- The rules that have `n` steps more than these. -/
def raised (rules : Rules) : (n : Nat) → Rules
  | 0 => rules
  | n + 1 => (rules.raised n).above

def given (allowance : Nat) : Rules where
  params := Rule.params allowance
  statement := Rule.statement allowance
  returned := Rule.returned allowance
  block := Rule.block allowance
  statements := Rule.statements allowance
  expression := Rule.expression allowance
  continued := Rule.continued allowance
  arguments := Rule.arguments allowance
  operand := Rule.operand allowance

end Rules

namespace Rule

variable {α β : Type}

/-- A decision between two rules is made before what follows. -/
theorem ite_bind (p : Prop) [Decidable p] (rule rule' : Rule α) (next : α → Rule β) :
    ((if p then rule else rule') >>= next) = if p then rule >>= next else rule' >>= next := by
  split <;> rfl

theorem params_round (n : Nat) (read : List String) :
    params (n + 1) read = paramsRound read >>= goOn (params n) := by
  simp only [params, paramsRound, bind_assoc, ite_bind, pure_bind, goOn]

theorem statements_round (n : Nat) (read : List Stmt) :
    statements (n + 1) read = (Rules.given n).statementsRound read >>= goOn (statements n) := by
  rw [statements, Rules.statementsRound, bind_assoc]
  congr 1
  funext t
  cases t.kind <;> simp only [Rules.given, bind_assoc, pure_bind, goOn]

theorem continued_round (n : Nat) (least : Precedence) (left : Expr) :
    continued (n + 1) least left =
      (Rules.given n).continuedRound least left >>= goOn (continued n least) := by
  rw [continued, Rules.continuedRound, bind_assoc]
  congr 1
  funext t
  simp only [ite_bind]
  cases t.kind.binaryOp? <;> simp only [Rules.given, bind_assoc, pure_bind, goOn]

theorem arguments_round (n : Nat) (read : List Expr) :
    arguments (n + 1) read = (Rules.given n).argumentsRound read >>= goOn (arguments n) := by
  simp only [arguments, Rules.argumentsRound, bind_assoc, ite_bind, pure_bind, goOn, Rules.given]

end Rule

namespace Rules

theorem given_succ (n : Nat) : Rules.given (n + 1) = (Rules.given n).above := by
  -- All but the loops are what they are by definition.
  rw [Rules.given, above]
  congr 1
  · exact funext (Rule.params_round n)
  · exact funext (Rule.statements_round n)
  · exact funext fun least => funext (Rule.continued_round n least)
  · exact funext (Rule.arguments_round n)

/-- An allowance on top of another is the larger one. -/
theorem raised_given (n spared : Nat) : (Rules.given spared).raised n = Rules.given (spared + n) := by
  induction n with
  | zero => rfl
  | succ n ih => rw [raised, ih, ← Nat.add_assoc, given_succ]

end Rules

namespace Rule

variable {α β : Type} {size : Nat} {c : Cursor}

/-- The two rules do the same wherever fewer than `size` tokens are left. -/
def AgreeBelow (size : Nat) (rule rule' : Rule α) : Prop :=
  ∀ ⦃c : Cursor⦄, c.Closed → c.ahead.length < size → rule c = rule' c

/-- What the rule reads are tokens that it passes. -/
def Advances (rule : Rule α) : Prop :=
  ∀ ⦃c c' : Cursor⦄ ⦃a : α⦄, c.Closed → rule c = .ok a c' → ∃ u, c.Passes u c'

/-- What the rule reads is at least one token. -/
def Consuming (rule : Rule α) : Prop :=
  ∀ ⦃c c' : Cursor⦄ ⦃a : α⦄, c.Closed → rule c = .ok a c' → ∃ u, c.Passes u c' ∧ u ≠ []

theorem Consuming.advances {rule : Rule α} (consumes : Consuming rule) : Advances rule := by
  intro c c' a closed read
  obtain ⟨u, passes, -⟩ := consumes closed read
  exact ⟨u, passes⟩

theorem consuming_expect {kind : TokenKind} (construct : Construct)
    (fixed : kind.spelling?.isSome) : Consuming (expect kind construct) := by
  intro c c' span closed read
  obtain ⟨⟨here, -⟩, rfl⟩ := (expect_eq_ok fixed).mp read
  exact ⟨_, .one closed (here ▸ ne_end_of_fixed fixed), List.cons_ne_nil _ _⟩

theorem consuming_expectName (construct : Construct) : Consuming (expectName construct) := by
  intro c c' name closed read
  obtain ⟨here, rfl⟩ := expectName_eq_ok.mp read
  exact ⟨_, .one closed (here ▸ nofun), List.cons_ne_nil _ _⟩

theorem advances_eat {kind : TokenKind} (fixed : kind.spelling?.isSome) : Advances (eat kind) := by
  intro c c' ate closed read
  rcases (eat_eq_ok fixed).mp read with ⟨here, -, rfl⟩ | ⟨-, -, rfl⟩
  · exact ⟨_, .one closed (here ▸ ne_end_of_fixed fixed)⟩
  · exact ⟨_, .nil⟩

theorem Consuming.within {rule : Rule α} (consumes : Consuming rule) (construct : Construct) :
    Consuming (within construct rule) :=
  fun _ _ _ closed read => consumes closed (within_eq_ok.mp read)

theorem advances_pure (a : α) : Advances (pure a) := by
  intro c c' b _ read
  obtain ⟨-, rfl⟩ := pure_eq_ok.mp read
  exact ⟨[], .nil⟩

theorem Advances.bind {rule : Rule α} {next : α → Rule β} (begins : Advances rule)
    (goesOn : ∀ a, Advances (next a)) : Advances (rule >>= next) := by
  intro c c' b closed read
  obtain ⟨a, mid, first, second⟩ := bind_eq_ok.mp read
  obtain ⟨u, passes⟩ := begins closed first
  obtain ⟨v, passesLater⟩ := goesOn a (passes.closed closed) second
  exact ⟨u ++ v, passes.append passesLater⟩

theorem Consuming.bind {rule : Rule α} {next : α → Rule β} (begins : Consuming rule)
    (goesOn : ∀ a, Advances (next a)) : Consuming (rule >>= next) := by
  intro c c' b closed read
  obtain ⟨a, mid, first, second⟩ := bind_eq_ok.mp read
  obtain ⟨u, passes, nonempty⟩ := begins closed first
  obtain ⟨v, passesLater⟩ := goesOn a (passes.closed closed) second
  exact ⟨u ++ v, passes.append passesLater, List.append_ne_nil_of_left_ne_nil nonempty v⟩

theorem advances_previous : Advances previous := by
  intro c c' span _ read
  obtain ⟨-, rfl⟩ := previous_eq_ok.mp read
  exact ⟨[], .nil⟩

/-- Behind a token that is consumed, it is enough that rules advance. -/
theorem passes_of_advancing {next : Span → Rule α} {c' : Cursor} {a : α} (closed : c.Closed)
    (notEnd : c.current.kind ≠ .endOfInput) (goesOn : ∀ span, Advances (next span))
    (read : (advance >>= next) c = .ok a c') : ∃ u, c.Passes u c' ∧ u ≠ [] := by
  rw [bind_of_ok advance_ok] at read
  obtain ⟨u, passes⟩ := goesOn _ (closed.advance notEnd) read
  exact ⟨c.current :: u, (Cursor.Passes.one closed notEnd).append passes, List.cons_ne_nil _ _⟩

theorem Advances.listed {items : Rule (List α)} (advances : Advances items) :
    Advances (listed items) := by
  refine (advances_eat rfl).bind fun ate => ?_
  cases ate with
  | true => exact advances_pure []
  | false => exact advances

/-- What is left of a list behind one of its items: a comma, or the closing parenthesis. -/
theorem advances_separator (construct : Construct) (more last : ForInStep α) :
    Advances (do
      if ← eat .comma then return more
      else do
        let _ ← expect .rightParen construct
        return last) := by
  refine (advances_eat rfl).bind fun ate => ?_
  cases ate with
  | true => exact advances_pure more
  | false => exact (consuming_expect construct rfl).advances.bind fun _ => advances_pure last

theorem bind_eq_at {first first' : Rule α} {next next' : α → Rule β} (begins : first c = first' c)
    (goesOn : ∀ a mid, first c = .ok a mid → next a mid = next' a mid) :
    (first >>= next) c = (first' >>= next') c := by
  cases ran : first c with
  | ok a mid =>
      rw [bind_of_ok ran, bind_of_ok (begins.symm.trans ran)]
      exact goesOn a mid ran
  | error fault mid => rw [bind_of_error ran, bind_of_error (begins.symm.trans ran)]

namespace AgreeBelow

theorem refl (rule : Rule α) : AgreeBelow size rule rule := fun _ _ _ => rfl

theorem within {rule rule' : Rule α} (agree : AgreeBelow size rule rule') (construct : Construct) :
    AgreeBelow size (within construct rule) (within construct rule') := by
  intro c closed few
  rw [Rule.within, Rule.within, agree closed few]

theorem bind {first first' : Rule α} {next next' : α → Rule β}
    (begins : AgreeBelow size first first') (advances : Advances first)
    (goesOn : ∀ a, AgreeBelow size (next a) (next' a)) :
    AgreeBelow size (first >>= next) (first' >>= next') := by
  intro c closed few
  refine bind_eq_at (begins closed few) fun a mid read => ?_
  obtain ⟨u, passes⟩ := advances closed read
  have shorter := passes.length_eq
  exact goesOn a (passes.closed closed) (by omega)

theorem last {first first' : Rule α} (agree : AgreeBelow size first first') (next : α → Rule β) :
    AgreeBelow size (first >>= next) (first' >>= next) :=
  fun _ closed few => bind_eq_at (agree closed few) fun _ _ _ => rfl

theorem listed {items items' : Rule (List α)} (agree : AgreeBelow size items items') :
    AgreeBelow size (listed items) (listed items') := by
  refine (refl _).bind (advances_eat rfl) fun ate => ?_
  cases ate with
  | true => exact refl _
  | false => exact agree

end AgreeBelow

theorem advance_bind_eq {next next' : Span → Rule α} (closed : c.Closed)
    (notEnd : c.current.kind ≠ .endOfInput)
    (goesOn : ∀ span, AgreeBelow c.ahead.length (next span) (next' span)) :
    (advance >>= next) c = (advance >>= next') c := by
  refine bind_eq_at rfl fun span mid read => ?_
  obtain ⟨-, rfl⟩ := advance_eq_ok.mp read
  exact goesOn span (closed.advance notEnd) (Cursor.length_advance_lt closed notEnd)

theorem consuming_bind_eq {first first' : Rule α} {next next' : α → Rule β} (closed : c.Closed)
    (consumes : Consuming first) (begins : first c = first' c)
    (goesOn : ∀ a, AgreeBelow c.ahead.length (next a) (next' a)) :
    (first >>= next) c = (first' >>= next') c := by
  refine bind_eq_at begins fun a mid read => ?_
  obtain ⟨u, passes, nonempty⟩ := consumes closed read
  exact goesOn a (passes.closed closed) (passes.length_lt nonempty)

section Forms

variable (closed : c.Closed) (notEnd : c.current.kind ≠ .endOfInput)

include closed notEnd

theorem binding_eq {value value' : Rule Expr} (agree : AgreeBelow c.ahead.length value value') :
    binding value c = binding value' c := by
  refine advance_bind_eq closed notEnd fun start => ?_
  refine (AgreeBelow.refl _).bind (consuming_expectName _).advances fun name => ?_
  refine (AgreeBelow.refl _).bind (consuming_expect _ rfl).advances fun _ => ?_
  exact (agree.within _).last _

theorem returning_eq {value value' : Rule (Option Expr)}
    (agree : AgreeBelow c.ahead.length value value') : returning value c = returning value' c :=
  advance_bind_eq closed notEnd fun _ => agree.last _

theorem grouping_eq {inner inner' : Rule Expr} (agree : AgreeBelow c.ahead.length inner inner') :
    grouping inner c = grouping inner' c :=
  advance_bind_eq closed notEnd fun _ => (agree.within _).last _

theorem unary_eq (op : UnaryOp) {operand operand' : Rule Expr}
    (agree : AgreeBelow c.ahead.length operand operand') :
    unary op operand c = unary op operand' c :=
  advance_bind_eq closed notEnd fun _ => agree.last _

theorem conditional_eq {condition condition' : Rule Expr} {branch branch' : Rule Block}
    (test : AgreeBelow c.ahead.length condition condition') (consumes : Consuming condition)
    (braced : AgreeBelow c.ahead.length branch branch') (advances : Advances branch) :
    conditional condition branch c = conditional condition' branch' c := by
  refine advance_bind_eq closed notEnd fun start => ?_
  refine (AgreeBelow.refl _).bind (consuming_expect _ rfl).advances fun _ => ?_
  refine (test.within _).bind (consumes.within _).advances fun e => ?_
  refine (AgreeBelow.refl _).bind (consuming_expect _ rfl).advances fun _ => ?_
  refine braced.bind advances fun b => ?_
  refine (AgreeBelow.refl _).bind (advances_eat rfl) fun ate => ?_
  cases ate with
  | true => exact braced.last _
  | false => exact .refl _

theorem function_eq {names names' : Rule (List String)} {body body' : Rule Block}
    (named : AgreeBelow c.ahead.length names names') (advances : Advances names)
    (braced : AgreeBelow c.ahead.length body body') :
    function names body c = function names' body' c := by
  refine advance_bind_eq closed notEnd fun start => ?_
  refine (AgreeBelow.refl _).bind (consuming_expect _ rfl).advances fun _ => ?_
  exact named.listed.bind advances.listed fun _ => braced.last _

end Forms

theorem consuming_statement (n : Nat) : Consuming (statement n) := by
  intro c c' t closed read
  obtain ⟨u, passes, ⟨nonempty, -⟩, -⟩ := (repeatsAt n).statement False c closed read
  exact ⟨u, passes, nonempty⟩

theorem consuming_expression (n : Nat) (least : Precedence) : Consuming (expression n least) := by
  intro c c' e closed read
  obtain ⟨u, passes, shaped, -⟩ := (repeatsAt n).expression False least c closed read
  exact ⟨u, passes, shaped.nonempty⟩

theorem consuming_operand (n : Nat) : Consuming (operand n) := by
  intro c c' e closed read
  obtain ⟨u, passes, formed, -⟩ := (repeatsAt n).operand False c closed read
  exact ⟨u, passes, formed.nonempty⟩

theorem advances_block (n : Nat) (construct : Construct) : Advances (block n construct) := by
  intro c c' b closed read
  obtain ⟨u, passes, -⟩ := (repeatsAt n).block False construct c closed read
  exact ⟨u, passes⟩

theorem advances_params (n : Nat) (read : List String) : Advances (params n read) := by
  intro c c' names closed ran
  have repeats : Repeats False Looks n (params · read) c _ := repeats_params read
  obtain ⟨u, passes, -⟩ := repeats closed ran
  exact ⟨u, passes⟩

theorem advances_arguments (n : Nat) (read : List Expr) : Advances (arguments n read) := by
  intro c c' args closed ran
  obtain ⟨u, passes, -⟩ := (repeatsAt n).arguments False read c closed ran
  exact ⟨u, passes⟩

/-- A round behind which the loop goes on consumes at least one token. -/
def Proceeds (round : Rule (ForInStep α)) : Prop :=
  ∀ ⦃c c' : Cursor⦄ ⦃a : α⦄, c.Closed → round c = .ok (.yield a) c' → ∃ u, c.Passes u c' ∧ u ≠ []

theorem Consuming.proceeds {round : Rule (ForInStep α)} (consumes : Consuming round) :
    Proceeds round :=
  fun _ _ _ closed read => consumes closed read

theorem consuming_paramsRound (read : List String) : Consuming (paramsRound read) :=
  (consuming_expectName _).bind fun _ => advances_separator _ _ _

theorem consuming_argumentsRound (n : Nat) (read : List Expr) :
    Consuming ((Rules.given n).argumentsRound read) :=
  ((consuming_expression n .lowest).within _).bind fun _ => advances_separator _ _ _

theorem proceeds_statementsRound (n : Nat) (read : List Stmt) :
    Proceeds ((Rules.given n).statementsRound read) := by
  intro c c' more closed ran
  rw [Rules.statementsRound, bind_of_ok current_ok] at ran
  have next : Consuming (do
      let next ← statement n
      return ForInStep.yield (next :: read)) :=
    (consuming_statement n).bind fun _ => advances_pure _
  cases here : c.current.kind with
  | rightBrace | endOfInput =>
      simp only [here] at ran
      cases ran
  | _ =>
      simp only [here] at ran
      exact next closed ran

theorem proceeds_continuedRound (n : Nat) (least : Precedence) (left : Expr) :
    Proceeds ((Rules.given n).continuedRound least left) := by
  intro c c' more closed ran
  rw [Rules.continuedRound, bind_of_ok current_ok] at ran
  by_cases binds : least < c.current.kind.precedence
  · have notEnd := TokenKind.ne_end_of_binds binds
    simp only [binds, if_true] at ran
    cases operator : c.current.kind.binaryOp? with
    | none =>
        simp only [operator] at ran
        refine passes_of_advancing closed notEnd (fun _ => ?_) ran
        refine (advances_arguments n []).listed.bind fun args => ?_
        exact advances_previous.bind fun _ => advances_pure _
    | some op =>
        simp only [operator] at ran
        refine passes_of_advancing closed notEnd (fun _ => ?_) ran
        exact (consuming_expression n op.precedence).advances.bind fun _ => advances_pure _
  · simp only [binds, if_false] at ran
    cases ran

/-- Rounds that agree make loops that agree. -/
theorem goOn_eq {round round' : Rule (ForInStep α)} {again again' : α → Rule α} (closed : c.Closed)
    (proceeds : Proceeds round) (same : round c = round' c)
    (goesOn : ∀ a, AgreeBelow c.ahead.length (again a) (again' a)) :
    (round >>= goOn again) c = (round' >>= goOn again') c := by
  refine bind_eq_at same fun result mid ran => ?_
  cases result with
  | done a => rfl
  | yield a =>
      obtain ⟨u, passes, nonempty⟩ := proceeds closed ran
      exact goesOn a (passes.closed closed) (passes.length_lt nonempty)

/-- With the allowance `n` the two rules do the same, wherever it suffices. -/
def Covered (slack n : Nat) (rule rule' : Rule α) : Prop :=
  ∀ ⦃c : Cursor⦄, c.Closed → c.need 0 slack ≤ n → rule c = rule' c

namespace Covered

variable {slack slack' n : Nat} {rule rule' : Rule α}

theorem zero (small : slack < 5) : Covered slack 0 rule rule' := by
  intro c _ enough
  unfold Cursor.need at enough
  omega

theorem later (covered : Covered slack n rule rule') (less : slack' < 5)
    (enough : c.need 0 slack' ≤ n + 1) : AgreeBelow c.ahead.length rule rule' := by
  intro mid closed shorter
  unfold Cursor.need at enough
  exact covered closed (by unfold Cursor.need; omega)

theorem same (covered : Covered slack n rule rule') (more : slack' < slack) (closed : c.Closed)
    (enough : c.need 0 slack' ≤ n + 1) : rule c = rule' c := by
  unfold Cursor.need at enough
  exact covered closed (by unfold Cursor.need; omega)

end Covered

end Rule

namespace Rules

open Rule

structure CoveredBy (n : Nat) (rules rules' : Rules) : Prop where
  params : ∀ read, Covered 4 n (rules.params read) (rules'.params read)
  statement : Covered 1 n rules.statement rules'.statement
  returned : Covered 1 n rules.returned rules'.returned
  block : ∀ construct, Covered 4 n (rules.block construct) (rules'.block construct)
  statements : ∀ read, Covered 0 n (rules.statements read) (rules'.statements read)
  expression : ∀ least, Covered 2 n (rules.expression least) (rules'.expression least)
  continued : ∀ least left, Covered 4 n (rules.continued least left) (rules'.continued least left)
  arguments : ∀ read, Covered 1 n (rules.arguments read) (rules'.arguments read)
  operand : Covered 3 n rules.operand rules'.operand

namespace CoveredBy

variable {n : Nat} {rules : Rules} {c : Cursor}

theorem zero (rules rules' : Rules) : CoveredBy 0 rules rules' where
  params _ := .zero (by decide)
  statement := .zero (by decide)
  returned := .zero (by decide)
  block _ := .zero (by decide)
  statements _ := .zero (by decide)
  expression _ := .zero (by decide)
  continued _ _ := .zero (by decide)
  arguments _ := .zero (by decide)
  operand := .zero (by decide)

section Above

variable (all : CoveredBy n (given n) rules)

include all

theorem params_above (read : List String) :
    Covered 4 (n + 1) ((given n).above.params read) (rules.above.params read) := by
  intro c closed enough
  exact goOn_eq closed (consuming_paramsRound read).proceeds rfl
    fun more => (all.params more).later (by decide) enough

theorem statement_above : Covered 1 (n + 1) (given n).above.statement rules.above.statement := by
  intro c closed enough
  refine bind_eq_at rfl fun t mid read => ?_
  obtain ⟨rfl, rfl⟩ := current_eq_ok.mp read
  have whole := (all.expression .lowest).later (by decide) enough
  cases here : c.current.kind with
  | letKeyword => exact binding_eq closed (by simp [here]) whole
  | returnKeyword =>
      exact returning_eq closed (by simp [here]) (all.returned.later (by decide) enough)
  | _ =>
      exact bind_eq_at ((all.expression .lowest).same (by decide) closed enough) fun _ _ _ => rfl

theorem returned_above : Covered 1 (n + 1) (given n).above.returned rules.above.returned := by
  intro c closed enough
  refine bind_eq_at rfl fun t mid read => ?_
  obtain ⟨rfl, rfl⟩ := current_eq_ok.mp read
  cases c.current.kind with
  | semicolon | rightBrace | endOfInput => rfl
  | _ =>
      refine bind_eq_at ?_ fun _ _ _ => rfl
      rw [Rule.within, Rule.within, (all.expression .lowest).same (by decide) closed enough]

theorem block_above (construct : Construct) :
    Covered 4 (n + 1) ((given n).above.block construct) (rules.above.block construct) := by
  intro c closed enough
  refine consuming_bind_eq closed (consuming_expect construct rfl) rfl fun start => ?_
  exact ((all.statements []).later (by decide) enough).last _

theorem statements_above (read : List Stmt) :
    Covered 0 (n + 1) ((given n).above.statements read) (rules.above.statements read) := by
  intro c closed enough
  refine goOn_eq closed (proceeds_statementsRound n read) ?_
    fun more => (all.statements more).later (by decide) enough
  refine bind_eq_at rfl fun t mid ran => ?_
  obtain ⟨rfl, rfl⟩ := current_eq_ok.mp ran
  have first := all.statement.same (by decide) closed enough
  cases c.current.kind with
  | rightBrace | endOfInput => rfl
  | _ => exact bind_eq_at first fun _ _ _ => rfl

theorem expression_above (least : Precedence) :
    Covered 2 (n + 1) ((given n).above.expression least) (rules.above.expression least) := by
  intro c closed enough
  have begins := all.operand.same (by decide) closed enough
  exact consuming_bind_eq closed (consuming_operand n) begins
    fun first => (all.continued least first).later (by decide) enough

theorem continued_above (least : Precedence) (left : Expr) :
    Covered 4 (n + 1) ((given n).above.continued least left) (rules.above.continued least left) := by
  intro c closed enough
  refine goOn_eq closed (proceeds_continuedRound n least left) ?_
    fun more => (all.continued least more).later (by decide) enough
  refine bind_eq_at rfl fun t mid ran => ?_
  obtain ⟨rfl, rfl⟩ := current_eq_ok.mp ran
  by_cases binds : least < c.current.kind.precedence
  · have notEnd := TokenKind.ne_end_of_binds binds
    simp only [binds, if_true]
    cases c.current.kind.binaryOp? with
    | none =>
        refine advance_bind_eq closed notEnd fun _ => ?_
        exact ((all.arguments []).later (by decide) enough).listed.last _
    | some op =>
        refine advance_bind_eq closed notEnd fun _ => ?_
        exact ((all.expression op.precedence).later (by decide) enough).last _
  · simp only [binds, if_false]

theorem arguments_above (read : List Expr) :
    Covered 1 (n + 1) ((given n).above.arguments read) (rules.above.arguments read) := by
  intro c closed enough
  refine goOn_eq closed (consuming_argumentsRound n read).proceeds ?_
    fun more => (all.arguments more).later (by decide) enough
  refine bind_eq_at ?_ fun _ _ _ => rfl
  rw [Rule.within, Rule.within, (all.expression .lowest).same (by decide) closed enough]

theorem operand_above : Covered 3 (n + 1) (given n).above.operand rules.above.operand := by
  intro c closed enough
  have whole := (all.expression .lowest).later (by decide) enough
  have tight := (all.expression .unary).later (by decide) enough
  have braced construct := (all.block construct).later (by decide) enough
  have named := (all.params []).later (by decide) enough
  refine bind_eq_at rfl fun t mid ran => ?_
  obtain ⟨rfl, rfl⟩ := current_eq_ok.mp ran
  cases here : c.current.kind with
  | bang => exact unary_eq closed (by simp [here]) .not tight
  | minus => exact unary_eq closed (by simp [here]) .neg tight
  | leftParen => exact grouping_eq closed (by simp [here]) whole
  | ifKeyword =>
      exact conditional_eq closed (by simp [here]) whole (consuming_expression n .lowest)
        (braced .ifExpression) (advances_block n .ifExpression)
  | fnKeyword =>
      exact function_eq closed (by simp [here]) named (advances_params n [])
        (braced .functionLiteral)
  | _ => rfl

theorem above : CoveredBy (n + 1) (given n).above rules.above where
  params := all.params_above
  statement := all.statement_above
  returned := all.returned_above
  block := all.block_above
  statements := all.statements_above
  expression := all.expression_above
  continued := all.continued_above
  arguments := all.arguments_above
  operand := all.operand_above

end Above

end CoveredBy

/-- With enough steps the rules do the same on top of any rules: these are never called. -/
theorem coveredBy_raised (rules : Rules) (n : Nat) : CoveredBy n (given n) (rules.raised n) := by
  induction n with
  | zero => exact .zero _ _
  | succ n ih =>
      rw [given_succ]
      exact ih.above

end Rules

/-- The allowance of a statement is never used up: with `n` steps on top of any rules it is read as
    with any other allowance that suffices. -/
theorem Rule.statement_raised {c : Cursor} {n n' : Nat} (closed : c.Closed)
    (enough : c.need 0 1 ≤ n') (more : n' ≤ n) (rules : Rules) :
    (rules.raised n).statement c = Rule.statement n' c := by
  obtain ⟨spared, rfl⟩ := Nat.exists_eq_add_of_le' more
  have above := (Rules.coveredBy_raised rules (spared + n')).statement closed
    (Nat.le_trans enough more)
  have larger := (Rules.coveredBy_raised (Rules.given spared) n').statement closed enough
  rw [Rules.raised_given] at larger
  exact above.symm.trans larger.symm

end TreeWalk
