import TreeWalk.Proofs.Bare
import TreeWalk.Proofs.CanonicalText
import TreeWalk.Proofs.Sequences
import TreeWalk.Proofs.Tokenisation

/-! # Canonical text tells programs apart

The canonical text of a program cannot always be read back: the condition of a conditional may stand
without parentheses, and a statement may go on with the one before it. No two programs have the same
text all the same, nor have two functions.

The text gives the tokens, and the tokens give the tree. What they leave in doubt is where an
expression ends when a parenthesis stands behind it, which opens the arguments of a call or starts
the next statement. That statement starts with an operator application, and what stands in its
parentheses is no list of arguments: its operator tells them apart.
-/

namespace TreeWalk

open Lexer Grammar

theorem UnaryOp.token_injective {op op' : UnaryOp} (same : op.token = op'.token) : op = op' := by
  cases op <;> cases op' <;> first | rfl | cases same

theorem BinaryOp.token_injective {op op' : BinaryOp} (same : op.token = op'.token) : op = op' := by
  have reads := congrArg TokenKind.binaryOp? same
  rw [binaryOp?_token, binaryOp?_token] at reads
  exact Option.some.inj reads

def Expr.opening : Expr → TokenKind
  | .ident _ name => .ident name
  | .int _ value => .int value
  | .bool _ value => if value then .trueKeyword else .falseKeyword
  | .unary _ _ _ | .binary _ _ _ _ => .leftParen
  | .cond _ _ _ _ => .ifKeyword
  | .fn _ _ _ _ => .fnKeyword
  | .call _ callee _ => callee.opening

/-- The tokens that canonical expressions start with. -/
def TokenKind.opensExpression : TokenKind → Bool
  | .ident _ | .int _ | .trueKeyword | .falseKeyword | .leftParen | .ifKeyword | .fnKeyword => true
  | _ => false

/-- The tokens with which neither a call nor a conditional goes on. -/
def TokenKind.endsExpression : TokenKind → Bool
  | .leftParen | .elseKeyword => false
  | _ => true

/-- The tokens behind the statements of a list. -/
def TokenKind.endsStatements : TokenKind → Bool
  | .rightBrace | .endOfInput => true
  | _ => false

theorem Expr.next_tokens : (e : Expr) → (rest : List TokenKind) →
    next (e.tokens ++ rest) = e.opening
  | .ident _ _, _ | .int _ _, _ | .bool _ _, _ | .unary _ _ _, _ | .binary _ _ _ _, _ => rfl
  | .cond _ _ _ none, _ | .cond _ _ _ (some _), _ | .fn _ _ _ _, _ => rfl
  | .call _ callee _, rest => by
      rw [Expr.tokens, List.append_assoc]
      exact callee.next_tokens _

theorem Expr.opensExpression_opening : (e : Expr) → e.opening.opensExpression = true
  | .ident _ _ | .int _ _ | .bool _ true | .bool _ false | .unary _ _ _ | .binary _ _ _ _
  | .cond _ _ _ _ | .fn _ _ _ _ => rfl
  | .call _ callee _ => callee.opensExpression_opening

theorem Expr.tokens_ne_cons {e : Expr} {kind : TokenKind} {rest more : List TokenKind}
    (other : kind.opensExpression = false) : e.tokens ++ rest ≠ kind :: more := by
  intro same
  have first : e.opening = kind := (e.next_tokens rest).symm.trans (congrArg next same)
  rw [← first, e.opensExpression_opening] at other
  cases other

theorem UnaryOp.opensExpression_token (op : UnaryOp) : op.token.opensExpression = false := by
  cases op <;> rfl

theorem BinaryOp.endsExpression_token (op : BinaryOp) : op.token.endsExpression = true := by
  cases op <;> rfl

/-- The expression, called with these lists of arguments one after the other. -/
def Expr.applied (e : Expr) : List (Span × List Expr) → Expr
  | [] => e
  | (span, args) :: calls => (Expr.call span e args).applied calls

def Expr.callTokens : List (Span × List Expr) → List TokenKind
  | [] => []
  | (_, args) :: calls =>
      .leftParen :: (Expr.argTokens args ++ .rightParen :: Expr.callTokens calls)

def Expr.isCall : Expr → Bool
  | .call _ _ _ => true
  | _ => false

theorem Expr.tokens_applied (calls : List (Span × List Expr)) : (e : Expr) →
    (e.applied calls).tokens = e.tokens ++ Expr.callTokens calls := by
  induction calls with
  | nil => exact fun e => (List.append_nil _).symm
  | cons call calls ih =>
      intro e
      rw [Expr.applied, ih, Expr.tokens, Expr.callTokens]
      simp only [List.append_assoc, List.cons_append, List.nil_append]

theorem Expr.exists_applied : (e : Expr) → (calls : List (Span × List Expr)) →
    ∃ (head : Expr) (more : _), head.isCall = false ∧ e.applied calls = head.applied more
  | .call span callee args, calls => callee.exists_applied ((span, args) :: calls)
  | .ident _ _, calls | .int _ _, calls | .bool _ _, calls | .unary _ _ _, calls
  | .binary _ _ _ _, calls | .cond _ _ _ _, calls | .fn _ _ _ _, calls => ⟨_, calls, rfl, rfl⟩

/-- Neither a call nor the other branch of a conditional goes on with these tokens. -/
structure Uncalled (rest : List TokenKind) : Prop where
  noElse : next rest ≠ .elseKeyword
  noCall : ∀ args more, rest ≠ .leftParen :: (Expr.argTokens args ++ .rightParen :: more)

/-- These tokens stand behind an expression: if they start with a parenthesis, it is that of an
    operator application. -/
inductive Follows : List TokenKind → Prop where
  | ends (ends : (next rest).endsExpression = true) : Follows rest
  | unary (op : UnaryOp) : Follows (.leftParen :: op.token :: rest)
  | binary (left : Expr) (op : BinaryOp) :
      Follows (.leftParen :: (left.tokens ++ op.token :: rest))

section Behind

variable {e left : Expr} {es args : List Expr} {rest more : List TokenKind}

theorem Uncalled.of_ends (ends : (next rest).endsExpression = true) : Uncalled rest where
  noElse first := by
    rw [first] at ends
    cases ends
  noCall args more same := by
    rw [same] at ends
    cases ends

theorem Uncalled.operator (op : BinaryOp) : Uncalled (op.token :: rest) :=
  .of_ends op.endsExpression_token

theorem Follows.operator (op : BinaryOp) : Follows (op.token :: rest) :=
  .ends op.endsExpression_token

theorem Follows.noElse (follows : Follows rest) : next rest ≠ .elseKeyword := by
  intro first
  cases follows with
  | ends ends =>
      rw [first] at ends
      cases ends
  | unary | binary => cases first

theorem Expr.follows : (e : Expr) → (rest : List TokenKind) → Follows (e.tokens ++ rest)
  | .ident _ _, _ | .int _ _, _ | .bool _ true, _ | .bool _ false, _ | .fn _ _ _ _, _
  | .cond _ _ _ none, _ | .cond _ _ _ (some _), _ => .ends rfl
  | .unary _ op _, _ => .unary op
  | .binary _ op left right, rest => by
      rw [Expr.tokens, List.cons_append, List.append_assoc]
      exact .binary left op
  | .call _ callee _, rest => by
      rw [Expr.tokens, List.append_assoc]
      exact callee.follows _

theorem Stmt.follows (t : Stmt) (rest : List TokenKind) : Follows (t.tokens ++ rest) := by
  cases t with
  | bind => exact .ends rfl
  | ret _ value => cases value <;> exact .ends rfl
  | expr _ value => exact value.follows rest

/-- Behind an argument stands a comma or the parenthesis that closes the list. -/
theorem Expr.moreTokens_ends (es : List Expr) (rest : List TokenKind) :
    (next (Expr.moreTokens es ++ .rightParen :: rest)).endsExpression = true := by
  cases es <;> rfl

theorem Expr.moreTokens_ne_operator (op : BinaryOp) :
    Expr.moreTokens es ++ .rightParen :: rest ≠ op.token :: more := by
  intro same
  have first := congrArg next same
  cases es <;> cases op <;> cases first

/-- No list of arguments starts with an operator. -/
theorem Expr.argTokens_ne_unary (op : UnaryOp) :
    Expr.argTokens args ++ .rightParen :: rest ≠ op.token :: more := by
  cases args with
  | nil => cases op <;> nofun
  | cons e es =>
      rw [Expr.argTokens, List.append_assoc]
      exact Expr.tokens_ne_cons op.opensExpression_token

/-- Both expressions end at the same place, where each of them could end. -/
def Expr.Meets (e left : Expr) : Prop := ∀ ⦃rest more⦄, (next rest).endsExpression = true →
  (next more).endsExpression = true → e.tokens ++ rest = left.tokens ++ more → rest = more

theorem Expr.Meets.symm (meets : e.Meets left) : left.Meets e :=
  fun _ _ ends endsMore same => (meets endsMore ends same.symm).symm

/-- No list of arguments goes on with an operator behind its first argument. -/
theorem Expr.argTokens_ne_binary (meets : ∀ e ∈ args, e.Meets left) (op : BinaryOp) :
    Expr.argTokens args ++ .rightParen :: rest ≠ left.tokens ++ op.token :: more := by
  intro same
  cases args with
  | nil => exact Expr.tokens_ne_cons rfl same.symm
  | cons e es =>
      rw [Expr.argTokens, List.append_assoc] at same
      exact Expr.moreTokens_ne_operator op
        (meets e List.mem_cons_self (Expr.moreTokens_ends es rest) op.endsExpression_token same)

theorem Follows.noCall (follows : Follows rest) (meets : ∀ e ∈ args, ∀ left, e.Meets left) :
    rest ≠ .leftParen :: (Expr.argTokens args ++ .rightParen :: more) := by
  intro same
  cases follows with
  | ends ends =>
      rw [same] at ends
      cases ends
  | unary op => exact Expr.argTokens_ne_unary op (List.cons.inj same).2.symm
  | binary left op =>
      exact Expr.argTokens_ne_binary (fun e member => meets e member left) op
        (List.cons.inj same).2.symm

theorem Uncalled.unary (op : UnaryOp) : Uncalled (.leftParen :: op.token :: rest) where
  noElse := nofun
  noCall _ _ same := Expr.argTokens_ne_unary op (List.cons.inj same).2.symm

theorem Uncalled.binary (op : BinaryOp) (meets : ∀ e, left.Meets e) :
    Uncalled (.leftParen :: (left.tokens ++ op.token :: rest)) where
  noElse := nofun
  noCall _ _ same :=
    Expr.argTokens_ne_binary (fun e _ => (meets e).symm) op (List.cons.inj same).2.symm

end Behind

/-- Among all trees, only those that differ from this one in spans have its tokens. -/
def Expr.Known (e : Expr) : Prop := ∀ ⦃e' : Expr⦄ ⦃rest rest'⦄, Uncalled rest → Follows rest' →
  e.tokens ++ rest = e'.tokens ++ rest' → e.bare = e'.bare ∧ rest = rest'

def Stmt.Known (t : Stmt) : Prop := ∀ ⦃t' : Stmt⦄ ⦃rest rest'⦄, Uncalled rest → Follows rest' →
  t.tokens ++ rest = t'.tokens ++ rest' → t.bare = t'.bare ∧ rest = rest'

def Block.Known (b : Block) : Prop := ∀ ⦃b' : Block⦄ ⦃rest rest'⦄,
  b.tokens ++ .rightBrace :: rest = b'.tokens ++ .rightBrace :: rest' →
    b.bare = b'.bare ∧ rest = rest'

theorem Expr.Known.meets {e : Expr} (known : e.Known) (left : Expr) : e.Meets left :=
  fun _ _ ends endsMore same => (known (.of_ends ends) (.ends endsMore) same).2

def Expr.isWord : Expr → Bool
  | .ident _ _ | .int _ _ | .bool _ _ => true
  | _ => false

/-- Two expressions of the same form, neither of which is a call. -/
inductive Expr.SameForm : Expr → Expr → Prop where
  | ident {s s' : Span} : SameForm (.ident s name) (.ident s' name)
  | int {s s' : Span} : SameForm (.int s value) (.int s' value)
  | bool {s s' : Span} : SameForm (.bool s value) (.bool s' value)
  | operation : e.isOperation = true → e'.isOperation = true → SameForm e e'
  | cond (condition condition' : Expr) (consequence consequence' : Block)
      (alternative alternative' : Option Block) {s s' : Span} :
      SameForm (.cond s condition consequence alternative)
        (.cond s' condition' consequence' alternative')
  | fn (params params' : List String) (body body' : Block) {s s' : Span} :
      SameForm (.fn s own params body) (.fn s' own' params' body')

theorem Expr.sameForm_of_opening {e e' : Expr} (head : e.isCall = false) (head' : e'.isCall = false)
    (same : e.opening = e'.opening) : e.SameForm e' := by
  cases e with
  | ident =>
      cases e' with
      | ident => cases same; exact .ident
      | _ => grind [Expr.opening, Expr.isCall]
  | int =>
      cases e' with
      | int => cases same; exact .int
      | _ => grind [Expr.opening, Expr.isCall]
  | bool _ value =>
      cases e' with
      | bool _ value' => cases value <;> cases value' <;> first | exact .bool | cases same
      | _ => grind [Expr.opening, Expr.isCall]
  | unary | binary =>
      cases e' with
      | unary | binary => exact .operation rfl rfl
      | _ => grind [Expr.opening, Expr.isCall]
  | cond =>
      cases e' with
      | cond => exact .cond ..
      | _ => grind [Expr.opening, Expr.isCall]
  | fn =>
      cases e' with
      | fn => exact .fn ..
      | _ => grind [Expr.opening, Expr.isCall]
  | call => cases head

/-- An expression that is no call is known among those of its form. -/
def Expr.KnownHead (e : Expr) : Prop := ∀ ⦃e' : Expr⦄ ⦃rest rest'⦄, e.SameForm e' →
  next rest ≠ .elseKeyword → next rest' ≠ .elseKeyword →
    e.tokens ++ rest = e'.tokens ++ rest' → e.bare = e'.bare ∧ rest = rest'

def Block.elseTokens : Option Block → List TokenKind
  | none => []
  | some b => .elseKeyword :: .leftBrace :: (b.tokens ++ [.rightBrace])

theorem Expr.tokens_cond (span : Span) (condition : Expr) (consequence : Block)
    (alternative : Option Block) : (Expr.cond span condition consequence alternative).tokens =
      .ifKeyword :: (condition.tokens ++ .leftBrace :: (consequence.tokens ++
        .rightBrace :: Block.elseTokens alternative)) := by
  cases alternative <;> rfl

/-- The names of parameters are known by their tokens. -/
theorem params_known {rest rest' : List TokenKind} : (params params' : List String) →
    paramTokens params ++ .rightParen :: rest = paramTokens params' ++ .rightParen :: rest' →
      params = params' ∧ rest = rest'
  | [], [], same => ⟨rfl, (List.cons.inj same).2⟩
  | [name], [name'], same => by
      cases same
      exact ⟨rfl, rfl⟩
  | name :: other :: params, name' :: other' :: params', same => by
      obtain ⟨first, behind⟩ := List.cons.inj same
      obtain ⟨others, tail⟩ :=
        params_known (other :: params) (other' :: params') (List.cons.inj behind).2
      cases first
      exact ⟨by rw [others], tail⟩
  | [], [_], same | [], _ :: _ :: _, same | [_], [], same | _ :: _ :: _, [], same
  | [_], _ :: _ :: _, same | _ :: _ :: _, [_], same => by cases same

section Heads

variable {span own : Span} {operand left right condition : Expr} {consequence body : Block}
  {alternative : Option Block}

theorem knownHead_word {e : Expr} (word : e.isWord = true) : e.KnownHead := by
  intro e' rest rest' form _ _ same
  cases form with
  | ident | int | bool => exact ⟨rfl, (List.cons.inj same).2⟩
  | operation operation =>
      cases e with
      | unary | binary => cases word
      | _ => cases operation
  | cond | fn => cases word

theorem knownHead_unary {op : UnaryOp} (inner : operand.Known) :
    (Expr.unary span op operand).KnownHead := by
  intro e' rest rest' form _ _ same
  cases form with
  | operation _ other =>
      cases e' with
      | unary _ op' operand' =>
          simp only [Expr.tokens, List.cons_append, List.append_assoc, List.nil_append] at same
          obtain ⟨opSame, inside⟩ := List.cons.inj (List.cons.inj same).2
          obtain ⟨bare, behind⟩ := inner (.of_ends rfl) (.ends rfl) inside
          cases UnaryOp.token_injective opSame
          exact ⟨congrArg (Expr.unary .zero op) bare, (List.cons.inj behind).2⟩
      | binary _ op' left right =>
          simp only [Expr.tokens, List.cons_append, List.append_assoc] at same
          exact absurd (List.cons.inj same).2.symm (Expr.tokens_ne_cons op.opensExpression_token)
      | _ => cases other

theorem knownHead_binary {op : BinaryOp} (first : left.Known) (second : right.Known) :
    (Expr.binary span op left right).KnownHead := by
  intro e' rest rest' form _ _ same
  cases form with
  | operation _ other =>
      cases e' with
      | unary _ op' operand' =>
          simp only [Expr.tokens, List.cons_append, List.append_assoc] at same
          exact absurd (List.cons.inj same).2 (Expr.tokens_ne_cons op'.opensExpression_token)
      | binary _ op' left' right' =>
          simp only [Expr.tokens, List.cons_append, List.append_assoc, List.nil_append] at same
          obtain ⟨leftBare, between⟩ := first (.operator op) (.operator op') (List.cons.inj same).2
          obtain ⟨opSame, inside⟩ := List.cons.inj between
          obtain ⟨rightBare, behind⟩ := second (.of_ends rfl) (.ends rfl) inside
          cases BinaryOp.token_injective opSame
          refine ⟨?_, (List.cons.inj behind).2⟩
          simp only [Expr.mapSpans, leftBare, rightBare]
      | _ => cases other

theorem knownHead_cond (test : condition.Known) (branch : consequence.Known)
    (other : ∀ b ∈ alternative, b.Known) :
    (Expr.cond span condition consequence alternative).KnownHead := by
  intro e' rest rest' form noElse noElse' same
  cases form with
  | operation operation => cases operation
  | cond _ condition' _ consequence' _ alternative' =>
      simp only [Expr.tokens_cond, List.cons_append, List.append_assoc] at same
      obtain ⟨testBare, opened⟩ := test (.of_ends rfl) (.ends rfl) (List.cons.inj same).2
      obtain ⟨branchBare, behind⟩ := branch (List.cons.inj opened).2
      simp only [Expr.mapSpans_cond, testBare, branchBare]
      match alternative, alternative' with
      | none, none => exact ⟨rfl, behind⟩
      | none, some _ => exact absurd (congrArg next behind) noElse
      | some _, none => exact absurd (congrArg next behind).symm noElse'
      | some b, some b' =>
          simp only [Block.elseTokens, List.cons_append, List.append_assoc,
            List.nil_append] at behind
          obtain ⟨otherBare, tail⟩ := other b rfl (List.cons.inj (List.cons.inj behind).2).2
          exact ⟨by simp only [Option.map_some, otherBare], tail⟩

theorem knownHead_fn {params : List String} (code : body.Known) :
    (Expr.fn span own params body).KnownHead := by
  intro e' rest rest' form _ _ same
  cases form with
  | operation operation => cases operation
  | fn _ params' _ body' =>
      simp only [Expr.tokens, List.cons_append, List.append_assoc, List.nil_append] at same
      obtain ⟨rfl, behind⟩ := params_known params params' (List.cons.inj (List.cons.inj same).2).2
      obtain ⟨bare, tail⟩ := code (List.cons.inj behind).2
      exact ⟨congrArg (Expr.fn .zero .zero params) bare, tail⟩

end Heads

section Calls

variable {e e' head : Expr} {es es' : List Expr} {calls calls' : List (Span × List Expr)}
  {rest rest' : List TokenKind}

theorem more_known (known : ∀ e ∈ es, e.Known)
    (same : Expr.moreTokens es ++ .rightParen :: rest =
      Expr.moreTokens es' ++ .rightParen :: rest') :
    Expr.bareAll es = Expr.bareAll es' ∧ rest = rest' := by
  induction es generalizing es' with
  | nil =>
      cases es' with
      | nil => exact ⟨rfl, (List.cons.inj same).2⟩
      | cons => cases same
  | cons e es ih =>
      cases es' with
      | nil => cases same
      | cons e' es' =>
          obtain ⟨first, others⟩ := List.forall_mem_cons.mp known
          simp only [Expr.moreTokens, List.cons_append, List.append_assoc] at same
          obtain ⟨bare, behind⟩ := first (.of_ends (Expr.moreTokens_ends es rest))
            (.ends (Expr.moreTokens_ends es' rest')) (List.cons.inj same).2
          obtain ⟨bares, tail⟩ := ih others behind
          exact ⟨congrArg₂ List.cons bare bares, tail⟩

theorem args_known (known : ∀ e ∈ es, e.Known)
    (same : Expr.argTokens es ++ .rightParen :: rest =
      Expr.argTokens es' ++ .rightParen :: rest') :
    Expr.bareAll es = Expr.bareAll es' ∧ rest = rest' := by
  match es, es' with
  | [], [] => exact ⟨rfl, (List.cons.inj same).2⟩
  | [], e' :: es' =>
      rw [Expr.argTokens, Expr.argTokens, List.append_assoc] at same
      exact absurd same.symm (Expr.tokens_ne_cons rfl)
  | e :: es, [] =>
      rw [Expr.argTokens, Expr.argTokens, List.append_assoc] at same
      exact absurd same (Expr.tokens_ne_cons rfl)
  | e :: es, e' :: es' =>
      obtain ⟨first, others⟩ := List.forall_mem_cons.mp known
      rw [Expr.argTokens, Expr.argTokens, List.append_assoc, List.append_assoc] at same
      obtain ⟨bare, behind⟩ := first (.of_ends (Expr.moreTokens_ends es rest))
        (.ends (Expr.moreTokens_ends es' rest')) same
      obtain ⟨bares, tail⟩ := more_known others behind
      exact ⟨congrArg₂ List.cons bare bares, tail⟩

/-- Behind two heads that differ in spans stand the same calls. -/
theorem calls_known (known : ∀ call ∈ calls, ∀ e ∈ call.2, e.Known) (uncalled : Uncalled rest)
    (follows : Follows rest') (bare : e.bare = e'.bare)
    (same : Expr.callTokens calls ++ rest = Expr.callTokens calls' ++ rest') :
    (e.applied calls).bare = (e'.applied calls').bare ∧ rest = rest' := by
  induction calls generalizing e e' calls' with
  | nil =>
      cases calls' with
      | nil => exact ⟨bare, same⟩
      | cons call calls' =>
          simp only [Expr.callTokens, List.cons_append, List.append_assoc] at same
          exact absurd same (uncalled.noCall _ _)
  | cons call calls ih =>
      obtain ⟨args, others⟩ := List.forall_mem_cons.mp known
      cases calls' with
      | nil =>
          simp only [Expr.callTokens, List.cons_append, List.append_assoc] at same
          exact absurd same.symm (follows.noCall fun e member => (args e member).meets)
      | cons call' calls' =>
          simp only [Expr.callTokens, List.cons_append, List.append_assoc] at same
          obtain ⟨argsBare, behind⟩ := args_known args (List.cons.inj same).2
          rw [Expr.applied, Expr.applied]
          exact ih others (congrArg₂ (Expr.call .zero) bare argsBare) behind

theorem next_callTokens (calls : List (Span × List Expr)) (noElse : next rest ≠ .elseKeyword) :
    next (Expr.callTokens calls ++ rest) ≠ .elseKeyword := by
  cases calls with
  | nil => exact noElse
  | cons => nofun

theorem applied_known (isHead : head.isCall = false) (known : head.KnownHead)
    (args : ∀ call ∈ calls, ∀ e ∈ call.2, e.Known) : (head.applied calls).Known := by
  intro e' rest rest' uncalled follows same
  obtain ⟨head', calls', isHead', applied⟩ := e'.exists_applied []
  change e' = _ at applied
  rw [applied, Expr.tokens_applied, Expr.tokens_applied, List.append_assoc,
    List.append_assoc] at same
  have opening := congrArg next same
  rw [Expr.next_tokens, Expr.next_tokens] at opening
  obtain ⟨bare, behind⟩ := known (Expr.sameForm_of_opening isHead isHead' opening)
    (next_callTokens calls uncalled.noElse) (next_callTokens calls' follows.noElse) same
  rw [applied]
  exact calls_known args uncalled follows bare behind

end Calls

section Statements

variable {span : Span} {name : String} {value : Expr} {t : Stmt} {ts ts' : List Stmt}
  {rest rest' : List TokenKind}

theorem bind_known (inner : value.Known) : (Stmt.bind span name value).Known := by
  intro t' rest rest' _ _ same
  match t' with
  | .bind _ name' value' =>
      simp only [Stmt.tokens, List.cons_append, List.append_assoc, List.nil_append] at same
      obtain ⟨named, assigned⟩ := List.cons.inj (List.cons.inj same).2
      obtain ⟨bare, behind⟩ := inner (.of_ends rfl) (.ends rfl) (List.cons.inj assigned).2
      cases named
      exact ⟨congrArg (Stmt.bind .zero name) bare, (List.cons.inj behind).2⟩
  | .ret _ none | .ret _ (some _) => cases same
  | .expr _ value' => exact absurd same.symm (Expr.tokens_ne_cons rfl)

theorem ret_known {value : Option Expr} (inner : ∀ e ∈ value, e.Known) :
    (Stmt.ret span value).Known := by
  intro t' rest rest' _ _ same
  cases t' with
  | bind => cases value <;> cases same
  | ret _ value' =>
      match value, value' with
      | none, none => exact ⟨rfl, (List.cons.inj (List.cons.inj same).2).2⟩
      | none, some e' =>
          simp only [Stmt.tokens, List.cons_append, List.append_assoc, List.nil_append] at same
          exact absurd (List.cons.inj same).2.symm (Expr.tokens_ne_cons rfl)
      | some e, none =>
          simp only [Stmt.tokens, List.cons_append, List.append_assoc, List.nil_append] at same
          exact absurd (List.cons.inj same).2 (Expr.tokens_ne_cons rfl)
      | some e, some e' =>
          simp only [Stmt.tokens, List.cons_append, List.append_assoc, List.nil_append] at same
          obtain ⟨bare, behind⟩ := inner e rfl (.of_ends rfl) (.ends rfl) (List.cons.inj same).2
          exact ⟨congrArg (fun e => Stmt.ret .zero (some e)) bare, (List.cons.inj behind).2⟩
  | expr _ e' => cases value <;> exact absurd same.symm (Expr.tokens_ne_cons rfl)

theorem expr_known (inner : value.Known) : (Stmt.expr span value).Known := by
  intro t' rest rest' uncalled follows same
  match t' with
  | .bind _ _ _ | .ret _ none | .ret _ (some _) => exact absurd same (Expr.tokens_ne_cons rfl)
  | .expr _ value' =>
      obtain ⟨bare, behind⟩ := inner uncalled follows same
      exact ⟨congrArg (Stmt.expr .zero) bare, behind⟩

/-- The tokens of the statement do not go on with an expression in front of them. -/
def Stmt.StandsAlone (t : Stmt) : Prop := ∀ rest, Uncalled (t.tokens ++ rest)

theorem Stmt.not_endsStatements (t : Stmt) (rest : List TokenKind) :
    (next (t.tokens ++ rest)).endsStatements = false := by
  cases t with
  | bind => rfl
  | ret _ value => cases value <;> rfl
  | expr _ value =>
      have opens := value.opensExpression_opening
      rw [Stmt.tokens, Expr.next_tokens]
      cases first : value.opening <;> rw [first] at opens <;> first | rfl | cases opens

theorem endsExpression_of_statements (ends : (next rest).endsStatements = true) :
    (next rest).endsExpression = true := by
  cases first : next rest <;> rw [first] at ends <;> first | rfl | cases ends

theorem uncalled_statements (alone : ∀ t ∈ ts, t.StandsAlone)
    (ends : (next rest).endsStatements = true) : Uncalled (Stmt.listTokens ts ++ rest) := by
  cases ts with
  | nil => exact .of_ends (endsExpression_of_statements ends)
  | cons t ts =>
      rw [Stmt.listTokens, List.append_assoc]
      exact alone t List.mem_cons_self _

theorem follows_statements (ts : List Stmt) (ends : (next rest).endsStatements = true) :
    Follows (Stmt.listTokens ts ++ rest) := by
  cases ts with
  | nil => exact .ends (endsExpression_of_statements ends)
  | cons t ts =>
      rw [Stmt.listTokens, List.append_assoc]
      exact t.follows _

theorem statements_known (known : ∀ t ∈ ts, t.Known ∧ t.StandsAlone)
    (ends : (next rest).endsStatements = true) (ends' : (next rest').endsStatements = true)
    (same : Stmt.listTokens ts ++ rest = Stmt.listTokens ts' ++ rest') :
    Stmt.bareAll ts = Stmt.bareAll ts' ∧ rest = rest' := by
  induction ts generalizing ts' with
  | nil =>
      cases ts' with
      | nil => exact ⟨rfl, same⟩
      | cons t' ts' =>
          rw [Stmt.listTokens, Stmt.listTokens, List.nil_append, List.append_assoc] at same
          rw [same, Stmt.not_endsStatements] at ends
          cases ends
  | cons t ts ih =>
      obtain ⟨first, others⟩ := List.forall_mem_cons.mp known
      cases ts' with
      | nil =>
          rw [Stmt.listTokens, Stmt.listTokens, List.nil_append, List.append_assoc] at same
          rw [← same, Stmt.not_endsStatements] at ends'
          cases ends'
      | cons t' ts' =>
          rw [Stmt.listTokens, Stmt.listTokens, List.append_assoc, List.append_assoc] at same
          obtain ⟨bare, behind⟩ := first.1
            (uncalled_statements (fun u member => (others u member).2) ends)
            (follows_statements ts' ends') same
          obtain ⟨bares, tail⟩ := ih others behind
          exact ⟨congrArg₂ List.cons bare bares, tail⟩

end Statements

mutual

/-- Every expression is known by its tokens, with the calls that it stands in as their callee: those
    tokens start with the head of all calls, so the calls are passed down to it. -/
theorem Expr.known : (e : Expr) → (calls : List (Span × List Expr)) →
    (∀ call ∈ calls, ∀ a ∈ call.2, a.Known) → (e.applied calls).Known
  | .ident _ _, _, args | .int _ _, _, args | .bool _ _, _, args =>
      applied_known rfl (knownHead_word rfl) args
  | .unary _ _ operand, _, args =>
      applied_known rfl (knownHead_unary (operand.known [] (List.forall_mem_nil _))) args
  | .binary _ _ left right, _, args =>
      applied_known rfl (knownHead_binary (left.known [] (List.forall_mem_nil _))
        (right.known [] (List.forall_mem_nil _))) args
  | .cond _ condition consequence none, _, args =>
      applied_known rfl (knownHead_cond (condition.known [] (List.forall_mem_nil _))
        consequence.known nofun) args
  | .cond _ condition consequence (some alternative), _, args =>
      applied_known rfl (knownHead_cond (condition.known [] (List.forall_mem_nil _))
        consequence.known (by rintro _ ⟨⟩; exact alternative.known)) args
  | .fn _ _ _ body, _, args => applied_known rfl (knownHead_fn body.known) args
  | .call span callee list, calls, args =>
      callee.known ((span, list) :: calls) (List.forall_mem_cons.mpr ⟨Expr.knownAll list, args⟩)

theorem Expr.knownAll : (es : List Expr) → ∀ e ∈ es, e.Known
  | [] => List.forall_mem_nil _
  | e :: es =>
      List.forall_mem_cons.mpr ⟨e.known [] (List.forall_mem_nil _), Expr.knownAll es⟩

/-- The tokens of an expression are no list of arguments: either they do not start with a
    parenthesis, or an operator stands where a list of arguments would go on or end. -/
theorem Expr.standsAlone : (e : Expr) → (rest : List TokenKind) → Uncalled (e.tokens ++ rest)
  | .ident _ _, _ | .int _ _, _ | .bool _ true, _ | .bool _ false, _ | .fn _ _ _ _, _
  | .cond _ _ _ none, _ | .cond _ _ _ (some _), _ => .of_ends rfl
  | .unary _ op _, _ => .unary op
  | .binary _ op left right, rest => by
      rw [Expr.tokens, List.cons_append, List.append_assoc]
      exact .binary op (left.known [] (List.forall_mem_nil _)).meets
  | .call _ callee _, rest => by
      rw [Expr.tokens, List.append_assoc]
      exact callee.standsAlone _

theorem Stmt.known : (t : Stmt) → t.Known ∧ t.StandsAlone
  | .bind _ _ value =>
      ⟨bind_known (value.known [] (List.forall_mem_nil _)), fun _ => .of_ends rfl⟩
  | .ret _ none => ⟨ret_known nofun, fun _ => .of_ends rfl⟩
  | .ret _ (some value) =>
      ⟨ret_known (by rintro _ ⟨⟩; exact value.known [] (List.forall_mem_nil _)),
        fun _ => .of_ends rfl⟩
  | .expr _ value => ⟨expr_known (value.known [] (List.forall_mem_nil _)), value.standsAlone⟩

theorem Stmt.knownAll : (ts : List Stmt) → ∀ t ∈ ts, t.Known ∧ t.StandsAlone
  | [] => List.forall_mem_nil _
  | t :: ts => List.forall_mem_cons.mpr ⟨t.known, Stmt.knownAll ts⟩

theorem Block.known : (b : Block) → b.Known
  | .mk _ statements => by
      intro b' rest rest' same
      obtain ⟨_, statements'⟩ := b'
      obtain ⟨bares, behind⟩ := statements_known (Stmt.knownAll statements) rfl rfl same
      exact ⟨congrArg (Block.mk .zero) bares, (List.cons.inj behind).2⟩

end

/-- The tokens of a program determine it, up to spans. -/
theorem Program.bare_of_tokens {p q : Program}
    (same : Stmt.listTokens p.statements = Stmt.listTokens q.statements) : p.bare = q.bare := by
  have whole := congrArg (· ++ ([] : List TokenKind)) same
  exact congrArg Program.mk (statements_known (Stmt.knownAll p.statements) rfl rfl whole).1

/-- The name or the number of the token can be written. -/
def TokenKind.Worded : TokenKind → Prop
  | .ident name => isName name = true
  | .int value => 0 ≤ value.toInt
  | _ => True

theorem TokenKind.SpelledBy.worded {kind : TokenKind} {word : String}
    (spelled : kind.SpelledBy word) : kind.Worded := by
  unfold TokenKind.Worded
  split
  · exact spelled.1
  · obtain ⟨_, _, value⟩ := spelled
    rw [← value]
    exact Int.natCast_nonneg _
  · trivial

theorem Tokenised.worded {offset : Nat} {text : List Char} {tokens : List Token}
    (tokenised : Tokenised offset text tokens) : ∀ t ∈ tokens, t.kind.Worded := by
  induction tokenised with
  | finish => exact List.forall_mem_singleton.mpr trivial
  | token _ spelled _ _ _ _ ih => exact List.forall_mem_cons.mpr ⟨spelled.worded, ih⟩

open Node (Everywhere Worded)

theorem worded_withSpan {e : Expr} (span : Span) (worded : Everywhere Worded (.expression e)) :
    Everywhere Worded (.expression (e.withSpan span)) := by
  refine .of_children ?_ fun child member => ?_
  · cases e <;> exact worded.self
  · rw [Node.children_withSpan] at member
    exact worded.child member

namespace Grammar

def AllWorded (kinds : List TokenKind) : Prop := ∀ kind ∈ kinds, kind.Worded

theorem AllWorded.first (words : AllWorded (kind :: rest)) : kind.Worded :=
  (List.forall_mem_cons.mp words).1

theorem AllWorded.behind (words : AllWorded (kind :: rest)) : AllWorded rest :=
  (List.forall_mem_cons.mp words).2

theorem Ends.worded (words : AllWorded input) : Ends input rest → AllWorded rest
  | .semicolon => words.behind
  | .omitted _ _ => words

theorem BareEnds.worded (words : AllWorded input) : BareEnds input rest → AllWorded rest
  | .semicolon => words.behind
  | .brace _ | .finish => words

theorem Names.worded (words : AllWorded input) (names : Names input params rest) :
    AllWorded rest ∧ ∀ name ∈ params, isName name = true := by
  induction names with
  | last => exact ⟨words.behind.behind, List.forall_mem_singleton.mpr words.first⟩
  | cons _ ih =>
      obtain ⟨after, others⟩ := ih words.behind.behind
      exact ⟨after, List.forall_mem_cons.mpr ⟨words.first, others⟩⟩

theorem Params.worded (words : AllWorded input) : Params input params rest →
    AllWorded rest ∧ ∀ name ∈ params, isName name = true
  | .empty => ⟨words.behind, List.forall_mem_nil _⟩
  | .items list => list.worded words

mutual

theorem Expression.worded : Expression layer input e rest → AllWorded input →
    AllWorded rest ∧ Everywhere Worded (.expression e)
  | .ident, words | .int, words =>
      ⟨words.behind, .of_children words.first (List.forall_mem_nil _)⟩
  | .trueLiteral, words | .falseLiteral, words =>
      ⟨words.behind, .of_children trivial (List.forall_mem_nil _)⟩
  | .group inner, words => by
      obtain ⟨behind, worded⟩ := inner.worded words.behind
      exact ⟨behind.behind, worded_withSpan _ worded⟩
  | .cond test branch, words => by
      obtain ⟨closed, condition⟩ := test.worded words.behind.behind
      obtain ⟨behind, consequence⟩ := branch.worded closed.behind
      exact ⟨behind, .of_children trivial (List.forall_mem_cons.mpr
        ⟨condition, List.forall_mem_singleton.mpr consequence⟩)⟩
  | .condElse test branch other, words => by
      obtain ⟨closed, condition⟩ := test.worded words.behind.behind
      obtain ⟨after, consequence⟩ := branch.worded closed.behind
      obtain ⟨behind, alternative⟩ := other.worded after.behind
      exact ⟨behind, .of_children trivial (List.forall_mem_cons.mpr
        ⟨condition, List.forall_mem_cons.mpr
          ⟨consequence, List.forall_mem_singleton.mpr alternative⟩⟩)⟩
  | .fn names code, words => by
      obtain ⟨after, named⟩ := names.worded words.behind.behind
      obtain ⟨behind, body⟩ := code.worded after
      exact ⟨behind, .of_children named (List.forall_mem_singleton.mpr body)⟩
  | .call head list, words => by
      obtain ⟨opened, callee⟩ := head.worded words
      obtain ⟨behind, args⟩ := list.worded opened.behind
      exact ⟨behind, .of_children trivial (List.forall_mem_cons.mpr
        ⟨callee, List.forall_mem_map.mpr args⟩)⟩
  | .unary _ inner, words => by
      obtain ⟨behind, operand⟩ := inner.worded words.behind
      exact ⟨behind, .of_children trivial (List.forall_mem_singleton.mpr operand)⟩
  | .binary _ first second _, words => by
      obtain ⟨after, left⟩ := first.worded words
      obtain ⟨behind, right⟩ := second.worded after.behind
      exact ⟨behind, .of_children trivial (List.forall_mem_cons.mpr
        ⟨left, List.forall_mem_singleton.mpr right⟩)⟩
  | .looser inner _, words => inner.worded words

theorem Arguments.worded : Arguments input args rest → AllWorded input →
    AllWorded rest ∧ ∀ e ∈ args, Everywhere Worded (.expression e)
  | .empty, words => ⟨words.behind, List.forall_mem_nil _⟩
  | .items list, words => list.worded words

theorem Items.worded : Items input args rest → AllWorded input →
    AllWorded rest ∧ ∀ e ∈ args, Everywhere Worded (.expression e)
  | .last item, words => by
      obtain ⟨behind, worded⟩ := item.worded words
      exact ⟨behind.behind, List.forall_mem_singleton.mpr worded⟩
  | .cons item more, words => by
      obtain ⟨after, first⟩ := item.worded words
      obtain ⟨behind, others⟩ := more.worded after.behind
      exact ⟨behind, List.forall_mem_cons.mpr ⟨first, others⟩⟩

theorem Statement.worded : Statement input t rest → AllWorded input →
    AllWorded rest ∧ Everywhere Worded (.statement t)
  | .bind inner ends, words => by
      obtain ⟨after, value⟩ := inner.worded words.behind.behind.behind
      exact ⟨ends.worded after, .of_children words.behind.first
        (List.forall_mem_singleton.mpr value)⟩
  | .ret inner ends, words => by
      obtain ⟨after, value⟩ := inner.worded words.behind
      exact ⟨ends.worded after, .of_children trivial (List.forall_mem_singleton.mpr value)⟩
  | .retNothing ends, words =>
      ⟨ends.worded words.behind, .of_children trivial (List.forall_mem_nil _)⟩
  | .expr inner ends, words => by
      obtain ⟨after, value⟩ := inner.worded words
      exact ⟨ends.worded after, .of_children trivial (List.forall_mem_singleton.mpr value)⟩

theorem Statements.worded : Statements input ts rest → AllWorded input →
    AllWorded rest ∧ ∀ t ∈ ts, Everywhere Worded (.statement t)
  | .nil, words => ⟨words, List.forall_mem_nil _⟩
  | .cons head tail, words => by
      obtain ⟨after, first⟩ := head.worded words
      obtain ⟨behind, others⟩ := tail.worded after
      exact ⟨behind, List.forall_mem_cons.mpr ⟨first, others⟩⟩

theorem Braced.worded : Braced input b rest → AllWorded input →
    AllWorded rest ∧ Everywhere Worded (.block b)
  | .mk inner, words => by
      obtain ⟨closed, worded⟩ := inner.worded words.behind
      exact ⟨closed.behind, .of_children trivial (List.forall_mem_map.mpr worded)⟩

end

end Grammar

/-- The program has been read from a text, on its own or where it stands in a larger one. -/
def Program.Parsed (p : Program) : Prop :=
  ∃ source, parse source = .ok p ∨ ∃ offset, parseAt source offset = .ok p

def FunctionLiteral.Parsed (literal : FunctionLiteral) : Prop :=
  ∃ (p : Program) (span : Span), p.Parsed ∧ Node.Within
    (.expression (.fn span literal.span literal.params literal.body)) (.program p)

theorem worded_of_parseTokens {ts : List Token} {stop : Span} {p : Program}
    (noEnd : ∀ t ∈ ts, t.kind ≠ .endOfInput) (words : ∀ t ∈ ts, t.kind.Worded)
    (parsed : parseTokens (ts ++ [⟨.endOfInput, stop⟩]) = .ok p) :
    Everywhere Worded (.program p) := by
  obtain ⟨c', reads, _⟩ := exists_reads_of_parseTokens noEnd parsed
  obtain ⟨_, _, derived⟩ := reads.derived (Cursor.start_shows noEnd)
  exact .of_children trivial
    (List.forall_mem_map.mpr (derived.worded (List.forall_mem_map.mpr words)).2)

theorem Program.Parsed.worded {p : Program} (parsed : p.Parsed) :
    Everywhere Worded (.program p) := by
  obtain ⟨source, parsed | ⟨offset, parsed⟩⟩ := parsed
  · obtain ⟨_, ts, cut, parsed⟩ := parse_eq_ok_iff.mp parsed
    have words := (List.forall_mem_append.mp (tokenised_of_lexemes cut).worded).1
    exact worded_of_parseTokens (noEnd_of_lexemes cut) words parsed
  · unfold parseAt at parsed
    cases lexed : lex source with
    | error => simp [lexed] at parsed
    | ok tokens =>
        obtain ⟨_, ts, cut, rfl⟩ := lex_eq_ok_iff.mp lexed
        simp only [lexed, List.map_append, List.map_singleton] at parsed
        have words := (List.forall_mem_append.mp (tokenised_of_lexemes cut).worded).1
        refine worded_of_parseTokens ?_ ?_ parsed
        · exact List.forall_mem_map.mpr (noEnd_of_lexemes cut)
        · exact List.forall_mem_map.mpr words

theorem FunctionLiteral.Parsed.worded {literal : FunctionLiteral} (parsed : literal.Parsed) :
    Everywhere Worded (.expression literal.expr) := by
  obtain ⟨p, span, read, within⟩ := parsed
  have here : Everywhere Worded
      (.expression (.fn span literal.span literal.params literal.body)) :=
    fun part inner => read.worded part (inner.trans within)
  exact .of_children here.self fun _ => here.child

/-- A text spells one list of tokens at most. -/
theorem tokens_of_spells {text : String} {kinds kinds' : List TokenKind}
    (spells : Spells text kinds) (spells' : Spells text kinds') : kinds = kinds' := by
  have same := (spells [] parted_nil).symm.trans (spells' [] parted_nil)
  exact (List.map_inj_right fun _ _ => Except.ok.inj).mp (List.append_cancel_right same)

/-- Programs with the same canonical text differ in their spans at most, and so do the parameters
    and the bodies of functions that are shown alike, wherever they have been read. -/
theorem canonical_text_injective :
    (∀ p q : Program, p.Parsed → q.Parsed → p.text = q.text → p.bare = q.bare) ∧
    ∀ (literal literal' : FunctionLiteral) (cell cell' : CellId) (scope scope' : ScopeId),
      literal.Parsed → literal'.Parsed →
      (Value.closure cell literal scope).inspect = (Value.closure cell' literal' scope').inspect →
        literal.params = literal'.params ∧ literal.body.bare = literal'.body.bare := by
  constructor
  · intro p q parsed parsed' same
    have spells := Stmt.spellsAll p.statements fun t member =>
      parsed.worded.child (List.mem_map_of_mem member)
    have spells' := Stmt.spellsAll q.statements fun t member =>
      parsed'.worded.child (List.mem_map_of_mem member)
    rw [Program.text, Program.text] at same
    rw [same] at spells
    exact Program.bare_of_tokens (tokens_of_spells spells spells')
  · intro literal literal' cell cell' scope scope' parsed parsed' same
    have spells := spells_inspect parsed.worded cell scope
    rw [same] at spells
    have tokens := tokens_of_spells spells (spells_inspect parsed'.worded cell' scope')
    have whole := congrArg (· ++ ([] : List TokenKind)) tokens
    have known := literal.expr.known [] (List.forall_mem_nil _)
    obtain ⟨bare, _⟩ := known (.of_ends rfl) (.ends rfl) whole
    cases literal
    cases literal'
    injection bare with _ _ params body
    exact ⟨params, body⟩

/-- Two layouts of one function. The text that both have cannot be read back: the condition in it
    stands without parentheses. -/
theorem canonical_text_injective_layout :
    let body : Block := .mk ⟨5, 15⟩ [.expr ⟨6, 14⟩ (.cond ⟨6, 14⟩ (.ident ⟨9, 10⟩ "a")
      (.mk ⟨11, 14⟩ [.expr ⟨12, 13⟩ (.ident ⟨12, 13⟩ "a")]) none)]
    let wide : Block := .mk ⟨7, 24⟩ [.expr ⟨9, 22⟩ (.cond ⟨9, 22⟩ (.ident ⟨13, 14⟩ "a")
      (.mk ⟨16, 22⟩ [.expr ⟨18, 20⟩ (.ident ⟨18, 19⟩ "a")]) none)]
    let p : Program := ⟨[.expr ⟨0, 15⟩ (.fn ⟨0, 15⟩ ⟨0, 15⟩ ["a"] body)]⟩
    let q : Program := ⟨[.expr ⟨0, 24⟩ (.fn ⟨0, 24⟩ ⟨0, 24⟩ ["a"] wide)]⟩
    parse "fn(a)\x7bif(a)\x7ba\x7d\x7d" = .ok p ∧
      parse "fn (a) \x7b if (a) \x7b a; \x7d \x7d" = .ok q ∧
      p.text = "fn(a) \x7b if a \x7b a \x7d \x7d" ∧ p.bare = q.bare ∧ body.bare = wide.bare := by
  intro body wide p q
  have lexed : lex "fn(a)\x7bif(a)\x7ba\x7d\x7d" = .ok [⟨.fnKeyword, ⟨0, 2⟩⟩,
      ⟨.leftParen, ⟨2, 3⟩⟩, ⟨.ident "a", ⟨3, 4⟩⟩, ⟨.rightParen, ⟨4, 5⟩⟩, ⟨.leftBrace, ⟨5, 6⟩⟩,
      ⟨.ifKeyword, ⟨6, 8⟩⟩, ⟨.leftParen, ⟨8, 9⟩⟩, ⟨.ident "a", ⟨9, 10⟩⟩, ⟨.rightParen, ⟨10, 11⟩⟩,
      ⟨.leftBrace, ⟨11, 12⟩⟩, ⟨.ident "a", ⟨12, 13⟩⟩, ⟨.rightBrace, ⟨13, 14⟩⟩,
      ⟨.rightBrace, ⟨14, 15⟩⟩, ⟨.endOfInput, ⟨15, 15⟩⟩] := by
    decide +kernel
  have lexedWide : lex "fn (a) \x7b if (a) \x7b a; \x7d \x7d" = .ok [⟨.fnKeyword, ⟨0, 2⟩⟩,
      ⟨.leftParen, ⟨3, 4⟩⟩, ⟨.ident "a", ⟨4, 5⟩⟩, ⟨.rightParen, ⟨5, 6⟩⟩, ⟨.leftBrace, ⟨7, 8⟩⟩,
      ⟨.ifKeyword, ⟨9, 11⟩⟩, ⟨.leftParen, ⟨12, 13⟩⟩, ⟨.ident "a", ⟨13, 14⟩⟩,
      ⟨.rightParen, ⟨14, 15⟩⟩, ⟨.leftBrace, ⟨16, 17⟩⟩, ⟨.ident "a", ⟨18, 19⟩⟩,
      ⟨.semicolon, ⟨19, 20⟩⟩, ⟨.rightBrace, ⟨21, 22⟩⟩, ⟨.rightBrace, ⟨23, 24⟩⟩,
      ⟨.endOfInput, ⟨24, 24⟩⟩] := by
    decide +kernel
  have parsed : parse "fn(a)\x7bif(a)\x7ba\x7d\x7d" = .ok p := by
    rw [parse, lexed]
    rfl
  have parsedWide : parse "fn (a) \x7b if (a) \x7b a; \x7d \x7d" = .ok q := by
    rw [parse, lexedWide]
    rfl
  have read : p.Parsed := ⟨_, .inl parsed⟩
  have readWide : q.Parsed := ⟨_, .inl parsedWide⟩
  obtain ⟨programs, functions⟩ := canonical_text_injective
  have bodies := functions ⟨["a"], body, ⟨0, 15⟩⟩ ⟨["a"], wide, ⟨0, 24⟩⟩ 0 1 0 0
    ⟨p, _, read, .tail (.tail .refl List.mem_cons_self) List.mem_cons_self⟩
    ⟨q, _, readWide, .tail (.tail .refl List.mem_cons_self) List.mem_cons_self⟩
    (by decide +kernel)
  exact ⟨parsed, parsedWide, by decide +kernel,
    programs p q read readWide (by decide +kernel), bodies.2⟩

end TreeWalk
