import Mathlib.Data.List.Chain
import TreeWalk.Proofs.Parts
import TreeWalk.Proofs.Rendering
import TreeWalk.Proofs.Spans
import TreeWalk.Proofs.Spelling
import TreeWalk.Value

/-! # Reading canonical text back

The canonical text of a tree puts every operator application in parentheses and writes no semicolon
behind an expression. It is read back as the tree that it was written for, up to spans, where names
and literals can be read at all, the condition of every conditional brings its parentheses along,
and no statement goes on with the one before it.

The text spells the tokens of the tree, and these are a rendering of it.
-/

namespace TreeWalk

open Lexer Grammar

/-- Is the expression written in parentheses? -/
def Expr.isOperation : Expr → Bool
  | .unary _ _ _ | .binary _ _ _ _ => true
  | _ => false

/-- The expression that is written first, within the callees of calls. -/
def Expr.leading : Expr → Expr
  | .call _ callee _ => callee.leading
  | e => e

/-- Would the second statement, written behind the first, be taken for a call of it? -/
def Stmt.continuedBy : Stmt → Stmt → Bool
  | .expr _ _, .expr _ value => value.leading.isOperation
  | _, _ => false

/-- No statement of the list would go on with the one before it. -/
def Stmt.Apart (ts : List Stmt) : Prop := ts.IsChain fun t u => t.continuedBy u = false

/-- The names and the number of the node itself are written as they are. -/
def Node.Worded : Node → Prop
  | .expression (.ident _ name) => isName name = true
  | .expression (.int _ value) => 0 ≤ value.toInt
  | .expression (.fn _ _ params _) => ∀ name ∈ params, isName name = true
  | .statement (.bind _ name _) => isName name = true
  | _ => True

/-- The node itself, apart from the nodes below it, is written so that it can be read. -/
def Node.Readable : Node → Prop
  | .expression (.ident _ name) => isName name = true
  | .expression (.int _ value) => 0 ≤ value.toInt
  | .expression (.cond _ condition _ _) => condition.isOperation = true
  | .expression (.fn _ _ params _) => ∀ name ∈ params, isName name = true
  | .statement (.bind _ name _) => isName name = true
  | .block b => Stmt.Apart b.statements
  | .program p => Stmt.Apart p.statements
  | _ => True

/-- The node and all nodes below it are written so that they can be read. -/
def Node.Legible (node : Node) : Prop := ∀ part, Node.Within part node → part.Readable

theorem Node.Legible.self {node : Node} (legible : node.Legible) : node.Readable :=
  Node.Everywhere.self legible

theorem Node.Legible.child {node child : Node} (legible : node.Legible)
    (member : child ∈ node.children) : child.Legible :=
  Node.Everywhere.child legible member

theorem Node.Legible.of_children {node : Node} (here : node.Readable)
    (below : ∀ child ∈ node.children, child.Legible) : node.Legible :=
  Node.Everywhere.of_children here below

theorem Node.Readable.worded {node : Node} (readable : node.Readable) : node.Worded := by
  unfold Node.Worded
  split <;> first | exact readable | trivial

theorem Node.Legible.worded {node : Node} (legible : node.Legible) :
    node.Everywhere Node.Worded :=
  fun part within => (legible part within).worded

open Node (Everywhere Worded)

def paramTokens : List String → List TokenKind
  | [] => []
  | [name] => [.ident name]
  | name :: params => .ident name :: .comma :: paramTokens params

mutual

def Expr.tokens : Expr → List TokenKind
  | .ident _ name => [.ident name]
  | .int _ value => [.int value]
  | .bool _ value => [if value then .trueKeyword else .falseKeyword]
  | .unary _ op operand => .leftParen :: op.token :: (operand.tokens ++ [.rightParen])
  | .binary _ op left right =>
      .leftParen :: (left.tokens ++ op.token :: (right.tokens ++ [.rightParen]))
  | .cond _ condition consequence none =>
      .ifKeyword :: (condition.tokens ++ .leftBrace :: (consequence.tokens ++ [.rightBrace]))
  | .cond _ condition consequence (some alternative) =>
      .ifKeyword :: (condition.tokens ++ .leftBrace :: (consequence.tokens ++
        .rightBrace :: .elseKeyword :: .leftBrace :: (alternative.tokens ++ [.rightBrace])))
  | .fn _ _ params body =>
      .fnKeyword :: .leftParen :: (paramTokens params ++
        .rightParen :: .leftBrace :: (body.tokens ++ [.rightBrace]))
  | .call _ callee args => callee.tokens ++ .leftParen :: (Expr.argTokens args ++ [.rightParen])

def Expr.argTokens : List Expr → List TokenKind
  | [] => []
  | e :: es => e.tokens ++ Expr.moreTokens es

def Expr.moreTokens : List Expr → List TokenKind
  | [] => []
  | e :: es => .comma :: (e.tokens ++ Expr.moreTokens es)

def Stmt.tokens : Stmt → List TokenKind
  | .bind _ name value =>
      .letKeyword :: .ident name :: .assign :: (value.tokens ++ [.semicolon])
  | .ret _ none => [.returnKeyword, .semicolon]
  | .ret _ (some value) => .returnKeyword :: (value.tokens ++ [.semicolon])
  | .expr _ value => value.tokens

def Stmt.listTokens : List Stmt → List TokenKind
  | [] => []
  | t :: ts => t.tokens ++ Stmt.listTokens ts

def Block.tokens : Block → List TokenKind
  | .mk _ statements => Stmt.listTokens statements

end

def Expr.moreText (es : List Expr) : String := Expr.writeMore "" es

def Stmt.moreText (ts : List Stmt) : String := Stmt.writeMore "" ts

theorem Expr.writeMore_eq (out : String) (es : List Expr) :
    Expr.writeMore out es = out ++ Expr.moreText es := by
  rw [Expr.moreText, ← Expr.writeMore_append, String.append_empty]

theorem Stmt.writeMore_eq (out : String) (ts : List Stmt) :
    Stmt.writeMore out ts = out ++ Stmt.moreText ts := by
  rw [Stmt.moreText, ← Stmt.writeMore_append, String.append_empty]

section Text

variable {span literalSpan : Span}

theorem Expr.text_ident (name : String) : (Expr.ident span name).text = name := by
  rw [Expr.text, Expr.write, String.empty_append]

theorem Expr.text_int (value : Int64) : (Expr.int span value).text = toString value.toInt := by
  rw [Expr.text, Expr.write, String.empty_append, intText]

theorem Expr.text_bool (value : Bool) : (Expr.bool span value).text = boolText value := by
  rw [Expr.text, Expr.write, String.empty_append]

theorem Expr.text_unary (op : UnaryOp) (operand : Expr) :
    (Expr.unary span op operand).text = "(" ++ (op.symbol ++ (operand.text ++ ")")) := by
  rw [Expr.text, Expr.write, operand.write_eq]
  simp only [String.empty_append, String.append_assoc]

theorem Expr.text_binary (op : BinaryOp) (left right : Expr) :
    (Expr.binary span op left right).text =
      "(" ++ (left.text ++ ((" " ++ op.symbol ++ " ") ++ (right.text ++ ")"))) := by
  rw [Expr.text, Expr.write, left.write_eq, right.write_eq]
  simp only [String.empty_append, String.append_assoc]

theorem Expr.text_cond (condition : Expr) (consequence : Block) :
    (Expr.cond span condition consequence none).text =
      "if " ++ (condition.text ++ (" \x7b " ++ (consequence.text ++ " \x7d"))) := by
  rw [Expr.text, Expr.write, condition.write_eq, consequence.write_eq]
  simp only [String.empty_append, String.append_assoc]

theorem Expr.text_condElse (condition : Expr) (consequence alternative : Block) :
    (Expr.cond span condition consequence (some alternative)).text =
      "if " ++ (condition.text ++ (" \x7b " ++ (consequence.text ++ (" \x7d else \x7b " ++
        (alternative.text ++ " \x7d"))))) := by
  rw [Expr.text, Expr.write, condition.write_eq, consequence.write_eq, alternative.write_eq]
  simp only [String.empty_append, String.append_assoc]

theorem Expr.text_fn (params : List String) (body : Block) :
    (Expr.fn span literalSpan params body).text =
      "fn(" ++ (paramsText params ++ (") \x7b " ++ (body.text ++ " \x7d"))) := by
  rw [Expr.text, Expr.write, body.write_eq]
  simp only [String.empty_append, String.append_assoc]

theorem Expr.text_call (callee : Expr) (args : List Expr) :
    (Expr.call span callee args).text = callee.text ++ ("(" ++ (Expr.argsText args ++ ")")) := by
  rw [Expr.text, Expr.write, callee.write_eq, Expr.writeArgs_eq]
  simp only [String.empty_append, String.append_assoc]

theorem Expr.argsText_cons (e : Expr) (es : List Expr) :
    Expr.argsText (e :: es) = e.text ++ Expr.moreText es := by
  rw [Expr.argsText, Expr.writeArgs, Expr.writeMore_eq, Expr.text]

theorem Expr.moreText_cons (e : Expr) (es : List Expr) :
    Expr.moreText (e :: es) = ", " ++ (e.text ++ Expr.moreText es) := by
  rw [Expr.moreText, Expr.writeMore, Expr.writeMore_eq, e.write_eq]
  simp only [String.empty_append, String.append_assoc]

theorem Stmt.text_bind (name : String) (value : Expr) :
    (Stmt.bind span name value).text = "let " ++ (name ++ (" = " ++ (value.text ++ ";"))) := by
  rw [Stmt.text, Stmt.write, value.write_eq]
  simp only [String.empty_append, String.append_assoc]

theorem Stmt.text_retNothing : (Stmt.ret span none).text = "return;" := by
  rw [Stmt.text, Stmt.write, String.empty_append]

theorem Stmt.text_ret (value : Expr) :
    (Stmt.ret span (some value)).text = "return " ++ (value.text ++ ";") := by
  rw [Stmt.text, Stmt.write, value.write_eq]
  simp only [String.empty_append, String.append_assoc]

theorem Stmt.text_expr (value : Expr) : (Stmt.expr span value).text = value.text := by
  rw [Stmt.text, Stmt.write, Expr.text]

theorem Stmt.listText_cons (t : Stmt) (ts : List Stmt) :
    Stmt.listText (t :: ts) = t.text ++ Stmt.moreText ts := by
  rw [Stmt.listText, Stmt.writeAll, Stmt.writeMore_eq, Stmt.text]

theorem Stmt.moreText_cons (t : Stmt) (ts : List Stmt) :
    Stmt.moreText (t :: ts) = " " ++ (t.text ++ Stmt.moreText ts) := by
  rw [Stmt.moreText, Stmt.writeMore, Stmt.writeMore_eq, t.write_eq]
  simp only [String.empty_append, String.append_assoc]

theorem Block.text_mk (statements : List Stmt) :
    (Block.mk span statements).text = Stmt.listText statements := rfl

end Text

theorem marks_leftParen : Marks "(" [.leftParen] := fun _ => rfl

theorem marks_if : Marks "if " [.ifKeyword] := .of_blank (c := ' ') rfl fun _ => rfl

theorem marks_fn : Marks "fn(" [.fnKeyword, .leftParen] := fun _ => rfl

theorem marks_let : Marks "let " [.letKeyword] := .of_blank (c := ' ') rfl fun _ => rfl

theorem marks_return : Marks "return " [.returnKeyword] := .of_blank (c := ' ') rfl fun _ => rfl

theorem marks_retNothing : Marks "return;" [.returnKeyword, .semicolon] := fun _ => rfl

theorem separates_leftParen : Separates "(" [.leftParen] :=
  .of_head (c := '(') marks_leftParen rfl rfl

theorem separates_rightParen : Separates ")" [.rightParen] :=
  .of_head (c := ')') (fun _ => rfl) rfl rfl

theorem separates_operator (op : BinaryOp) : Separates (" " ++ op.symbol ++ " ") [op.token] := by
  cases op <;> exact .of_head (c := ' ') (.of_blank (c := ' ') rfl fun _ => rfl) rfl rfl

theorem separates_comma : Separates ", " [.comma] :=
  .of_head (c := ',') (.of_blank (c := ' ') rfl fun _ => rfl) rfl rfl

theorem separates_blank : Separates " " [] :=
  .of_head (c := ' ') (.of_blank (c := ' ') rfl fun _ => rfl) rfl rfl

theorem separates_assign : Separates " = " [.assign] :=
  .of_head (c := ' ') (.of_blank (c := ' ') rfl fun _ => rfl) rfl rfl

theorem separates_semicolon : Separates ";" [.semicolon] :=
  .of_head (c := ';') (fun _ => rfl) rfl rfl

theorem separates_open : Separates " \x7b " [.leftBrace] :=
  .of_head (c := ' ') (.of_blank (c := ' ') rfl fun _ => rfl) rfl rfl

theorem separates_close : Separates " \x7d" [.rightBrace] :=
  .of_head (c := ' ') (fun _ => rfl) rfl rfl

theorem separates_else : Separates " \x7d else \x7b " [.rightBrace, .elseKeyword, .leftBrace] :=
  .of_head (c := ' ') (.of_blank (c := ' ') rfl fun _ => rfl) rfl rfl

theorem separates_body : Separates ") \x7b " [.rightParen, .leftBrace] :=
  .of_head (c := ')') (.of_blank (c := ' ') rfl fun _ => rfl) rfl rfl

theorem spells_bool (b : Bool) :
    Spells (boolText b) [if b then .trueKeyword else .falseKeyword] := by
  cases b with
  | true =>
      have written : "true".toList = ['t', 'r', 'u', 'e'] := rfl
      exact spells_word written rfl (List.all_eq_true.mp rfl)
  | false =>
      have written : "false".toList = ['f', 'a', 'l', 's', 'e'] := rfl
      exact spells_word written rfl (List.all_eq_true.mp rfl)

/-- No expression is written with an equals sign in front. -/
theorem Expr.text_head : (e : Expr) → Everywhere Worded (.expression e) →
    ∃ c rest, e.text.toList = c :: rest ∧ c ≠ '='
  | .ident _ name, worded => by
      obtain ⟨c, rest, written, starts, -⟩ := exists_of_isName worded.self
      rw [Expr.text_ident]
      refine ⟨c, rest, written, ?_⟩
      rintro rfl
      cases starts
  | .int _ value, worded => by
      obtain ⟨c, rest, written, digit, -⟩ := exists_of_natural worded.self
      rw [Expr.text_int]
      refine ⟨c, rest, written, ?_⟩
      rintro rfl
      cases digit
  | .bool _ value, _ => by
      rw [Expr.text_bool]
      cases value with
      | true => exact ⟨'t', _, rfl, by decide⟩
      | false => exact ⟨'f', _, rfl, by decide⟩
  | .unary _ op operand, _ => by
      rw [Expr.text_unary, String.toList_append]
      exact ⟨'(', _, rfl, by decide⟩
  | .binary _ op left right, _ => by
      rw [Expr.text_binary, String.toList_append]
      exact ⟨'(', _, rfl, by decide⟩
  | .cond _ condition consequence none, _ => by
      rw [Expr.text_cond, String.toList_append]
      exact ⟨'i', _, rfl, by decide⟩
  | .cond _ condition consequence (some alternative), _ => by
      rw [Expr.text_condElse, String.toList_append]
      exact ⟨'i', _, rfl, by decide⟩
  | .fn _ _ params body, _ => by
      rw [Expr.text_fn, String.toList_append]
      exact ⟨'f', _, rfl, by decide⟩
  | .call _ callee args, worded => by
      obtain ⟨c, rest, first, apart⟩ := callee.text_head (worded.child List.mem_cons_self)
      rw [Expr.text_call, String.toList_append, first]
      exact ⟨c, _, rfl, apart⟩

theorem spells_params : (params : List String) → (∀ name ∈ params, isName name = true) →
    Spells (paramsText params) (paramTokens params)
  | [], _ => spells_nil
  | [name], named => by
      have same : paramsText [name] = name := by simp [paramsText]
      rw [same]
      exact spells_name (named name List.mem_cons_self)
  | name :: other :: params, named => by
      obtain ⟨first, others⟩ := List.forall_mem_cons.mp named
      have split : paramsText (name :: other :: params) =
          name ++ (", " ++ paramsText (other :: params)) := by
        rw [paramsText, String.intercalate_cons_cons, String.append_assoc]
        rfl
      rw [split]
      exact (spells_name first).separate separates_comma (spells_params (other :: params) others)

mutual

theorem Expr.spells : (e : Expr) → Everywhere Worded (.expression e) → Spells e.text e.tokens
  | .ident _ name, worded => by
      rw [Expr.text_ident]
      exact spells_name worded.self
  | .int _ value, worded => by
      rw [Expr.text_int]
      exact spells_int worded.self
  | .bool _ value, _ => by
      rw [Expr.text_bool]
      exact spells_bool value
  | .unary _ op operand, worded => by
      have inner := worded.child List.mem_cons_self
      obtain ⟨c, rest, first, apart⟩ := operand.text_head inner
      have closed := (operand.spells inner).close separates_rightParen
      have start : (operand.text ++ ")").toList = c :: (rest ++ [')']) := by
        rw [String.toList_append, first]
        rfl
      rw [Expr.text_unary]
      exact marks_leftParen.append (closed.unary op start apart)
  | .binary _ op left right, worded => by
      have leftSpells := left.spells (worded.child List.mem_cons_self)
      have rightSpells := right.spells (worded.child (List.mem_cons_of_mem _ List.mem_cons_self))
      rw [Expr.text_binary]
      exact marks_leftParen.append
        (leftSpells.separate (separates_operator op) (rightSpells.close separates_rightParen))
  | .cond _ condition consequence none, worded => by
      have conditionSpells := condition.spells (worded.child List.mem_cons_self)
      have consequenceSpells :=
        consequence.spells (worded.child (List.mem_cons_of_mem _ List.mem_cons_self))
      rw [Expr.text_cond]
      exact marks_if.append
        (conditionSpells.separate separates_open (consequenceSpells.close separates_close))
  | .cond _ condition consequence (some alternative), worded => by
      have conditionSpells := condition.spells (worded.child List.mem_cons_self)
      have consequenceSpells :=
        consequence.spells (worded.child (List.mem_cons_of_mem _ List.mem_cons_self))
      have alternativeSpells := alternative.spells
        (worded.child (List.mem_cons_of_mem _ (List.mem_cons_of_mem _ List.mem_cons_self)))
      rw [Expr.text_condElse]
      exact marks_if.append
        (conditionSpells.separate separates_open (consequenceSpells.separate separates_else
          (alternativeSpells.close separates_close)))
  | .fn _ _ params body, worded => by
      have bodySpells := body.spells (worded.child List.mem_cons_self)
      rw [Expr.text_fn]
      exact marks_fn.append ((spells_params params worded.self).separate separates_body
        (bodySpells.close separates_close))
  | .call _ callee args, worded => by
      have calleeSpells := callee.spells (worded.child List.mem_cons_self)
      have argsSpell := Expr.spellsArgs args fun e member =>
        worded.child (List.mem_cons_of_mem _ (List.mem_map_of_mem member))
      rw [Expr.text_call]
      exact calleeSpells.separate separates_leftParen (argsSpell.close separates_rightParen)

theorem Expr.spellsArgs : (es : List Expr) → (∀ e ∈ es, Everywhere Worded (.expression e)) →
    Spells (Expr.argsText es) (Expr.argTokens es)
  | [], _ => spells_nil
  | e :: es, worded => by
      obtain ⟨first, others⟩ := List.forall_mem_cons.mp worded
      obtain ⟨spells, parted⟩ := Expr.spellsMore es others
      rw [Expr.argsText_cons]
      exact (e.spells first).append parted spells

theorem Expr.spellsMore : (es : List Expr) → (∀ e ∈ es, Everywhere Worded (.expression e)) →
    Spells (Expr.moreText es) (Expr.moreTokens es) ∧ Parted (Expr.moreText es).toList
  | [], _ => ⟨spells_nil, parted_nil⟩
  | e :: es, worded => by
      obtain ⟨first, others⟩ := List.forall_mem_cons.mp worded
      obtain ⟨spells, parted⟩ := Expr.spellsMore es others
      rw [Expr.moreText_cons]
      refine ⟨separates_comma.marks.append ((e.spells first).append parted spells), ?_⟩
      rw [String.toList_append]
      exact separates_comma.parted _

theorem Stmt.spells : (t : Stmt) → Everywhere Worded (.statement t) → Spells t.text t.tokens
  | .bind _ name value, worded => by
      have valueSpells := value.spells (worded.child List.mem_cons_self)
      rw [Stmt.text_bind]
      exact marks_let.append ((spells_name worded.self).separate separates_assign
        (valueSpells.close separates_semicolon))
  | .ret _ none, _ => by
      rw [Stmt.text_retNothing]
      exact marks_retNothing.spells
  | .ret _ (some value), worded => by
      have valueSpells := value.spells (worded.child List.mem_cons_self)
      rw [Stmt.text_ret]
      exact marks_return.append (valueSpells.close separates_semicolon)
  | .expr _ value, worded => by
      rw [Stmt.text_expr]
      exact value.spells (worded.child List.mem_cons_self)

theorem Stmt.spellsAll : (ts : List Stmt) → (∀ t ∈ ts, Everywhere Worded (.statement t)) →
    Spells (Stmt.listText ts) (Stmt.listTokens ts)
  | [], _ => spells_nil
  | t :: ts, worded => by
      obtain ⟨first, others⟩ := List.forall_mem_cons.mp worded
      obtain ⟨spells, parted⟩ := Stmt.spellsMore ts others
      rw [Stmt.listText_cons]
      exact (t.spells first).append parted spells

theorem Stmt.spellsMore : (ts : List Stmt) → (∀ t ∈ ts, Everywhere Worded (.statement t)) →
    Spells (Stmt.moreText ts) (Stmt.listTokens ts) ∧ Parted (Stmt.moreText ts).toList
  | [], _ => ⟨spells_nil, parted_nil⟩
  | t :: ts, worded => by
      obtain ⟨first, others⟩ := List.forall_mem_cons.mp worded
      obtain ⟨spells, parted⟩ := Stmt.spellsMore ts others
      rw [Stmt.moreText_cons]
      refine ⟨separates_blank.marks.append ((t.spells first).append parted spells), ?_⟩
      rw [String.toList_append]
      exact separates_blank.parted _

theorem Block.spells : (b : Block) → Everywhere Worded (.block b) → Spells b.text b.tokens
  | .mk _ statements, worded => by
      rw [Block.text_mk]
      exact Stmt.spellsAll statements fun t member => worded.child (List.mem_map_of_mem member)

end

/-- The tokens between the parentheses of an operator application. -/
def Expr.insideTokens : Expr → List TokenKind
  | .unary _ op operand => op.token :: operand.tokens
  | .binary _ op left right => left.tokens ++ op.token :: right.tokens
  | _ => []

theorem Expr.tokens_operation {e : Expr} (operation : e.isOperation = true) :
    e.tokens = .leftParen :: (e.insideTokens ++ [.rightParen]) := by
  cases e with
  | unary => rfl
  | binary => simp only [Expr.tokens, Expr.insideTokens, List.append_assoc, List.cons_append]
  | _ => cases operation

/-- The tokens write the expression wherever it stands. -/
def Expr.Rendered (e : Expr) : Prop :=
  ∀ place rest, Rendering.Expression place (e.tokens ++ rest) e rest

/-- The tokens between the parentheses write the expression where any can stand. -/
def Expr.RenderedInside (e : Expr) : Prop :=
  ∀ rest, Rendering.Expression .anywhere (e.insideTokens ++ rest) e rest

theorem Expr.RenderedInside.rendered {e : Expr} (inside : e.RenderedInside)
    (operation : e.isOperation = true) : e.Rendered := by
  intro place rest
  rw [Expr.tokens_operation operation, List.cons_append, List.append_assoc]
  exact .group (inside (.rightParen :: rest))

theorem renderedInside_unary {span : Span} {op : UnaryOp} {operand : Expr}
    (inner : operand.Rendered) : (Expr.unary span op operand).RenderedInside :=
  fun rest => .unary op rfl (inner .operand rest)

theorem renderedInside_binary {span : Span} {op : BinaryOp} {left right : Expr}
    (first : left.Rendered) (second : right.Rendered) :
    (Expr.binary span op left right).RenderedInside := by
  intro rest
  simp only [Expr.insideTokens, List.append_assoc, List.cons_append]
  exact .binary op rfl (first (.left op) _) (second (.right op) rest)

theorem renders_names : (params : List String) → params ≠ [] → (rest : List TokenKind) →
    Names (paramTokens params ++ .rightParen :: rest) params rest
  | [], nonempty, _ => absurd rfl nonempty
  | [_], _, _ => .last
  | _ :: other :: params, _, rest => .cons (renders_names (other :: params) nofun rest)

theorem renders_params (params : List String) (rest : List TokenKind) :
    Params (paramTokens params ++ .rightParen :: rest) params rest := by
  cases params with
  | nil => exact .empty
  | cons name params => exact .items (renders_names (name :: params) nofun rest)

/-- A statement that stands before these tokens without a semicolon ends there. -/
def EndsBefore (rest : List TokenKind) : Prop := next rest ≠ .leftParen ∧ next rest ≠ .minus

theorem Expr.endsBefore : (e : Expr) → e.leading.isOperation = false → (rest : List TokenKind) →
    EndsBefore (e.tokens ++ rest)
  | .ident _ _, _, _ | .int _ _, _, _ | .fn _ _ _ _, _, _ => ⟨nofun, nofun⟩
  | .bool _ true, _, _ | .bool _ false, _, _ => ⟨nofun, nofun⟩
  | .cond _ _ _ none, _, _ | .cond _ _ _ (some _), _, _ => ⟨nofun, nofun⟩
  | .call _ callee _, free, rest => by
      rw [Expr.tokens, List.append_assoc]
      exact callee.endsBefore free _

theorem Stmt.endsBefore {t : Stmt} {span : Span} {value : Expr}
    (apart : (Stmt.expr span value).continuedBy t = false) (rest : List TokenKind) :
    EndsBefore (t.tokens ++ rest) := by
  cases t with
  | bind => exact ⟨nofun, nofun⟩
  | ret _ value => cases value <;> exact ⟨nofun, nofun⟩
  | expr _ value => exact value.endsBefore apart rest

mutual

theorem Expr.rendered : (e : Expr) → Node.Legible (.expression e) → e.Rendered
  | .ident _ _, _ => fun _ _ => .ident
  | .int _ _, _ => fun _ _ => .int
  | .bool _ true, _ => fun _ _ => .trueLiteral
  | .bool _ false, _ => fun _ _ => .falseLiteral
  | .unary _ _ operand, legible =>
      (renderedInside_unary (operand.rendered (legible.child List.mem_cons_self))).rendered rfl
  | .binary _ _ left right, legible =>
      (renderedInside_binary (left.rendered (legible.child List.mem_cons_self))
        (right.rendered (legible.child (List.mem_cons_of_mem _ List.mem_cons_self)))).rendered rfl
  | .cond _ condition consequence none, legible => by
      -- The parentheses of the operator application serve as those of the condition.
      have operation : condition.isOperation = true := legible.self
      have inside := condition.renderedInside operation (legible.child List.mem_cons_self)
      have branch :=
        consequence.rendered (legible.child (List.mem_cons_of_mem _ List.mem_cons_self))
      intro place rest
      simp only [Expr.tokens, Expr.tokens_operation operation, List.append_assoc, List.cons_append,
        List.nil_append]
      exact .cond (inside _) (branch rest)
  | .cond _ condition consequence (some alternative), legible => by
      have operation : condition.isOperation = true := legible.self
      have inside := condition.renderedInside operation (legible.child List.mem_cons_self)
      have branch :=
        consequence.rendered (legible.child (List.mem_cons_of_mem _ List.mem_cons_self))
      have other := alternative.rendered
        (legible.child (List.mem_cons_of_mem _ (List.mem_cons_of_mem _ List.mem_cons_self)))
      intro place rest
      simp only [Expr.tokens, Expr.tokens_operation operation, List.append_assoc, List.cons_append,
        List.nil_append]
      exact .condElse (inside _) (branch _) (other rest)
  | .fn _ _ params body, legible => by
      have code := body.rendered (legible.child List.mem_cons_self)
      intro place rest
      simp only [Expr.tokens, List.append_assoc, List.cons_append, List.nil_append]
      exact .fn (renders_params params _) (code rest)
  | .call _ callee args, legible => by
      have head := callee.rendered (legible.child List.mem_cons_self)
      have list := Expr.renderedArgs args fun e member =>
        legible.child (List.mem_cons_of_mem _ (List.mem_map_of_mem member))
      intro place rest
      simp only [Expr.tokens, List.append_assoc, List.cons_append, List.nil_append]
      exact .call (head .callee _) (list rest)

theorem Expr.renderedInside : (e : Expr) → e.isOperation = true → Node.Legible (.expression e) →
    e.RenderedInside
  | .unary _ _ operand, _, legible =>
      renderedInside_unary (operand.rendered (legible.child List.mem_cons_self))
  | .binary _ _ left right, _, legible =>
      renderedInside_binary (left.rendered (legible.child List.mem_cons_self))
        (right.rendered (legible.child (List.mem_cons_of_mem _ List.mem_cons_self)))

theorem Expr.renderedArgs : (es : List Expr) → (∀ e ∈ es, Node.Legible (.expression e)) →
    (rest : List TokenKind) →
    Rendering.Arguments (Expr.argTokens es ++ .rightParen :: rest) es rest
  | [], _, _ => .empty
  | e :: es, legible, rest => by
      obtain ⟨first, others⟩ := List.forall_mem_cons.mp legible
      rw [Expr.argTokens, List.append_assoc]
      exact .items (Expr.renderedItems es others (e.rendered first) rest)

theorem Expr.renderedItems : (es : List Expr) → (∀ e ∈ es, Node.Legible (.expression e)) →
    {front : Expr} → front.Rendered → (rest : List TokenKind) →
    Rendering.Items (front.tokens ++ (Expr.moreTokens es ++ .rightParen :: rest)) (front :: es) rest
  | [], _, _, item, _ => .last (item .anywhere _)
  | e :: es, legible, _, item, rest => by
      obtain ⟨first, others⟩ := List.forall_mem_cons.mp legible
      simp only [Expr.moreTokens, List.append_assoc, List.cons_append]
      exact .cons (item .anywhere _) (Expr.renderedItems es others (e.rendered first) rest)

theorem Stmt.rendered : (t : Stmt) → Node.Legible (.statement t) → (rest : List TokenKind) →
    (∀ span value, t = .expr span value → EndsBefore rest) →
    Rendering.Statement (t.tokens ++ rest) t rest
  | .bind _ name value, legible, rest, _ => by
      have inner := value.rendered (legible.child List.mem_cons_self)
      simp only [Stmt.tokens, List.append_assoc, List.cons_append, List.nil_append]
      exact .bind (inner .anywhere _) .semicolon
  | .ret _ none, _, _, _ => .retNothing .semicolon
  | .ret _ (some value), legible, rest, _ => by
      have inner := value.rendered (legible.child List.mem_cons_self)
      simp only [Stmt.tokens, List.append_assoc, List.cons_append, List.nil_append]
      exact .ret (inner .anywhere _) .semicolon
  | .expr span value, legible, rest, ends => by
      have inner := value.rendered (legible.child List.mem_cons_self)
      obtain ⟨noParen, noMinus⟩ := ends span value rfl
      exact .expr (inner .anywhere rest) (.omitted noParen noMinus)

theorem Stmt.renderedAll : (ts : List Stmt) → (∀ t ∈ ts, Node.Legible (.statement t)) →
    Stmt.Apart ts → (rest : List TokenKind) → EndsBefore rest →
    Rendering.Statements (Stmt.listTokens ts ++ rest) ts rest
  | [], _, _, _, _ => .nil
  | t :: ts, legible, apart, rest, ends => by
      obtain ⟨first, others⟩ := List.forall_mem_cons.mp legible
      simp only [Stmt.listTokens, List.append_assoc]
      refine .cons (t.rendered first _ ?_) (Stmt.renderedAll ts others apart.tail rest ends)
      -- Behind an expression stands the next statement, or whatever ends the list.
      rintro span value rfl
      cases ts with
      | nil => exact ends
      | cons u us =>
          rw [Stmt.listTokens, List.append_assoc]
          exact Stmt.endsBefore (List.isChain_cons_cons.mp apart).1 _

theorem Block.rendered : (b : Block) → Node.Legible (.block b) → (rest : List TokenKind) →
    Rendering.Braced (.leftBrace :: (b.tokens ++ .rightBrace :: rest)) b rest
  | .mk _ statements, legible, rest =>
      .mk (Stmt.renderedAll statements
        (fun _ member => legible.child (List.mem_map_of_mem member)) legible.self
        (.rightBrace :: rest) ⟨nofun, nofun⟩)

end

theorem exists_tokens_of_readings {ls : List Lexeme} {kinds : List TokenKind}
    (read : ls.map Lexeme.reading = kinds.map .ok) :
    ∃ ts : List Token, ls = ts.map Token.lexeme ∧ ts.map Token.kind = kinds := by
  induction ls generalizing kinds with
  | nil => exact ⟨[], rfl, by simpa [eq_comm] using read⟩
  | cons l ls ih =>
      cases kinds with
      | nil => cases read
      | cons kind kinds =>
          obtain ⟨first, others⟩ := List.cons.inj read
          obtain ⟨ts, rfl, rfl⟩ := ih others
          obtain ⟨span, reading⟩ := l
          cases first
          exact ⟨⟨kind, span⟩ :: ts, rfl, rfl⟩

/-- A text that spells a rendering of a program is read as the program. -/
theorem parse_of_spells {text : String} {kinds : List TokenKind} {p : Program}
    (fits : text.utf8ByteSize ≤ Span.maxOffset) (spells : Spells text kinds)
    (rendering : Rendering.Renders kinds p) : ∃ q, parse text = .ok q ∧ q.bare = p.bare := by
  have read := spells [] parted_nil
  rw [List.append_nil, readings_eq_map 0] at read
  obtain ⟨ts, cut, same⟩ := exists_tokens_of_readings (read.trans (List.append_nil _))
  obtain ⟨q, parsed, bare⟩ := exists_parseTokens_of_derives (endMarker 0 text)
    (noEnd_of_lexemes cut) (same ▸ rendering.derives)
  exact ⟨q, parse_eq_ok_iff.mpr ⟨fits, ts, cut, parsed⟩, bare⟩

theorem Program.rendered (p : Program) (legible : Node.Legible (.program p)) :
    Rendering.Renders (Stmt.listTokens p.statements) p := by
  have rendering := Stmt.renderedAll p.statements
    (fun _ member => legible.child (List.mem_map_of_mem member)) legible.self [] ⟨nofun, nofun⟩
  rwa [List.append_nil] at rendering

def FunctionLiteral.expr (literal : FunctionLiteral) : Expr :=
  .fn literal.span literal.span literal.params literal.body

theorem spells_inspect {literal : FunctionLiteral}
    (worded : Everywhere Worded (.expression literal.expr)) (cell : CellId) (scope : ScopeId) :
    Spells (Value.closure cell literal scope).inspect literal.expr.tokens := by
  have body := literal.body.spells (worded.child List.mem_cons_self)
  have opens : Separates ") \x7b\n" [.rightParen, .leftBrace] :=
    .of_head (c := ')') (.of_blank (c := '\n') rfl fun _ => rfl) rfl rfl
  have closes : Separates "\n\x7d" [.rightBrace] := .of_head (c := '\n') (fun _ => rfl) rfl rfl
  rw [Value.inspect]
  simp only [String.append_assoc]
  exact marks_fn.append ((spells_params literal.params worded.self).separate opens
    (body.close closes))

/-- The canonical text of a program is read as that program, and the text that shows a function as
    its literal, up to spans, wherever they can be: every name is one, no integer is negative, every
    condition is an operator application, no expression statement is followed by one that starts
    with an operator application, and the text is no longer than spans reach. -/
theorem parse_canonical_text :
    (∀ p : Program, Node.Legible (.program p) → p.text.utf8ByteSize ≤ Span.maxOffset →
      ∃ q, parse p.text = .ok q ∧ q.bare = p.bare) ∧
    ∀ cell literal scope, Node.Legible (.expression (FunctionLiteral.expr literal)) →
      (Value.closure cell literal scope).inspect.utf8ByteSize ≤ Span.maxOffset →
      ∃ q, parse (Value.closure cell literal scope).inspect = .ok q ∧
        q.bare = ⟨[.expr .zero literal.expr.bare]⟩ := by
  constructor
  · intro p legible fits
    have spells := Stmt.spellsAll p.statements fun t member =>
      legible.worded.child (List.mem_map_of_mem member)
    exact parse_of_spells fits spells (p.rendered legible)
  · intro cell literal scope legible fits
    have rendering : Rendering.Renders literal.expr.tokens ⟨[.expr .zero literal.expr]⟩ := by
      have inner := literal.expr.rendered legible .anywhere []
      rw [List.append_nil] at inner
      exact .cons (.expr inner (.omitted nofun nofun)) .nil
    exact parse_of_spells fits (spells_inspect legible.worded cell scope) rendering

/-- `let f = fn(x) { if (!x) { return; } }; f((1 / 2))` and the function that `f` is. -/
theorem parse_canonical_text_half :
    let literal : FunctionLiteral := ⟨["x"], .mk .zero [.expr .zero
      (.cond .zero (.unary .zero .not (.ident .zero "x")) (.mk .zero [.ret .zero none]) none)],
      .zero⟩
    let p : Program := ⟨[.bind .zero "f" literal.expr, .expr .zero (.call .zero (.ident .zero "f")
      [.binary .zero .div (.int .zero 1) (.int .zero 2)])]⟩
    p.text = "let f = fn(x) \x7b if (!x) \x7b return; \x7d \x7d; f((1 / 2))" ∧
      (∃ q, parse p.text = .ok q ∧ q.bare = p.bare) ∧
      ∃ q, parse (Value.closure 0 literal 0).inspect = .ok q ∧
        q.bare = ⟨[.expr .zero literal.expr.bare]⟩ := by
  intro literal p
  have leaf {node : Node} (here : node.Readable) (none : node.children = []) : node.Legible :=
    .of_children here (by rw [none]; exact List.forall_mem_nil _)
  have condition : Node.Legible (.expression (.unary .zero .not (.ident .zero "x"))) :=
    .of_children trivial (List.forall_mem_singleton.mpr (leaf (rfl : isName "x" = true) rfl))
  have branch : Node.Legible (.block (.mk .zero [.ret .zero none])) :=
    .of_children (.singleton _) (List.forall_mem_singleton.mpr (leaf trivial rfl))
  have body : Node.Legible (.block literal.body) :=
    .of_children (.singleton _) (List.forall_mem_singleton.mpr
      (.of_children trivial (List.forall_mem_singleton.mpr
        (.of_children rfl (List.forall_mem_cons.mpr
          ⟨condition, List.forall_mem_singleton.mpr branch⟩)))))
  have function : Node.Legible (.expression literal.expr) :=
    .of_children (List.forall_mem_singleton.mpr (rfl : isName "x" = true))
      (List.forall_mem_singleton.mpr body)
  have quotient : Node.Legible (.expression (.binary .zero .div (.int .zero 1) (.int .zero 2))) :=
    .of_children trivial (List.forall_mem_cons.mpr ⟨leaf (by decide : (0 : Int) ≤ 1) rfl,
      List.forall_mem_singleton.mpr (leaf (by decide : (0 : Int) ≤ 2) rfl)⟩)
  have application : Node.Legible (.expression (.call .zero (.ident .zero "f")
      [.binary .zero .div (.int .zero 1) (.int .zero 2)])) :=
    .of_children trivial (List.forall_mem_cons.mpr ⟨leaf (rfl : isName "f" = true) rfl,
      List.forall_mem_singleton.mpr quotient⟩)
  have legible : Node.Legible (.program p) :=
    .of_children (List.isChain_cons_cons.mpr ⟨rfl, .singleton _⟩) (List.forall_mem_cons.mpr
      ⟨.of_children (rfl : isName "f" = true) (List.forall_mem_singleton.mpr function),
        List.forall_mem_singleton.mpr
          (.of_children trivial (List.forall_mem_singleton.mpr application))⟩)
  obtain ⟨programs, functions⟩ := parse_canonical_text
  exact ⟨by decide +kernel, programs p legible (by decide +kernel),
    functions 0 literal 0 function (by decide +kernel)⟩

end TreeWalk
