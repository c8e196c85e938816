import TreeWalk.Proofs.CanonicalText
import TreeWalk.Proofs.Locations
import TreeWalk.Proofs.Separators

/-! # Arithmetic as it is written

Arithmetic is what can be built from integer literals with `-` in front and `+ - * /` between. Its
canonical text is one line of printable characters of ASCII, so that bytes and columns agree. It is
read as one statement that holds the same expression, and the span of every node covers the
characters that the node was written with: the parentheses around an operation belong to it.
-/

namespace TreeWalk

open Lexer

/-- The operators of arithmetic between two operands. -/
inductive ArithmeticOp where
  | add
  | sub
  | mul
  | div
  deriving DecidableEq

def ArithmeticOp.toBinary : ArithmeticOp → BinaryOp
  | .add => .add
  | .sub => .sub
  | .mul => .mul
  | .div => .div

def ArithmeticOp.symbol : ArithmeticOp → Char
  | .add => '+'
  | .sub => '-'
  | .mul => '*'
  | .div => '/'

/-- Arithmetic on literals, which have no sign. -/
inductive Arithmetic where
  | literal (value : Int64) (natural : 0 ≤ value.toInt)
  | negation (operand : Arithmetic)
  | operation (op : ArithmeticOp) (left right : Arithmetic)

namespace Arithmetic

/-- The tree of the language, with no place in any text. -/
def expr : Arithmetic → Expr
  | literal value _ => .int .zero value
  | negation operand => .unary .zero .neg operand.expr
  | operation op left right => .binary .zero op.toBinary left.expr right.expr

def text (t : Arithmetic) : String := t.expr.text

def chars (t : Arithmetic) : List Char := t.text.toList

def width (t : Arithmetic) : Nat := t.chars.length

theorem chars_literal (value : Int64) (natural : 0 ≤ value.toInt) :
    (literal value natural).chars = (toString value.toInt).toList := by
  rw [chars, text, expr, Expr.text_int]

theorem chars_negation (operand : Arithmetic) :
    (negation operand).chars = '(' :: '-' :: (operand.chars ++ [')']) := by
  rw [chars, text, expr, Expr.text_unary]
  simp only [String.toList_append]
  rfl

theorem chars_operation (op : ArithmeticOp) (left right : Arithmetic) :
    (operation op left right).chars =
      '(' :: (left.chars ++ ' ' :: op.symbol :: ' ' :: (right.chars ++ [')'])) := by
  rw [chars, text, expr, Expr.text_binary]
  simp only [String.toList_append]
  cases op <;> rfl

theorem stop_negation (start : Nat) (operand : Arithmetic) :
    start + (negation operand).width = start + 2 + operand.width + 1 := by
  simp only [width, chars_negation, List.length_cons, List.length_append, List.length_nil]
  omega

theorem stop_operation (start : Nat) (op : ArithmeticOp) (left right : Arithmetic) :
    start + (operation op left right).width =
      start + 1 + left.width + 3 + right.width + 1 := by
  simp only [width, chars_operation, List.length_cons, List.length_append, List.length_nil]
  omega

end Arithmetic

/-- The characters of ASCII from the blank to the tilde. -/
def isPrintableAscii (c : Char) : Bool :=
  decide (' '.toNat ≤ c.toNat) && decide (c.toNat ≤ '~'.toNat)

section Characters

variable {c : Char}

theorem isPrintableAscii_iff : isPrintableAscii c = true ↔ 32 ≤ c.toNat ∧ c.toNat ≤ 126 := by
  rw [isPrintableAscii, Bool.and_eq_true, decide_eq_true_iff, decide_eq_true_iff]
  rfl

theorem isPrintableAscii_of_isDigit (digit : c.isDigit = true) : isPrintableAscii c = true := by
  obtain ⟨above, below⟩ := Char.isDigit_iff_toNat.mp digit
  have low : '0'.toNat = 48 := rfl
  have high : '9'.toNat = 57 := rfl
  exact isPrintableAscii_iff.mpr ⟨by omega, by omega⟩

theorem utf8Size_of_isPrintableAscii (printable : isPrintableAscii c = true) :
    c.utf8Size = 1 := by
  have small := (isPrintableAscii_iff.mp printable).2
  rw [Char.utf8Size_eq_one_iff, UInt32.le_iff_toNat_le]
  exact Nat.le_trans small (by decide)

theorem byteSize_of_isPrintableAscii {text : List Char}
    (printable : ∀ c ∈ text, isPrintableAscii c = true) : byteSize text = text.length :=
  (byteSize_eq_length_iff text).mpr fun c member =>
    utf8Size_of_isPrintableAscii (printable c member)

end Characters

theorem ArithmeticOp.isPrintableAscii_symbol (op : ArithmeticOp) :
    isPrintableAscii op.symbol = true := by
  cases op <;> rfl

namespace Arithmetic

theorem all_isPrintableAscii (t : Arithmetic) : t.chars.all isPrintableAscii = true := by
  induction t with
  | literal value natural =>
      obtain ⟨c, rest, written, first, others, -⟩ := exists_of_natural natural
      have digits : ∀ d ∈ c :: rest, d.isDigit = true := List.forall_mem_cons.mpr ⟨first, others⟩
      rw [chars_literal, written, List.all_eq_true]
      exact fun d member => isPrintableAscii_of_isDigit (digits d member)
  | negation operand ih =>
      rw [chars_negation, List.all_cons, List.all_cons, List.all_append, ih]
      rfl
  | operation op left right leftHolds rightHolds =>
      simp only [chars_operation, List.all_cons, List.all_append, leftHolds, rightHolds,
        op.isPrintableAscii_symbol]
      rfl

theorem isPrintableAscii_of_mem {t : Arithmetic} {c : Char} (member : c ∈ t.chars) :
    isPrintableAscii c = true :=
  List.all_eq_true.mp t.all_isPrintableAscii c member

theorem byteSize_chars (t : Arithmetic) : byteSize t.chars = t.width :=
  byteSize_of_isPrintableAscii fun _ => isPrintableAscii_of_mem

theorem utf8ByteSize_text (t : Arithmetic) : t.text.utf8ByteSize = t.width := by
  rw [← byteSize_toList]
  exact t.byteSize_chars

end Arithmetic

def Token.glyph (kind : TokenKind) (place : Nat) : Token := ⟨kind, ⟨place, place + 1⟩⟩

def Token.parenthesised (start : Nat) (inner : List Token) (stop : Nat) : List Token :=
  glyph .leftParen start :: (inner ++ [glyph .rightParen stop])

theorem Token.merge_glyph {first last : TokenKind} {start stop : Nat} (forward : start ≤ stop) :
    (glyph first start).span.merge (glyph last stop).span = ⟨start, stop + 1⟩ := by
  simp only [glyph, Span.merge, Span.mk.injEq]
  omega

namespace Tokenised

variable {place : Nat} {text : List Char} {tokens : List Token}

theorem glyph {kind : TokenKind} {c : Char} (stands : symbolKind? [c] = some kind)
    (printable : isPrintableAscii c = true) (ends : ∀ d ∈ text.head?, kind.goesOnWith d = false)
    (behind : Tokenised (place + 1) text tokens) :
    Tokenised place (c :: text) (.glyph kind place :: tokens) := by
  have size : byteSize [c] = 1 := by rw [byteSize, utf8Size_of_isPrintableAscii printable]; rfl
  rw [← size] at behind
  have whole := Tokenised.cons (spelledBy_symbol stands) ends behind
  rwa [size] at whole

/-- No character can be taken with a parenthesis or with a minus. -/
theorem leftParen (behind : Tokenised (place + 1) text tokens) :
    Tokenised place ('(' :: text) (.glyph .leftParen place :: tokens) :=
  glyph rfl rfl (fun _ _ => rfl) behind

theorem rightParen (behind : Tokenised (place + 1) text tokens) :
    Tokenised place (')' :: text) (.glyph .rightParen place :: tokens) :=
  glyph rfl rfl (fun _ _ => rfl) behind

theorem minus (behind : Tokenised (place + 1) text tokens) :
    Tokenised place ('-' :: text) (.glyph .minus place :: tokens) :=
  glyph rfl rfl (fun _ _ => rfl) behind

theorem blank (behind : Tokenised (place + 1) text tokens) :
    Tokenised place (' ' :: text) tokens :=
  .skip [' '] (fun _ => .blank rfl) behind

theorem operator (op : ArithmeticOp) (behind : Tokenised (place + 3) text tokens) :
    Tokenised place (' ' :: op.symbol :: ' ' :: text)
      (.glyph op.toBinary.token (place + 1) :: tokens) := by
  have stands : symbolKind? [op.symbol] = some op.toBinary.token := by cases op <;> rfl
  refine .blank (.glyph stands op.isPrintableAscii_symbol ?_ (.blank behind))
  rintro c ⟨⟩
  exact TokenKind.goesOnWith_blank _ rfl

end Tokenised

namespace Arithmetic

open Token (parenthesised)

/-- The characters of a text that is written from `start` on. -/
def spanFrom (start : Nat) (t : Arithmetic) : Span := ⟨start, start + t.width⟩

def tokens (start : Nat) : Arithmetic → List Token
  | literal value natural => [⟨.int value, (literal value natural).spanFrom start⟩]
  | negation operand =>
      parenthesised start (.glyph .minus (start + 1) :: operand.tokens (start + 2))
        (start + 2 + operand.width)
  | operation op left right =>
      parenthesised start
        (left.tokens (start + 1) ++ .glyph op.toBinary.token (start + 1 + left.width + 1) ::
          right.tokens (start + 1 + left.width + 3))
        (start + 1 + left.width + 3 + right.width)

/-- The tree of the language, with every node at the place where it is written. -/
def placed (start : Nat) : Arithmetic → Expr
  | literal value natural => .int ((literal value natural).spanFrom start) value
  | negation operand =>
      .unary ((negation operand).spanFrom start) .neg (operand.placed (start + 2))
  | operation op left right =>
      .binary ((operation op left right).spanFrom start) op.toBinary (left.placed (start + 1))
        (right.placed (start + 1 + left.width + 3))

theorem spelledBy_literal {value : Int64} (natural : 0 ≤ value.toInt) :
    (TokenKind.int value).SpelledBy (String.ofList (literal value natural).chars) := by
  obtain ⟨c, rest, written, first, others, same⟩ := exists_of_natural natural
  rw [chars_literal, String.ofList_toList]
  refine ⟨?_, ?_, ?_⟩
  · intro none
    rw [none] at written
    cases written
  · rw [written]
    exact List.forall_mem_cons.mpr ⟨first, others⟩
  · rw [written]
    exact same

/-- Arithmetic in front of something that is no digit is cut into its tokens. -/
theorem tokenised (t : Arithmetic) {start : Nat} {text : List Char} {more : List Token}
    (ends : ∀ c ∈ text.head?, c.isDigit = false)
    (behind : Tokenised (start + t.width) text more) :
    Tokenised start (t.chars ++ text) (t.tokens start ++ more) := by
  induction t generalizing start text more with
  | literal value natural =>
      rw [← byteSize_chars] at behind
      have whole := Tokenised.cons (spelledBy_literal natural) ends behind
      rwa [byteSize_chars] at whole
  | negation operand ih =>
      rw [stop_negation] at behind
      have closed := ih (by rintro c ⟨⟩; rfl) behind.rightParen
      rw [chars_negation, tokens, parenthesised]
      simp only [List.cons_append, List.append_assoc, List.nil_append]
      exact closed.minus.leftParen
  | operation op left right leftHolds rightHolds =>
      rw [stop_operation] at behind
      have closed := rightHolds (by rintro c ⟨⟩; rfl) behind.rightParen
      have whole := leftHolds (by rintro c ⟨⟩; rfl) (closed.operator op)
      rw [chars_operation, tokens, parenthesised]
      simp only [List.cons_append, List.append_assoc, List.nil_append]
      exact whole.leftParen

/-- The text is cut into the tokens, and the end marker stands behind them. -/
theorem lex_text (t : Arithmetic) (fits : t.text.utf8ByteSize ≤ Span.maxOffset) :
    lex t.text = .ok (t.tokens 0 ++ [⟨.endOfInput, ⟨t.width, t.width⟩⟩]) := by
  have behind : Tokenised (0 + t.width) [] [⟨.endOfInput, ⟨0 + t.width, 0 + t.width⟩⟩] :=
    .finish .nil
  have whole := t.tokenised (by rintro c ⟨⟩) behind
  rw [Nat.zero_add, List.append_nil] at whole
  exact lex_eq_ok_iff_tokenised.mpr ⟨fits, whole⟩

end Arithmetic

namespace Rule

open Grammar (next)

variable {c c' : Cursor} {kinds : List TokenKind} {e : Expr} {allowance : Nat}

theorem grouping_closes {inner : Rule Expr} (read : inner c.advance = .ok e c')
    (closes : c'.Shows (.rightParen :: kinds)) :
    grouping inner c = .ok (e.withSpan (c.current.span.merge c'.current.span)) c'.advance := by
  rw [grouping, bind_of_ok advance_ok, bind_of_ok (within_eq_ok.mpr read),
    bind_of_ok (expect_of_shows _ rfl closes)]
  rfl

/-- In front of a token that continues no expression, the loop stops. -/
theorem continued_ends {least : Precedence} {left : Expr} (shows : c.Shows kinds)
    (ends : (next kinds).precedence = .lowest) :
    continued (allowance + 1) least left c = .ok left c := by
  refine continued_stop shows ?_ allowance
  rw [ends]
  exact Nat.not_lt_zero _

theorem expression_of_operand {least : Precedence} (read : operand (allowance + 1) c = .ok e c')
    (shows : c'.Shows kinds) (ends : (next kinds).precedence = .lowest) :
    expression (allowance + 2) least c = .ok e c' := by
  rw [expression, bind_of_ok read, continued_ends shows ends]

theorem expression_of_operands {op : BinaryOp} {left right : Expr} {mid : Cursor}
    {later : List TokenKind} (first : operand (allowance + 3) c = .ok left mid)
    (sign : mid.Shows (op.token :: later))
    (second : operand (allowance + 1) mid.advance = .ok right c') (shows : c'.Shows kinds)
    (ends : (next kinds).precedence = .lowest) :
    expression (allowance + 4) .lowest c =
      .ok (.binary (left.span.merge right.span) op left right) c' := by
  have read : expression (allowance + 2) op.precedence mid.advance = .ok right c' :=
    expression_of_operand second shows ends
  rw [expression, bind_of_ok first, continued_binary sign op.precedence_level.1 read,
    continued_ends shows ends]

theorem expression_of_minus {least : Precedence} (sign : c.current.kind = .minus)
    (read : operand (allowance + 1) c.advance = .ok e c') (shows : c'.Shows kinds)
    (ends : (next kinds).precedence = .lowest) :
    expression (allowance + 4) least c = .ok (.unary (c.current.span.merge e.span) .neg e) c' := by
  have whole : expression (allowance + 2) .unary c.advance = .ok e c' :=
    expression_of_operand read shows ends
  refine expression_of_operand ?_ shows ends
  refine (bind_of_ok current_ok).trans ?_
  rw [sign]
  simp only
  rw [unary, bind_of_ok advance_ok, bind_of_ok whole]
  rfl

/-- What starts with an expression and ends at the end is a statement without a semicolon. -/
theorem statement_of_expression (starts : Grammar.startsExpression c.current.kind = true)
    (read : expression allowance .lowest c = .ok e c') (shows : c'.Shows []) :
    statement (allowance + 1) c = .ok (.expr e.span e) c' := by
  have stands : standing (expression allowance .lowest) c = .ok (.expr e.span e) c' := by
    rw [standing, bind_of_ok read, bind_of_ok (eat_of_ne rfl shows (by simp))]
    rfl
  rw [statement, bind_of_ok current_ok]
  cases here : c.current.kind with
  | letKeyword | returnKeyword =>
      rw [here] at starts
      cases starts
  | _ => exact stands

theorem operand_leftParen (opens : c.current.kind = .leftParen) :
    operand (allowance + 1) c = grouping (expression allowance .lowest) c := by
  refine (bind_of_ok current_ok).trans ?_
  rw [opens]

end Rule

namespace Arithmetic

open Rule
open Token (parenthesised)

theorem operand_parenthesised {start stop allowance : Nat} {c c' : Cursor} {inner : List Token}
    {kinds : List TokenKind} {whole : Expr} (forward : start ≤ stop)
    (passes : c.Passes (parenthesised start inner stop) c') (behind : c'.Shows kinds)
    (reads : ∀ {mid}, c.advance.Passes inner mid → mid.Shows (.rightParen :: kinds) →
      ∃ e, expression allowance .lowest c.advance = .ok e mid ∧
        e.withSpan ⟨start, stop + 1⟩ = whole) :
    operand (allowance + 1) c = .ok whole c' := by
  obtain ⟨mid, within, last⟩ := passes.advance.split
  have closes : mid.Shows (.rightParen :: kinds) := last.shows behind
  have opens := passes.current
  obtain ⟨e, read, rfl⟩ := reads within closes
  rw [operand_leftParen (congrArg Token.kind opens), grouping_closes read closes, opens,
    last.current, Token.merge_glyph forward, last.advance.eq_of_nil]

/-- Arithmetic is read as an operand: a literal, or something in parentheses. -/
theorem operand_placed (t : Arithmetic) {start allowance : Nat} {c c' : Cursor}
    {kinds : List TokenKind} (passes : c.Passes (t.tokens start) c') (behind : c'.Shows kinds)
    (enough : 4 * (t.tokens start).length ≤ allowance) :
    operand (allowance + 1) c = .ok (t.placed start) c' := by
  induction t generalizing start allowance c c' kinds with
  | literal value natural =>
      have here := passes.current
      refine (bind_of_ok current_ok).trans ?_
      rw [here]
      simp only
      rw [bind_of_ok advance_ok, here, ← passes.advance.eq_of_nil]
      rfl
  | negation inner ih =>
      simp only [tokens, parenthesised, List.length_cons, List.length_append] at enough
      obtain ⟨spared, rfl⟩ := Nat.exists_eq_add_of_le' (by omega : 4 ≤ allowance)
      rw [placed, spanFrom, stop_negation]
      refine operand_parenthesised (by omega) passes behind fun within closes => ?_
      have sign := congrArg Token.kind within.current
      have read := ih within.advance closes (by omega : _ ≤ spared)
      exact ⟨_, expression_of_minus sign read closes rfl, rfl⟩
  | operation op left right leftHolds rightHolds =>
      simp only [tokens, parenthesised, List.length_cons, List.length_append] at enough
      obtain ⟨spared, rfl⟩ := Nat.exists_eq_add_of_le' (by omega : 4 ≤ allowance)
      rw [placed, spanFrom, stop_operation]
      refine operand_parenthesised (by omega) passes behind fun within closes => ?_
      obtain ⟨between, first, second⟩ := within.split
      have sign := second.shows closes
      have readLeft := leftHolds first sign (by omega : _ ≤ spared + 2)
      have readRight := rightHolds second.advance closes (by omega : _ ≤ spared)
      exact ⟨_, expression_of_operands readLeft sign readRight closes rfl, rfl⟩

theorem span_placed (t : Arithmetic) (start : Nat) : (t.placed start).span = t.spanFrom start := by
  cases t <;> rfl

theorem starts_of_passes (t : Arithmetic) {start : Nat} {c c' : Cursor}
    (passes : c.Passes (t.tokens start) c') :
    Grammar.startsExpression c.current.kind = true := by
  cases t with
  | literal => rw [passes.current]; rfl
  | negation | operation => rw [Cursor.Passes.current passes]; rfl

/-- The canonical text is read as one statement, with every node where it is written. -/
theorem parse_text (t : Arithmetic) (fits : t.text.utf8ByteSize ≤ Span.maxOffset) :
    parse t.text = .ok ⟨[.expr (t.spanFrom 0) (t.placed 0)]⟩ := by
  have lexed := t.lex_text fits
  obtain ⟨-, ts, cut, same⟩ := lex_eq_ok_iff.mp lexed
  obtain rfl : t.tokens 0 = ts := List.append_inj_left' same rfl
  have noEnd := noEnd_of_lexemes cut
  obtain ⟨c', passes, ended⟩ := Cursor.start_passes noEnd
  have behind : c'.Shows [] := ended
  have read := t.operand_placed passes behind (Nat.le_refl _)
  have stands := statement_of_expression (t.starts_of_passes passes)
    (expression_of_operand read behind rfl) behind
  rw [span_placed] at stands
  rw [parse, lexed]
  exact (parseTokens_iff_reads noEnd).mpr ⟨c', .cons stands .nil, ended⟩

end Arithmetic

end TreeWalk
