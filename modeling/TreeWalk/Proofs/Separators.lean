import TreeWalk.Proofs.Tokenisation

/-! # Texts laid out with separators

Tokens can be spelled one behind the other with whatever blanks and comments between them: as long
as a blank stands directly behind every token but the last, the text is read as these tokens, each
at the place where it was written.
-/

namespace TreeWalk

open Lexer

/-- A blank, or a comment together with the end of its line. -/
inductive Filler where
  | blank (c : Char) (blank : isBlank c = true)
  | comment (text : List Char) (line : '\n' ∉ text)

def Filler.chars : Filler → List Char
  | .blank c _ => [c]
  | .comment text _ => '/' :: '/' :: text ++ ['\n']

/-- A blank, and any blanks and comments behind it. -/
structure Separator where
  first : Char
  blank : isBlank first = true
  others : List Filler

def Separator.chars (s : Separator) : List Char := s.first :: s.others.flatMap Filler.chars

/-- What is skipped stays so with blanks and whole comments in front of it. -/
theorem Skipped.filler {gap after : List Char} (filler : Filler) (skipped : Skipped gap after) :
    Skipped (filler.chars ++ gap) after := by
  cases filler with
  | blank c blank => exact .blank blank skipped
  | comment text line =>
      have behind : Skipped ('\n' :: gap) after := .blank rfl skipped
      have ends : ∀ c ∈ ('\n' :: gap ++ after).head?, c = '\n' := by
        rintro c ⟨⟩
        rfl
      rw [Filler.chars, List.append_assoc]
      exact .comment line ends behind

theorem Skipped.fillers {gap after : List Char} (fillers : List Filler)
    (skipped : Skipped gap after) : Skipped (fillers.flatMap Filler.chars ++ gap) after := by
  induction fillers with
  | nil => exact skipped
  | cons filler fillers ih =>
      rw [List.flatMap_cons, List.append_assoc]
      exact ih.filler filler

theorem Tokenised.separator {offset : Nat} {text : List Char} {tokens : List Token}
    (s : Separator) (behind : Tokenised (offset + byteSize s.chars) text tokens) :
    Tokenised offset (s.chars ++ text) tokens :=
  .skip s.chars (fun _ skipped => .blank s.blank (skipped.fillers s.others)) behind

/-- A blank goes on with no token. -/
theorem TokenKind.goesOnWith_blank (kind : TokenKind) {c : Char} (blank : isBlank c = true) :
    kind.goesOnWith c = false := by
  have noWord := isWordRest_of_isBlank blank
  have noSymbol {d : Char} (solid : isBlank d = false) : (c == d) = false := by
    refine beq_eq_false_iff_ne.mpr ?_
    rintro rfl
    rw [blank] at solid
    cases solid
  cases kind with
  | int => exact isDigit_of_isWordRest noWord
  | ident | fnKeyword | letKeyword | trueKeyword | falseKeyword | ifKeyword | elseKeyword
  | returnKeyword => exact noWord
  | assign | bang => exact noSymbol rfl
  | slash => exact noSymbol rfl
  | _ => rfl

/-- A token as it is written. A number may start with zeros. -/
structure Spelled where
  kind : TokenKind
  word : String
  spelled : kind.SpelledBy word

def Spelled.chars (t : Spelled) : List Char := t.word.toList

def Spelled.token (t : Spelled) (offset : Nat) : Token :=
  ⟨t.kind, ⟨offset, offset + byteSize t.chars⟩⟩

theorem Spelled.tokenised {offset : Nat} {text : List Char} {tokens : List Token} (t : Spelled)
    (ends : ∀ c ∈ text.head?, isBlank c = true)
    (behind : Tokenised (offset + byteSize t.chars) text tokens) :
    Tokenised offset (t.chars ++ text) (t.token offset :: tokens) := by
  have spelled : t.kind.SpelledBy (String.ofList t.chars) := by
    rw [Spelled.chars, String.ofList_toList]
    exact t.spelled
  exact .cons spelled (fun c next => t.kind.goesOnWith_blank (ends c next)) behind

/-- A text with its tokens: a separator may stand in front of the first one, and one stands behind
    every token, unless it is the last one of the text. -/
structure Layout where
  front : Option Separator
  pieces : List (Spelled × Separator)
  last : Option Spelled

namespace Layout

/-- The text of some tokens with their separators, and of the last token. -/
def charsFrom (last : Option Spelled) : List (Spelled × Separator) → List Char
  | [] => last.elim [] Spelled.chars
  | (t, s) :: pieces => t.chars ++ (s.chars ++ charsFrom last pieces)

/-- The tokens of this text where it starts at byte `offset`, and the end marker behind it. -/
def tokensFrom (last : Option Spelled) (offset : Nat) : List (Spelled × Separator) → List Token
  | [] =>
      let stop := offset + byteSize (last.elim [] Spelled.chars)
      (last.map (·.token offset)).toList ++ [⟨.endOfInput, ⟨stop, stop⟩⟩]
  | (t, s) :: pieces =>
      t.token offset :: tokensFrom last (offset + byteSize t.chars + byteSize s.chars) pieces

theorem tokenised (last : Option Spelled) (offset : Nat) (pieces : List (Spelled × Separator)) :
    Tokenised offset (charsFrom last pieces) (tokensFrom last offset pieces) := by
  induction pieces generalizing offset with
  | nil =>
      cases last with
      | none => exact .finish .nil
      | some t =>
          have behind : Tokenised (offset + byteSize t.chars) [] _ := .finish .nil
          have ends : ∀ c ∈ ([] : List Char).head?, isBlank c = true := nofun
          have whole := t.tokenised ends behind
          rwa [List.append_nil] at whole
  | cons piece pieces ih =>
      obtain ⟨t, s⟩ := piece
      have ends : ∀ c ∈ (s.chars ++ charsFrom last pieces).head?, isBlank c = true := by
        rintro c ⟨⟩
        exact s.blank
      exact t.tokenised ends (.separator s (ih _))

def gap (l : Layout) : List Char := l.front.elim [] Separator.chars

def text (l : Layout) : String := String.ofList (l.gap ++ charsFrom l.last l.pieces)

def tokens (l : Layout) : List Token := tokensFrom l.last (byteSize l.gap) l.pieces

end Layout

/-- A text that is laid out with separators is read as the tokens it is written with, each with the
    bytes it takes. -/
theorem lex_layout (l : Layout) (fits : l.text.utf8ByteSize ≤ Span.maxOffset) :
    lex l.text = .ok l.tokens := by
  obtain ⟨front, pieces, last⟩ := l
  refine lex_eq_ok_iff_tokenised.mpr ⟨fits, ?_⟩
  rw [Layout.text, String.toList_ofList]
  cases front with
  | none => exact Layout.tokenised last 0 pieces
  | some s =>
      have behind := Layout.tokenised last (0 + byteSize s.chars) pieces
      have whole := Tokenised.separator s behind
      rwa [Nat.zero_add] at whole

/-- A comment of slashes, tokens and letters beyond ASCII stands between a number with zeros in
    front of it and the last token. -/
theorem lex_layout_comment : ∃ l : Layout, l.text = " 007 ///)é\n\t!=" ∧ lex l.text =
    .ok [⟨.int 7, ⟨1, 4⟩⟩, ⟨.notEqual, ⟨13, 15⟩⟩, ⟨.endOfInput, ⟨15, 15⟩⟩] := by
  let l : Layout := {
    front := some ⟨' ', rfl, []⟩
    pieces := [(⟨.int 7, "007", by decide, List.all_eq_true.mp (by decide +kernel), rfl⟩,
      ⟨' ', rfl, [.comment ['/', ')', 'é'] (by decide), .blank '\t' rfl]⟩)]
    last := some ⟨.notEqual, "!=", rfl⟩ }
  have text : l.text = " 007 ///)é\n\t!=" := by decide +kernel
  refine ⟨l, text, ?_⟩
  rw [lex_layout l (by rw [text]; decide +kernel)]
  decide +kernel

end TreeWalk
