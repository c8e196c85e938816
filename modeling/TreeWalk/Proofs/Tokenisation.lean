import Mathlib.Data.List.Chain
import TreeWalk.Proofs.Spans
import TreeWalk.Proofs.Spelling

/-! # Longest match

A text is tokenised when it is made of the spellings of the tokens, with blanks and comments between
them, and no token could take the character behind it. That can be done in one way at most, and
`lex` finds it.
-/

namespace TreeWalk

open Lexer

/-- What is skipped: blanks, and comments that run up to the end of their line. The characters
    `after` stand behind it. -/
inductive Skipped : (gap after : List Char) → Prop
  | nil {after : List Char} : Skipped [] after
  | blank {c : Char} {gap after : List Char} : isBlank c = true → Skipped gap after →
      Skipped (c :: gap) after
  | comment {text gap after : List Char} : '\n' ∉ text → (∀ c ∈ (gap ++ after).head?, c = '\n') →
      Skipped gap after → Skipped ('/' :: '/' :: text ++ gap) after

namespace TokenKind

/-- The token is written like this. -/
def SpelledBy (kind : TokenKind) (word : String) : Prop :=
  match kind with
  | .int value => word ≠ "" ∧ (∀ c ∈ word.toList, c.isDigit = true) ∧
      (Nat.ofDigitChars 10 word.toList 0 : Int) = value.toInt
  | .ident name => isName name = true ∧ word = name
  | kind => kind.spelling? = some word

/-- Is there a longer lexeme that starts with the token and goes on with this character? -/
def goesOnWith (kind : TokenKind) (c : Char) : Bool :=
  match kind with
  | .int _ => c.isDigit
  | .ident _ | .fnKeyword | .letKeyword | .trueKeyword | .falseKeyword | .ifKeyword | .elseKeyword
  | .returnKeyword => isWordRest c
  | .assign | .bang => c == '='
  | .slash => c == '/'
  | _ => false

end TokenKind

/-- A text that starts at byte `offset` is made of the spellings of these tokens, none of which goes
    on with the character behind it, and of what is skipped. The end marker stands behind it all. -/
inductive Tokenised : (offset : Nat) → (text : List Char) → (tokens : List Token) → Prop
  | finish {offset : Nat} {gap : List Char} : Skipped gap [] →
      Tokenised offset gap [⟨.endOfInput, ⟨offset + byteSize gap, offset + byteSize gap⟩⟩]
  | token {offset start stop : Nat} {gap after : List Char} {word : String} {kind : TokenKind}
      {tokens : List Token} : Skipped gap (word.toList ++ after) → kind.SpelledBy word →
      (∀ c ∈ after.head?, kind.goesOnWith c = false) → start = offset + byteSize gap →
      stop = start + byteSize word.toList → Tokenised stop after tokens →
      Tokenised offset (gap ++ (word.toList ++ after)) (⟨kind, ⟨start, stop⟩⟩ :: tokens)

namespace Lexer

/-- Digits, a word, a comment, or a symbol of one or two characters, as much as there is. -/
inductive Munched (c : Char) (rest : List Char) : Shape → (tail behind : List Char) → Prop
  | number : c.isDigit = true →
      Munched c rest .number (rest.takeWhile Char.isDigit) (rest.dropWhile Char.isDigit)
  | word : isWordStart c = true →
      Munched c rest .word (rest.takeWhile isWordRest) (rest.dropWhile isWordRest)
  | comment {text : List Char} : c = '/' → rest = '/' :: text →
      Munched c rest .skipped ('/' :: text.takeWhile (· ≠ '\n')) (text.dropWhile (· ≠ '\n'))
  | double {behind : List Char} : c = '=' ∨ c = '!' → rest = '=' :: behind →
      Munched c rest .symbol ['='] behind
  | single : (c = '/' → rest.head? ≠ some '/') → (c = '=' ∨ c = '!' → rest.head? ≠ some '=') →
      Munched c rest .symbol [] rest

theorem munched {c : Char} (solid : isBlank c = false) (rest : List Char) :
    Munched c rest (munch c rest).1 (rest.take (munch c rest).2)
      (rest.drop (munch c rest).2) := by
  unfold munch
  by_cases digit : c.isDigit = true
  · simp only [solid, digit, Bool.false_eq_true, if_false, if_true, take_length_takeWhile,
      drop_length_takeWhile]
    exact .number digit
  by_cases word : isWordStart c = true
  · simp only [solid, digit, word, Bool.false_eq_true, if_false, if_true, take_length_takeWhile,
      drop_length_takeWhile]
    exact .word word
  simp only [solid, digit, word, Bool.false_eq_true, if_false]
  split
  · rename_i text
    rw [take_length_takeWhile, drop_length_takeWhile]
    exact .comment rfl rfl
  · exact .double (.inl rfl) rfl
  · exact .double (.inr rfl) rfl
  · rename_i noComment noEqual noNotEqual
    refine .single ?_ ?_
    · rintro rfl
      cases rest with
      | nil => simp
      | cons d rest =>
          rintro ⟨⟩
          exact noComment rest rfl rfl
    · rintro (rfl | rfl) <;> cases rest with
      | nil => simp
      | cons d rest =>
          rintro ⟨⟩
          first | exact noEqual rest rfl rfl | exact noNotEqual rest rfl rfl

theorem goesOnWith_wordKind (word : List Char) : (wordKind word).goesOnWith = isWordRest := by
  unfold wordKind
  split <;> rfl

theorem spelledBy_wordKind {word : String} {c : Char} {rest : List Char}
    (written : word.toList = c :: rest) (starts : isWordStart c = true)
    (goesOn : ∀ d ∈ rest, isWordRest d = true) : (wordKind (c :: rest)).SpelledBy word := by
  have whole : String.ofList (c :: rest) = word := by rw [← written, String.ofList_toList]
  by_cases keyword : word ∈ keywords
  · rw [← written]
    simp only [keywords, List.mem_cons, List.not_mem_nil, or_false] at keyword
    rcases keyword with rfl | rfl | rfl | rfl | rfl | rfl | rfl <;> rfl
  · rw [wordKind_ident (whole ▸ keyword), whole]
    refine ⟨?_, rfl⟩
    simpa [isName, written, starts, keyword] using goesOn

theorem spelledBy_number {word : String} {c : Char} {rest : List Char}
    (written : word.toList = c :: rest) (digits : ∀ d ∈ c :: rest, d.isDigit = true)
    (small : (decimal (c :: rest) : Int) ≤ Int64.maxValue.toInt) :
    (TokenKind.int (Int64.ofNat (decimal (c :: rest)))).SpelledBy word := by
  have bound : decimal (c :: rest) < 2 ^ 63 := by
    have top : Int64.maxValue.toInt = 2 ^ 63 - 1 := rfl
    omega
  refine ⟨?_, written ▸ digits, ?_⟩
  · rintro rfl
    cases written
  · rw [Int64.toInt_ofNat_of_lt bound, written]
    rfl

theorem symbolKind?_of_classify {c : Char} {tail : List Char} {kind : TokenKind}
    (reading : classify .symbol c tail = some (.ok kind)) :
    symbolKind? (c :: tail) = some kind := by
  simp only [classify] at reading
  split at reading <;> cases reading
  assumption

theorem spelledBy_symbol {symbol : List Char} {kind : TokenKind}
    (stands : symbolKind? symbol = some kind) :
    kind.SpelledBy (String.ofList symbol) := by
  unfold symbolKind? at stands
  split at stands <;> cases stands <;> rfl

/-- Only a slash goes on with a slash, and only two symbols of one character with an equals sign. -/
theorem of_goesOnWith_symbol {symbol : List Char} {d : Char} {kind : TokenKind}
    (stands : symbolKind? symbol = some kind) (longer : kind.goesOnWith d = true) :
    symbol = ['/'] ∧ d = '/' ∨ (symbol = ['='] ∨ symbol = ['!']) ∧ d = '=' := by
  unfold symbolKind? at stands
  split at stands <;> cases stands
  case h_3 => exact .inr ⟨.inl rfl, beq_iff_eq.mp longer⟩
  case h_6 => exact .inr ⟨.inr rfl, beq_iff_eq.mp longer⟩
  case h_8 => exact .inl ⟨rfl, beq_iff_eq.mp longer⟩
  all_goals cases longer

namespace Munched

variable {c : Char} {rest tail behind : List Char} {shape : Shape} {kind : TokenKind}

/-- Where a run of characters ends, it cannot go on. -/
theorem eq_false_of_dropWhile {p : Char → Bool} {d : Char}
    (first : d ∈ (rest.dropWhile p).head?) : p d = false := by
  have stops := List.head?_dropWhile_not p rest
  rw [first] at stops
  exact stops

theorem forall_mem_cons_takeWhile {p : Char → Bool} (starts : p c = true) :
    ∀ d ∈ c :: rest.takeWhile p, p d = true :=
  List.forall_mem_cons.mpr ⟨starts, fun _ => List.mem_takeWhile_imp⟩

/-- A lexeme that is a token spells it, and cannot be longer. -/
theorem token (taken : Munched c rest shape tail behind)
    (reading : classify shape c tail = some (.ok kind)) :
    kind.SpelledBy (String.ofList (c :: tail)) ∧ ∀ d ∈ behind.head?, kind.goesOnWith d = false := by
  cases taken with
  | number digit =>
      simp only [classify] at reading
      split at reading
      · rename_i small
        cases reading
        exact ⟨spelledBy_number String.toList_ofList (forall_mem_cons_takeWhile digit) small,
          fun _ => eq_false_of_dropWhile⟩
      · cases reading
  | word starts =>
      cases reading
      refine ⟨spelledBy_wordKind String.toList_ofList starts fun _ => List.mem_takeWhile_imp, ?_⟩
      rw [goesOnWith_wordKind]
      exact fun _ => eq_false_of_dropWhile
  | comment => cases reading
  | double =>
      have stands := symbolKind?_of_classify reading
      refine ⟨spelledBy_symbol stands, fun d next => eq_false_of_ne_true fun longer => ?_⟩
      rcases of_goesOnWith_symbol stands longer with ⟨one, _⟩ | ⟨one | one, _⟩ <;> cases one
  | single noComment noEqual =>
      have stands := symbolKind?_of_classify reading
      refine ⟨spelledBy_symbol stands, fun d next => eq_false_of_ne_true fun longer => ?_⟩
      rcases of_goesOnWith_symbol stands longer with ⟨slash, rfl⟩ | ⟨sign, rfl⟩
      · exact noComment (List.cons.inj slash).1 next
      · exact noEqual (sign.imp (List.cons.inj · |>.1) (List.cons.inj · |>.1)) next

/-- A lexeme that is skipped is a comment up to the end of its line. -/
theorem comment_of_skipped (taken : Munched c rest shape tail behind)
    (skipped : classify shape c tail = none) :
    ∃ text, c :: tail = '/' :: '/' :: text ∧ '\n' ∉ text ∧ ∀ d ∈ behind.head?, d = '\n' := by
  cases taken with
  | comment slash line =>
      rw [slash]
      refine ⟨_, rfl, fun member => ?_, fun d next => ?_⟩
      · simpa using List.mem_takeWhile_imp member
      · simpa using eq_false_of_dropWhile next
  | number | double | single =>
      simp only [classify] at skipped
      split at skipped <;> cases skipped
  | word => cases skipped

end Munched

end Lexer

namespace Tokenised

variable {offset : Nat} {text : List Char} {tokens : List Token}

/-- Skipped in front of a text only widens its first gap. -/
theorem skip (front : List Char)
    (widen : ∀ {gap after}, gap ++ after = text → Skipped gap after → Skipped (front ++ gap) after)
    (behind : Tokenised (offset + byteSize front) text tokens) :
    Tokenised offset (front ++ text) tokens := by
  cases behind with
  | finish blank =>
      rw [Nat.add_assoc, ← byteSize_append]
      exact .finish (widen (List.append_nil _) blank)
  | token blank spelled ends start stop later =>
      rw [← List.append_assoc]
      refine .token (widen rfl blank) spelled ends ?_ stop later
      rw [start, byteSize_append, Nat.add_assoc]

theorem cons {kind : TokenKind} {word : List Char} (spelled : kind.SpelledBy (String.ofList word))
    (ends : ∀ c ∈ text.head?, kind.goesOnWith c = false)
    (behind : Tokenised (offset + byteSize word) text tokens) :
    Tokenised offset (word ++ text) (⟨kind, ⟨offset, offset + byteSize word⟩⟩ :: tokens) := by
  have stop : offset + byteSize word =
      offset + byteSize [] + byteSize (String.ofList word).toList := by
    rw [String.toList_ofList]
    rfl
  have token := Tokenised.token (.nil : Skipped [] _) spelled ends rfl stop behind
  rwa [String.toList_ofList] at token

end Tokenised

/-- A text whose lexemes are tokens is tokenised by them. -/
theorem tokenised_of_lexemes {offset : Nat} {text : List Char} {ts : List Token}
    (cut : lexemes offset text = ts.map Token.lexeme) :
    Tokenised offset text
      (ts ++ [⟨.endOfInput, ⟨offset + byteSize text, offset + byteSize text⟩⟩]) := by
  induction text using lexeme_induction generalizing offset ts with
  | nil =>
      obtain rfl : ts = [] := by simpa using cut.symm
      exact .finish .nil
  | blank c rest blank ih =>
      rw [lexemes_blank blank] at cut
      have whole := ih cut
      rw [Nat.add_assoc] at whole
      exact .skip [c] (fun _ => .blank blank) whole
  | solid c rest solid ih =>
      have taken := munched solid rest
      have whole : c :: rest =
          (c :: rest.take (munch c rest).2) ++ rest.drop (munch c rest).2 := by
        rw [List.cons_append, List.take_append_drop]
      rw [lexemes_cons] at cut
      rw [whole, byteSize_append, ← Nat.add_assoc]
      generalize (munch c rest).1 = shape, rest.take (munch c rest).2 = tail,
        rest.drop (munch c rest).2 = behind at *
      cases reading : classify shape c tail with
      | none =>
          rw [reading] at cut
          obtain ⟨body, slashes, line, ends⟩ := taken.comment_of_skipped reading
          rw [slashes] at cut ⊢
          refine .skip _ (fun {gap after} same => .comment line ?_) (ih cut)
          rwa [same]
      | some outcome =>
          rw [reading] at cut
          cases ts with
          | nil => cases cut
          | cons t ts =>
              obtain ⟨first, later⟩ := List.cons.inj cut
              obtain ⟨kind, span⟩ := t
              cases first
              obtain ⟨spelled, ends⟩ := taken.token reading
              exact .cons spelled ends (ih later)

namespace Lexer

theorem munch_comment {text more : List Char} (line : '\n' ∉ text)
    (ends : ∀ c ∈ more.head?, c = '\n') :
    munch '/' ('/' :: (text ++ more)) = (.skipped, text.length + 1) := by
  have run : (('/' :: text) ++ more).takeWhile (· ≠ '\n') = '/' :: text := by
    refine takeWhile_run_append (List.forall_mem_cons.mpr ⟨rfl, fun c member => ?_⟩) ?_
    · simpa using ne_of_mem_of_not_mem member line
    · simpa using ends
  rw [List.cons_append] at run
  change (Shape.skipped, (List.takeWhile (· ≠ '\n') ('/' :: (text ++ more))).length) = _
  rw [run, List.length_cons]

theorem plain_of_symbol {c : Char} {tail : List Char} {kind : TokenKind}
    (stands : symbolKind? (c :: tail) = some kind) :
    isBlank c = false ∧ c.isDigit = false ∧ isWordStart c = false := by
  unfold symbolKind? at stands
  split at stands <;> cases stands
  all_goals
    rename_i written
    cases written
    decide

theorem munch_symbol {c : Char} {more : List Char} {kind : TokenKind}
    (stands : symbolKind? [c] = some kind)
    (ends : ∀ d ∈ more.head?, kind.goesOnWith d = false) : munch c more = (.symbol, 0) := by
  obtain ⟨solid, noDigit, noWord⟩ := plain_of_symbol stands
  unfold munch
  simp only [solid, noDigit, noWord, Bool.false_eq_true, if_false]
  split
  · cases stands
    cases ends '/' rfl
  · cases stands
    cases ends '=' rfl
  · cases stands
    cases ends '=' rfl
  · rfl

theorem lexemes_symbol {symbol more : List Char} {kind : TokenKind}
    (stands : symbolKind? symbol = some kind)
    (ends : ∀ d ∈ more.head?, kind.goesOnWith d = false) (offset : Nat) :
    lexemes offset (symbol ++ more) = ⟨⟨offset, offset + byteSize symbol⟩, .ok kind⟩ ::
      lexemes (offset + byteSize symbol) more := by
  match symbol with
  | [] => cases stands
  | [c] => exact lexemes_of_munch (munch_symbol stands ends) (by simp [classify, stands]) offset
  | c :: d :: tail =>
      have taken : munch c (d :: tail ++ more) = (.symbol, (d :: tail).length) := by
        unfold symbolKind? at stands
        split at stands <;> cases stands
        all_goals
          rename_i written
          cases written <;> rfl
      exact lexemes_of_munch taken (by simp [classify, stands]) offset

theorem keywords_are_words : ∀ word ∈ keywords,
    word.toList.head?.any isWordStart = true ∧ word.toList.tail.all isWordRest = true := by
  decide +kernel

theorem lexemes_keyword {word : String} {more : List Char} (member : word ∈ keywords)
    (parted : Parted more) (offset : Nat) :
    lexemes offset (word.toList ++ more) =
      ⟨⟨offset, offset + byteSize word.toList⟩, .ok (wordKind word.toList)⟩ ::
        lexemes (offset + byteSize word.toList) more := by
  obtain ⟨starts, goesOn⟩ := keywords_are_words word member
  cases written : word.toList with
  | nil =>
      rw [written] at starts
      cases starts
  | cons c rest =>
      rw [written] at starts goesOn
      exact lexemes_word starts (List.all_eq_true.mp goesOn) parted offset

end Lexer

theorem Skipped.lexemes_eq {gap after : List Char} (skipped : Skipped gap after) (offset : Nat) :
    lexemes offset (gap ++ after) = lexemes (offset + byteSize gap) after := by
  induction skipped generalizing offset with
  | nil => rfl
  | blank blank _ ih =>
      rw [List.cons_append, lexemes_blank blank, ih, byteSize, Nat.add_assoc]
  | @comment text gap after line ends _ ih =>
      have taken := munch_comment line ends
      have size : byteSize ('/' :: '/' :: text ++ gap) =
          byteSize ('/' :: '/' :: text) + byteSize gap := byteSize_append ..
      simp only [List.cons_append, List.append_assoc] at size ⊢
      rw [lexemes_cons, taken, size, ← Nat.add_assoc]
      simpa [classify] using ih _

namespace TokenKind.SpelledBy

variable {kind : TokenKind} {word : String} {after : List Char}

theorem exists_digits {value : Int64} (spelled : (TokenKind.int value).SpelledBy word) :
    ∃ c rest, word.toList = c :: rest ∧ c.isDigit = true ∧ (∀ d ∈ rest, d.isDigit = true) ∧
      (decimal (c :: rest) : Int) = value.toInt := by
  obtain ⟨nonempty, digits, same⟩ := spelled
  cases written : word.toList with
  | nil => exact absurd (String.toList_eq_nil_iff.mp written) nonempty
  | cons c rest =>
      rw [written] at digits same
      obtain ⟨first, others⟩ := List.forall_mem_cons.mp digits
      exact ⟨c, rest, rfl, first, others, same⟩

/-- A spelling that cannot go on is the first lexeme of the text. -/
theorem lexemes_eq (spelled : kind.SpelledBy word)
    (ends : ∀ c ∈ after.head?, kind.goesOnWith c = false) (offset : Nat) :
    lexemes offset (word.toList ++ after) = ⟨⟨offset, offset + byteSize word.toList⟩, .ok kind⟩ ::
      lexemes (offset + byteSize word.toList) after := by
  cases kind with
  | int value =>
      obtain ⟨c, rest, written, first, others, same⟩ := spelled.exists_digits
      have small : (decimal (c :: rest) : Int) ≤ Int64.maxValue.toInt := same ▸ value.toInt_le
      have stands : Int64.ofNat (decimal (c :: rest)) = value := by
        rw [← Int64.ofInt_toInt value, ← same]
        rfl
      rw [written, lexemes_number first others ends small, stands]
  | ident name =>
      obtain ⟨named, rfl⟩ := spelled
      obtain ⟨c, rest, written, starts, goesOn, free⟩ := exists_of_isName named
      rw [written, lexemes_word starts goesOn ends, ← written,
        wordKind_ident (by rwa [String.ofList_toList]), String.ofList_toList]
  | fnKeyword | letKeyword | trueKeyword | falseKeyword | ifKeyword | elseKeyword
  | returnKeyword =>
      obtain rfl := Option.some.inj spelled
      exact lexemes_keyword (by decide) ends offset
  | assign | plus | minus | bang | star | slash | less | greater | equal | notEqual | comma
  | semicolon | leftParen | rightParen | leftBrace | rightBrace =>
      obtain rfl := Option.some.inj spelled
      exact lexemes_symbol rfl ends offset
  | endOfInput => cases spelled

end TokenKind.SpelledBy

theorem Tokenised.lexemes_eq {offset : Nat} {text : List Char} {tokens : List Token}
    (tokenised : Tokenised offset text tokens) : ∃ ts : List Token,
      tokens = ts ++ [⟨.endOfInput, ⟨offset + byteSize text, offset + byteSize text⟩⟩] ∧
      lexemes offset text = ts.map Token.lexeme := by
  induction tokenised with
  | @finish offset gap blank =>
      refine ⟨[], rfl, ?_⟩
      rw [← List.append_nil gap, blank.lexemes_eq]
      rfl
  | @token offset start stop gap after word kind tokens blank spelled ends first last _ ih =>
      obtain ⟨ts, rfl, cut⟩ := ih
      have size : offset + byteSize (gap ++ (word.toList ++ after)) = stop + byteSize after := by
        rw [byteSize_append, byteSize_append, last, first, Nat.add_assoc, Nat.add_assoc]
      refine ⟨⟨kind, ⟨start, stop⟩⟩ :: ts, by rw [size, List.cons_append], ?_⟩
      rw [blank.lexemes_eq, ← first, spelled.lexemes_eq ends, ← last, cut]
      rfl

/-- A text that can be addressed is read as these tokens just when it is tokenised by them. -/
theorem lex_eq_ok_iff_tokenised {source : String} {tokens : List Token} :
    lex source = .ok tokens ↔
      source.utf8ByteSize ≤ Span.maxOffset ∧ Tokenised 0 source.toList tokens := by
  rw [lex_eq_ok_iff]
  refine and_congr_right fun _ => ⟨?_, fun tokenised => ?_⟩
  · rintro ⟨ts, cut, rfl⟩
    simpa [byteSize_toList] using tokenised_of_lexemes cut
  · obtain ⟨ts, rfl, cut⟩ := tokenised.lexemes_eq
    exact ⟨ts, cut, by simp [byteSize_toList]⟩

/-- The text from a byte on, if a character starts there. -/
def textFrom? (start : Nat) (source : String) : Option String :=
  Span.textIn? ⟨start, source.utf8ByteSize⟩ source

/-- The text between the two spans is skipped. -/
def SkippedBetween (source : String) (first second : Span) : Prop :=
  ∃ gap after, Span.textIn? ⟨first.stop, second.start⟩ source = some gap ∧
    textFrom? second.start source = some after ∧ Skipped gap.toList after.toList

/-- The token stands in the text as it is spelled, and the character behind it does not go on with
    it. -/
def Token.StandsIn (t : Token) (source : String) : Prop :=
  ∃ word after, t.span.textIn? source = some word ∧ t.kind.SpelledBy word ∧
    textFrom? t.span.stop source = some after ∧
    ∀ c ∈ after.toList.head?, t.kind.goesOnWith c = false

section Places

variable {source : String} {before text after : List Char} {start stop : Nat}

theorem textIn?_of_split (whole : source.toList = before ++ (text ++ after))
    (starts : start = byteSize before) (stops : stop = start + byteSize text) :
    Span.textIn? ⟨start, stop⟩ source = some (String.ofList text) := by
  have same : source = String.ofList (before ++ text ++ after) := by
    rw [List.append_assoc, ← whole, String.ofList_toList]
  rw [same, stops, starts]
  exact Span.textIn?_append before text after

theorem textFrom?_of_split (whole : source.toList = before ++ after)
    (starts : start = byteSize before) :
    textFrom? start source = some (String.ofList after) := by
  have split : source.toList = before ++ (after ++ []) := by rw [whole, List.append_nil]
  refine textIn?_of_split split starts ?_
  rw [starts, ← byteSize_toList, whole, byteSize_append]

theorem skippedBetween_of_split {s t : Span} (whole : source.toList = before ++ (text ++ after))
    (starts : s.stop = byteSize before) (stops : t.start = s.stop + byteSize text)
    (skipped : Skipped text after) : SkippedBetween source s t := by
  have behind : source.toList = before ++ text ++ after := by rw [whole, List.append_assoc]
  have reached : t.start = byteSize (before ++ text) := by rw [stops, starts, byteSize_append]
  refine ⟨_, _, textIn?_of_split whole starts stops, textFrom?_of_split behind reached, ?_⟩
  rwa [String.toList_ofList, String.toList_ofList]

/-- Every token stands in the text, and what stands in front of it is skipped. -/
theorem Tokenised.places {tokens : List Token} (tokenised : Tokenised start text tokens)
    (whole : source.toList = before ++ text) (starts : start = byteSize before) {s : Span}
    (reached : s.stop = start) :
    (∀ t ∈ tokens, t.kind ≠ .endOfInput → t.StandsIn source) ∧
      (s :: tokens.map Token.span).IsChain (SkippedBetween source) := by
  induction tokenised generalizing before s with
  | finish blank =>
      refine ⟨by simp, .cons_cons ?_ (.singleton _)⟩
      exact skippedBetween_of_split (whole.trans (by rw [List.append_nil])) (reached.trans starts)
        (by rw [reached]) blank
  | @token offset first last gap after word kind tokens blank spelled ends gapEnds wordEnds _ ih =>
      have behindGap : source.toList = before ++ gap ++ (word.toList ++ after) := by
        rw [whole, List.append_assoc]
      have behindWord : source.toList = before ++ gap ++ word.toList ++ after := by
        rw [behindGap, List.append_assoc (before ++ gap)]
      have firstSize : first = byteSize (before ++ gap) := by rw [gapEnds, starts, byteSize_append]
      have lastSize : last = byteSize (before ++ gap ++ word.toList) := by
        rw [wordEnds, firstSize, byteSize_append (before ++ gap)]
      obtain ⟨stand, between⟩ := ih behindWord lastSize (s := ⟨first, last⟩) rfl
      refine ⟨List.forall_mem_cons.mpr ⟨fun _ => ?_, stand⟩, .cons_cons ?_ between⟩
      · refine ⟨word, String.ofList after, ?_, spelled, textFrom?_of_split behindWord lastSize, ?_⟩
        · rw [textIn?_of_split behindGap firstSize wordEnds, String.ofList_toList]
        · rwa [String.toList_ofList]
      · exact skippedBetween_of_split whole (reached.trans starts) (by rw [gapEnds, reached]) blank

end Places

/-- The tokens are all that a text says. The only end marker stands behind the last byte, the others
    take some bytes each, one token behind the other, are spelled there and could not be longer, and
    all that stands in front of them, between them and behind them is skipped. -/
structure MaximalMunch (source : String) (tokens : List Token) : Prop where
  ended : ∃ ts, tokens = ts ++ [⟨.endOfInput, ⟨source.utf8ByteSize, source.utf8ByteSize⟩⟩] ∧
    ∀ t ∈ ts, t.kind ≠ .endOfInput
  inside : ∀ t ∈ tokens, t.kind ≠ .endOfInput →
    t.span.start < t.span.stop ∧ t.span.stop ≤ source.utf8ByteSize
  apart : tokens.Pairwise fun t s => t.span.stop ≤ s.span.start
  stand : ∀ t ∈ tokens, t.kind ≠ .endOfInput → t.StandsIn source
  between : (Span.zero :: tokens.map Token.span).IsChain (SkippedBetween source)

/-- The tokens of a text are its tokenisation by longest match. -/
theorem lex_maximal_munch {source : String} {tokens : List Token}
    (lexed : lex source = .ok tokens) : MaximalMunch source tokens := by
  obtain ⟨_, tokenised⟩ := lex_eq_ok_iff_tokenised.mp lexed
  obtain ⟨stand, between⟩ := tokenised.places (List.nil_append _).symm rfl (s := .zero) rfl
  obtain ⟨_, ts, cut, rfl⟩ := lex_eq_ok_iff.mp lexed
  obtain ⟨inside, apart⟩ := lexemes_ordered 0 source.toList
  rw [cut, Nat.zero_add, byteSize_toList] at inside
  rw [cut] at apart
  have bounds {t : Token} (member : t ∈ ts) := inside t.lexeme (List.mem_map_of_mem member)
  refine ⟨⟨ts, rfl, noEnd_of_lexemes cut⟩, ?_, ?_, stand, between⟩
  · intro t member notEnd
    rcases List.mem_append.mp member with member | last
    · exact (bounds member).2
    · rw [List.mem_singleton.mp last] at notEnd
      exact absurd rfl notEnd
  · refine List.pairwise_append.mpr ⟨List.pairwise_map.mp apart, List.pairwise_singleton _ _, ?_⟩
    intro t member s last
    rw [List.mem_singleton.mp last]
    exact (bounds member).2.2

/-- A comment stands directly behind a name, and ends with its line. -/
theorem lex_maximal_munch_comment :
    let tokens : List Token := [⟨.ident "lets", ⟨0, 4⟩⟩, ⟨.int 1, ⟨10, 12⟩⟩, ⟨.equal, ⟨12, 14⟩⟩,
      ⟨.assign, ⟨14, 15⟩⟩, ⟨.bang, ⟨16, 17⟩⟩, ⟨.endOfInput, ⟨17, 17⟩⟩]
    lex "lets//=ä\n01=== !" = .ok tokens ∧ MaximalMunch "lets//=ä\n01=== !" tokens := by
  intro tokens
  have lexed : lex "lets//=ä\n01=== !" = .ok tokens := by decide +kernel
  exact ⟨lexed, lex_maximal_munch lexed⟩

end TreeWalk
