import TreeWalk.Proofs.Grammar
import TreeWalk.Proofs.Lexemes

/-! # How tokens are spelled

`readings` lists what a text is read as, without the places. A text spells tokens if it is read as
them wherever no word goes on behind it, and a mark, which ends in a blank or a delimiter, does so
whatever stands behind it. Texts that are made of marks and of spellings, with marks between words,
spell what their pieces do.
-/

namespace TreeWalk

namespace Lexer

/-- What a text is read as. The first `inside` characters belong to a lexeme that has been read. -/
def readingsFrom (inside : Nat) : List Char → List (Except LexicalCause TokenKind)
  | [] => []
  | c :: rest =>
      match inside with
      | inside + 1 => readingsFrom inside rest
      | 0 =>
          (classify (munch c rest).1 c (rest.take (munch c rest).2)).toList ++
            readingsFrom (munch c rest).2 rest

def readings (text : List Char) : List (Except LexicalCause TokenKind) := readingsFrom 0 text

theorem readingsFrom_eq_map (offset inside : Nat) (text : List Char) :
    readingsFrom inside text = (lexemesFrom offset inside text).map Lexeme.reading := by
  induction text generalizing offset inside with
  | nil => rfl
  | cons c rest ih =>
      cases inside with
      | succ inside => exact ih offset inside
      | zero =>
          simp only [readingsFrom, lexemesFrom, List.map_append, List.map_map]
          rw [← ih]
          congr 1
          exact (List.map_id _).symm

theorem readings_eq_map (offset : Nat) (text : List Char) :
    readings text = (lexemes offset text).map Lexeme.reading :=
  readingsFrom_eq_map offset 0 text

theorem readings_cons (c : Char) (rest : List Char) :
    readings (c :: rest) =
      (classify (munch c rest).1 c (rest.take (munch c rest).2)).toList ++
        readings (rest.drop (munch c rest).2) := by
  rw [readings_eq_map 0, lexemes_cons, List.map_append, ← readings_eq_map, List.map_map]
  congr 1
  exact List.map_id _

theorem readings_blank {c : Char} (blank : isBlank c = true) (rest : List Char) :
    readings (c :: rest) = readings rest := by
  rw [readings_eq_map 0, lexemes_blank blank, ← readings_eq_map]

/-- No word goes on with this text. -/
def Parted (text : List Char) : Prop := ∀ c ∈ text.head?, isWordRest c = false

theorem parted_nil : Parted [] := nofun

theorem Parted.append {text more : List Char} (parted : Parted text) (behind : Parted more) :
    Parted (text ++ more) := by
  cases text with
  | nil => exact behind
  | cons c rest => exact parted

theorem takeWhile_run_append {p : Char → Bool} {run more : List Char} (all : ∀ c ∈ run, p c = true)
    (stops : ∀ c ∈ more.head?, p c = false) : (run ++ more).takeWhile p = run := by
  rw [List.takeWhile_append_of_pos all]
  cases more with
  | nil => simp
  | cons c more => simp [stops c rfl]

theorem isDigit_of_isWordRest {c : Char} (ends : isWordRest c = false) : c.isDigit = false := by
  simp only [isWordRest, Bool.or_eq_false_iff] at ends
  exact ends.2

theorem isBlank_of_isWordRest {c : Char} (goesOn : isWordRest c = true) : isBlank c = false := by
  cases blank : isBlank c with
  | false => rfl
  | true =>
      simp only [isBlank, Bool.or_eq_true, beq_iff_eq] at blank
      rcases blank with (((rfl | rfl) | rfl) | rfl) | rfl <;> cases goesOn

theorem isWordRest_of_isBlank {c : Char} (blank : isBlank c = true) : isWordRest c = false := by
  cases word : isWordRest c with
  | false => rfl
  | true =>
      rw [isBlank_of_isWordRest word] at blank
      cases blank

theorem isDigit_of_isWordStart {c : Char} (starts : isWordStart c = true) : c.isDigit = false := by
  rcases (Bool.or_eq_true _ _).mp starts with letter | underscore
  · change (decide (c.val ≥ 'A'.val ∧ c.val ≤ 'Z'.val) ||
      decide (c.val ≥ 'a'.val) && decide (c.val ≤ 'z'.val)) = true at letter
    grind [Char.isDigit]
  · rw [beq_iff_eq.mp underscore]
    rfl

/-- A text starts with the lexeme that takes just these characters. -/
theorem lexemes_of_munch {shape : Shape} {c : Char} {tail more : List Char} {kind : TokenKind}
    (taken : munch c (tail ++ more) = (shape, tail.length))
    (reading : classify shape c tail = some (.ok kind)) (offset : Nat) :
    lexemes offset (c :: tail ++ more) =
      ⟨⟨offset, offset + byteSize (c :: tail)⟩, .ok kind⟩ ::
        lexemes (offset + byteSize (c :: tail)) more := by
  rw [List.cons_append, lexemes_cons, taken]
  simp [reading]

theorem lexemes_word {c : Char} {rest more : List Char} (starts : isWordStart c = true)
    (goesOn : ∀ d ∈ rest, isWordRest d = true) (parted : Parted more) (offset : Nat) :
    lexemes offset (c :: rest ++ more) =
      ⟨⟨offset, offset + byteSize (c :: rest)⟩, .ok (wordKind (c :: rest))⟩ ::
        lexemes (offset + byteSize (c :: rest)) more := by
  have solid : isBlank c = false := isBlank_of_isWordRest (by simp [isWordRest, starts])
  have taken : munch c (rest ++ more) = (.word, rest.length) := by
    simp [munch, solid, isDigit_of_isWordStart starts, starts, takeWhile_run_append goesOn parted]
  exact lexemes_of_munch taken rfl offset

theorem lexemes_number {c : Char} {rest more : List Char} (digit : c.isDigit = true)
    (goesOn : ∀ d ∈ rest, d.isDigit = true) (stops : ∀ d ∈ more.head?, d.isDigit = false)
    (small : (decimal (c :: rest) : Int) ≤ Int64.maxValue.toInt) (offset : Nat) :
    lexemes offset (c :: rest ++ more) =
      ⟨⟨offset, offset + byteSize (c :: rest)⟩, .ok (.int (Int64.ofNat (decimal (c :: rest))))⟩ ::
        lexemes (offset + byteSize (c :: rest)) more := by
  have solid : isBlank c = false := isBlank_of_isWordRest (by simp [isWordRest, digit])
  have taken : munch c (rest ++ more) = (.number, rest.length) := by
    simp [munch, solid, digit, takeWhile_run_append goesOn stops]
  exact lexemes_of_munch taken (by simp [classify, small]) offset

theorem readings_word {c : Char} {rest more : List Char} (starts : isWordStart c = true)
    (goesOn : ∀ d ∈ rest, isWordRest d = true) (parted : Parted more) :
    readings (c :: rest ++ more) = .ok (wordKind (c :: rest)) :: readings more := by
  rw [readings_eq_map 0, lexemes_word starts goesOn parted, List.map_cons, ← readings_eq_map]

theorem readings_number {c : Char} {rest more : List Char} (digit : c.isDigit = true)
    (goesOn : ∀ d ∈ rest, d.isDigit = true) (parted : Parted more)
    (small : (decimal (c :: rest) : Int) ≤ Int64.maxValue.toInt) :
    readings (c :: rest ++ more) =
      .ok (.int (Int64.ofNat (decimal (c :: rest)))) :: readings more := by
  have stops : ∀ d ∈ more.head?, d.isDigit = false := fun d first =>
    isDigit_of_isWordRest (parted d first)
  rw [readings_eq_map 0, lexemes_number digit goesOn stops small, List.map_cons, ← readings_eq_map]

/-- The text is read as these tokens, unless a word goes on behind it. -/
def Spells (text : String) (kinds : List TokenKind) : Prop :=
  ∀ more, Parted more → readings (text.toList ++ more) = kinds.map .ok ++ readings more

/-- The text is read as these tokens, whatever stands behind it. -/
def Marks (text : String) (kinds : List TokenKind) : Prop :=
  ∀ more, readings (text.toList ++ more) = kinds.map .ok ++ readings more

section Spells

variable {text more : String} {kinds others : List TokenKind}

theorem Marks.spells (marks : Marks text kinds) : Spells text kinds := fun more _ => marks more

theorem Marks.append (marks : Marks text kinds) (spells : Spells more others) :
    Spells (text ++ more) (kinds ++ others) := by
  intro rest parted
  rw [String.toList_append, List.append_assoc, marks, spells rest parted, List.map_append,
    List.append_assoc]

theorem Spells.append (spells : Spells text kinds) (parted : Parted more.toList)
    (behind : Spells more others) : Spells (text ++ more) (kinds ++ others) := by
  intro rest partedRest
  rw [String.toList_append, List.append_assoc, spells _ (parted.append partedRest),
    behind rest partedRest, List.map_append, List.append_assoc]

theorem Marks.of_blank {c : Char} (blank : isBlank c = true)
    (reads : ∀ rest, readings (text.toList ++ rest) = kinds.map .ok ++ readings (c :: rest)) :
    Marks text kinds :=
  fun rest => (reads rest).trans (congrArg _ (readings_blank blank rest))

/-- A mark that can stand directly behind a word. -/
structure Separates (text : String) (kinds : List TokenKind) : Prop where
  marks : Marks text kinds
  parted : ∀ rest, Parted (text.toList ++ rest)

theorem Separates.of_head {c : Char} (marks : Marks text kinds)
    (first : text.toList.head? = some c) (ends : isWordRest c = false) : Separates text kinds where
  marks := marks
  parted rest d found := by
    rw [List.head?_append, first] at found
    cases found
    exact ends

theorem Spells.close {mark : String} {marked : List TokenKind} (spells : Spells text kinds)
    (separates : Separates mark marked) : Spells (text ++ mark) (kinds ++ marked) := by
  refine spells.append ?_ separates.marks.spells
  simpa using separates.parted []

theorem Spells.separate {mark : String} {marked : List TokenKind} (spells : Spells text kinds)
    (separates : Separates mark marked) (behind : Spells more others) :
    Spells (text ++ (mark ++ more)) (kinds ++ (marked ++ others)) := by
  refine spells.append ?_ (separates.marks.append behind)
  rw [String.toList_append]
  exact separates.parted _

theorem spells_nil : Spells "" [] := fun _ _ => rfl

end Spells

def keywords : List String := ["fn", "let", "true", "false", "if", "else", "return"]

def isName (name : String) : Bool :=
  match name.toList with
  | [] => false
  | c :: rest => isWordStart c && rest.all isWordRest && !keywords.contains name

theorem wordKind_ident {word : List Char} (free : String.ofList word ∉ keywords) :
    wordKind word = .ident (String.ofList word) := by
  unfold wordKind
  split <;> first | rfl | exact absurd (by decide) free

theorem exists_of_isName {name : String} (named : isName name = true) :
    ∃ c rest, name.toList = c :: rest ∧ isWordStart c = true ∧
      (∀ d ∈ rest, isWordRest d = true) ∧ name ∉ keywords := by
  unfold isName at named
  split at named
  · cases named
  · rename_i c rest same
    simp only [Bool.and_eq_true, List.all_eq_true, Bool.not_eq_true', List.contains_eq_mem,
      decide_eq_false_iff_not] at named
    exact ⟨c, rest, same, named.1.1, named.1.2, named.2⟩

theorem spells_word {word : String} {c : Char} {rest : List Char}
    (written : word.toList = c :: rest) (starts : isWordStart c = true)
    (goesOn : ∀ d ∈ rest, isWordRest d = true) : Spells word [wordKind (c :: rest)] := by
  intro more parted
  rw [written, readings_word starts goesOn parted]
  rfl

theorem spells_name {name : String} (named : isName name = true) : Spells name [.ident name] := by
  obtain ⟨c, rest, written, starts, goesOn, free⟩ := exists_of_isName named
  have whole : String.ofList (c :: rest) = name := by rw [← written, String.ofList_toList]
  rw [← whole] at free
  have spells := spells_word written starts goesOn
  rwa [wordKind_ident free, whole] at spells

/-- The decimal digits of a number, of which there is one at least. -/
theorem exists_digits (k : Nat) :
    ∃ c rest, Nat.toDigits 10 k = c :: rest ∧ c.isDigit = true ∧
      (∀ d ∈ rest, d.isDigit = true) ∧ decimal (c :: rest) = k := by
  have value : decimal (Nat.toDigits 10 k) = k :=
    Nat.ofDigitChars_toDigits (by decide) (by decide)
  have digits : ∀ d ∈ Nat.toDigits 10 k, d.isDigit = true := fun _ =>
    Nat.isDigit_of_mem_toDigits (by decide) (by decide)
  cases written : Nat.toDigits 10 k with
  | nil => exact absurd written Nat.toDigits_ne_nil
  | cons c rest =>
      rw [written] at value digits
      obtain ⟨first, others⟩ := List.forall_mem_cons.mp digits
      exact ⟨c, rest, rfl, first, others, value⟩

theorem exists_of_natural {n : Int64} (natural : 0 ≤ n.toInt) :
    ∃ c rest, (toString n.toInt).toList = c :: rest ∧ c.isDigit = true ∧
      (∀ d ∈ rest, d.isDigit = true) ∧ (decimal (c :: rest) : Int) = n.toInt := by
  obtain ⟨k, same⟩ := Int.eq_ofNat_of_zero_le natural
  obtain ⟨c, rest, written, first, others, value⟩ := exists_digits k
  refine ⟨c, rest, ?_, first, others, by rw [value, same]⟩
  rw [same, ← written]
  change (toString k).toList = _
  rw [Nat.toString_eq_ofList_toDigits, String.toList_ofList]

theorem spells_int {n : Int64} (natural : 0 ≤ n.toInt) : Spells (toString n.toInt) [.int n] := by
  intro more parted
  obtain ⟨c, rest, written, first, others, value⟩ := exists_of_natural natural
  have small : (decimal (c :: rest) : Int) ≤ Int64.maxValue.toInt := value ▸ n.toInt_le
  have same : Int64.ofNat (decimal (c :: rest)) = n := by
    rw [← Int64.ofInt_toInt n, ← value]
    rfl
  rw [written, readings_number first others parted small, same]
  rfl

/-- An operator in front of its operand. Only an equals sign could be taken with it. -/
theorem Spells.unary {text : String} {kinds : List TokenKind} {c : Char} {rest : List Char}
    (op : UnaryOp) (spells : Spells text kinds) (first : text.toList = c :: rest)
    (apart : c ≠ '=') : Spells (op.symbol ++ text) (op.token :: kinds) := by
  intro more parted
  have behind := spells more parted
  rw [String.toList_append, List.append_assoc, List.map_cons, List.cons_append, ← behind, first]
  cases op with
  | neg => rfl
  | not =>
      have taken : munch '!' (c :: rest ++ more) = (.symbol, 0) := by
        simp [munch, isBlank, isWordStart, apart]
      change readings ('!' :: (c :: rest ++ more)) = _
      rw [readings_cons, taken]
      rfl

end Lexer

end TreeWalk
