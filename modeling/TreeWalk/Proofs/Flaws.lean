import TreeWalk.Proofs.Spelling
import TreeWalk.Proofs.Tokenisation

/-! # The flaws of a text

Which characters and numbers of a text are wrong is said here of its positions, without cutting it
into lexemes: a character outside comments that belongs to no token, and a run of digits outside
comments and words whose number is too large. The lexical faults of a text are these flaws, in the
order of their positions.
-/

namespace TreeWalk

namespace Lexer

/-- A position divides a text into the characters `before` it and the `rest`. Does a comment reach
    it: do two slashes start there or before, with no line end from there on? -/
def Commented (before rest : List Char) : Prop :=
  ∃ i ≤ before.length, ['/', '/'] <+: (before ++ rest).drop i ∧ '\n' ∉ before.drop i

instance (before rest : List Char) : Decidable (Commented before rest) :=
  inferInstanceAs (Decidable (∃ i ≤ before.length, _ ∧ _))

/-- Blanks, letters, digits and the underscore, and what operators and delimiters are made of. -/
def belongs (c : Char) : Bool :=
  isBlank c || isWordRest c || ['=', '+', '-', '!', '*', '/', '<', '>', ',', ';', '(', ')', '\x7b',
    '\x7d'].contains c

/-- The flaw at a position outside comments: a character that belongs to no token, or a run of
    digits, no matter how many zeros it starts with, that stands in no word and denotes a number
    above `2 ^ 63 - 1`. -/
def flaw? (before : List Char) : (rest : List Char) → Option LexicalFault
  | [] => none
  | c :: rest =>
      let start := byteSize before
      let digits := (c :: rest).takeWhile Char.isDigit
      if belongs c = false ∧ ¬ Commented before (c :: rest) then
        some ⟨.unexpectedChar c, ⟨start, start + c.utf8Size⟩⟩
      else if c.isDigit = true ∧ before.getLast?.any isWordRest = false ∧
          Int64.maxValue.toInt < Nat.ofDigitChars 10 digits 0 ∧
          ¬ Commented before (c :: rest) then
        some ⟨.integerOutOfRange (String.ofList digits), ⟨start, start + byteSize digits⟩⟩
      else none

/-- The flaws of a text, in the order of its positions. -/
def flaws (text : List Char) : List LexicalFault :=
  (List.range text.length).filterMap fun i => flaw? (text.take i) (text.drop i)

def flawsFrom (before rest : List Char) : List LexicalFault :=
  (List.range rest.length).filterMap fun i => flaw? (before ++ rest.take i) (rest.drop i)

theorem flawsFrom_cons (before : List Char) (c : Char) (rest : List Char) :
    flawsFrom before (c :: rest) =
      (flaw? before (c :: rest)).toList ++ flawsFrom (before ++ [c]) rest := by
  have later : (fun i => flaw? (before ++ (c :: rest).take (i + 1)) ((c :: rest).drop (i + 1))) =
      fun i => flaw? (before ++ [c] ++ rest.take i) (rest.drop i) := by
    funext i
    simp
  rw [flawsFrom, List.length_cons, List.range_succ_eq_map, List.filterMap_cons,
    List.filterMap_map, Function.comp_def, later]
  simp only [List.take_zero, List.append_nil, List.drop_zero]
  cases flaw? before (c :: rest) <;> rfl

/-- A comment that started before reaches this position. -/
def InComment (before rest : List Char) : Prop :=
  ∃ i < before.length, ['/', '/'] <+: (before ++ rest).drop i ∧ '\n' ∉ before.drop i

section Comments

variable {before rest front : List Char} {c : Char}

theorem commented_iff : Commented before rest ↔ InComment before rest ∨ ['/', '/'] <+: rest := by
  constructor
  · rintro ⟨i, bound, slashes, line⟩
    rcases Nat.lt_or_eq_of_le bound with inside | rfl
    · exact .inl ⟨i, inside, slashes, line⟩
    · rw [List.drop_left] at slashes
      exact .inr slashes
  · rintro (⟨i, inside, slashes, line⟩ | slashes)
    · exact ⟨i, Nat.le_of_lt inside, slashes, line⟩
    · refine ⟨before.length, Nat.le_refl _, ?_, ?_⟩
      · rwa [List.drop_left]
      · simp

theorem not_inComment_nil : ¬ InComment [] rest := by
  rintro ⟨i, inside, -⟩
  cases inside

/-- A comment goes on behind each of its characters but a line end. -/
theorem inComment_snoc :
    InComment (before ++ [c]) rest ↔ c ≠ '\n' ∧ Commented before (c :: rest) := by
  have whole : before ++ [c] ++ rest = before ++ c :: rest := (List.append_cons ..).symm
  have size : (before ++ [c]).length = before.length + 1 := List.length_append
  simp only [InComment, Commented, whole, size, Nat.lt_succ_iff]
  constructor
  · rintro ⟨i, bound, slashes, line⟩
    rw [List.drop_append_of_le_length bound, List.mem_append, not_or, List.mem_singleton] at line
    exact ⟨Ne.symm line.2, i, bound, slashes, line.1⟩
  · rintro ⟨different, i, bound, slashes, line⟩
    refine ⟨i, bound, slashes, ?_⟩
    rw [List.drop_append_of_le_length bound, List.mem_append, not_or, List.mem_singleton]
    exact ⟨line, Ne.symm different⟩

theorem not_inComment_append (outside : ¬ InComment before (front ++ rest))
    (noSlash : '/' ∉ front) : ¬ InComment (before ++ front) rest := by
  induction front generalizing before with
  | nil => simpa using outside
  | cons c front ih =>
      rw [List.mem_cons, not_or] at noSlash
      rw [List.append_cons]
      refine ih (fun inside => ?_) noSlash.2
      rcases commented_iff.mp (inComment_snoc.mp inside).2 with earlier | slashes
      · exact outside earlier
      · exact noSlash.1 (List.cons_prefix_cons.mp slashes).1

end Comments

section Flaws

variable {before rest front : List Char} {c : Char}

theorem flaw?_of_commented (commented : Commented before rest) : flaw? before rest = none := by
  cases rest with
  | nil => rfl
  | cons c rest => simp [flaw?, commented]

theorem flaw?_of_belongs (known : belongs c = true)
    (noNumber : c.isDigit = true → before.getLast?.any isWordRest = true) :
    flaw? before (c :: rest) = none := by
  rw [flaw?, if_neg, if_neg]
  · rintro ⟨digit, apart, -⟩
    rw [noNumber digit] at apart
    cases apart
  · rintro ⟨unknown, -⟩
    rw [known] at unknown
    cases unknown

theorem belongs_of_isWordRest (word : isWordRest c = true) : belongs c = true := by
  simp [belongs, word]

/-- Up to the end of its line a comment has no flaws. -/
theorem flawsFrom_comment (commented : Commented before (front ++ rest)) (line : '\n' ∉ front) :
    flawsFrom before (front ++ rest) = flawsFrom (before ++ front) rest := by
  induction front generalizing before with
  | nil => simp
  | cons c front ih =>
      rw [List.mem_cons, not_or] at line
      have inside : InComment (before ++ [c]) (front ++ rest) :=
        inComment_snoc.mpr ⟨Ne.symm line.1, commented⟩
      rw [List.cons_append, flawsFrom_cons, ← List.cons_append, flaw?_of_commented commented,
        List.append_cons before c front, ← ih (commented_iff.mpr (.inl inside)) line.2]
      rfl

/-- The characters that continue a word or a number have no flaws. -/
theorem flawsFrom_word (word : isWordRest c = true) (goesOn : ∀ d ∈ front, isWordRest d = true) :
    flawsFrom (before ++ [c]) (front ++ rest) = flawsFrom (before ++ c :: front) rest := by
  induction front generalizing before c with
  | nil => rfl
  | cons d front ih =>
      obtain ⟨next, goesOn⟩ := List.forall_mem_cons.mp goesOn
      have clean : flaw? (before ++ [c]) (d :: (front ++ rest)) = none :=
        flaw?_of_belongs (belongs_of_isWordRest next) fun _ => by simp [word]
      rw [List.cons_append, flawsFrom_cons, clean]
      have later := @ih (before ++ [c]) d next goesOn
      rw [← List.append_cons] at later
      simpa using later

end Flaws

/-- What is known where a lexeme ends: a comment is over at the end of its line, and a number does
    not start directly behind a word or another number. -/
structure Boundary (before rest : List Char) : Prop where
  closed : InComment before rest → ∀ c ∈ rest.head?, c = '\n'
  apart : ∀ c ∈ rest.head?, c.isDigit = true → before.getLast?.any isWordRest = false

section Boundary

variable {before rest tail behind : List Char} {c : Char} {shape : Shape}

theorem plain_of_munch_symbol (symbol : (munch c rest).1 = .symbol) : isWordRest c = false := by
  unfold munch at symbol
  split at symbol
  · cases symbol
  split at symbol
  · cases symbol
  split at symbol
  · cases symbol
  · rename_i noDigit noWord
    simp [isWordRest, noDigit, noWord]

theorem symbolKind?_eq_none_iff (solid : isBlank c = false) (plain : isWordRest c = false) :
    symbolKind? [c] = none ↔ belongs c = false := by
  unfold symbolKind?
  split
  case h_17 => simp_all [belongs]
  all_goals
    rename_i same
    cases same
  all_goals decide

namespace Boundary

theorem not_inComment (boundary : Boundary before (c :: rest)) (solid : isBlank c = false) :
    ¬ InComment before (c :: rest) := by
  intro inside
  rw [boundary.closed inside c rfl] at solid
  cases solid

theorem not_commented (boundary : Boundary before (c :: rest)) (solid : isBlank c = false)
    (noSlashes : c = '/' → rest.head? ≠ some '/') : ¬ Commented before (c :: rest) := by
  intro commented
  rcases commented_iff.mp commented with inside | slashes
  · exact boundary.not_inComment solid inside
  · obtain ⟨rfl, slash⟩ := List.cons_prefix_cons.mp slashes
    obtain ⟨more, rfl⟩ := slash
    exact noSlashes rfl rfl

theorem blank (boundary : Boundary before (c :: rest)) (blank : isBlank c = true) :
    Boundary (before ++ [c]) rest where
  closed inside := by
    obtain ⟨goesOn, commented⟩ := inComment_snoc.mp inside
    rcases commented_iff.mp commented with earlier | slashes
    · exact absurd (boundary.closed earlier c rfl) goesOn
    · obtain ⟨rfl, -⟩ := List.cons_prefix_cons.mp slashes
      cases blank
  apart _ _ _ := by simp [isWordRest_of_isBlank blank]

/-- A lexeme without a slash starts no comment. -/
theorem without_slash (boundary : Boundary before (c :: (tail ++ behind)))
    (solid : isBlank c = false) (noSlash : '/' ∉ c :: tail)
    (apart : ∀ d ∈ behind.head?, d.isDigit = true →
      (before ++ c :: tail).getLast?.any isWordRest = false) :
    Boundary (before ++ c :: tail) behind where
  closed inside := absurd inside (not_inComment_append (boundary.not_inComment solid) noSlash)
  apart := apart

theorem word (boundary : Boundary before (c :: (tail ++ behind)))
    (goesOn : ∀ d ∈ c :: tail, isWordRest d = true)
    (stops : ∀ d ∈ behind.head?, d.isDigit = false) : Boundary (before ++ c :: tail) behind := by
  refine boundary.without_slash (isBlank_of_isWordRest (goesOn c List.mem_cons_self)) ?_ ?_
  · intro member
    cases goesOn '/' member
  · intro d next digit
    rw [stops d next] at digit
    cases digit

theorem comment (ends : ∀ d ∈ behind.head?, d = '\n') : Boundary before behind where
  closed _ := ends
  apart d next digit := by
    rw [ends d next] at digit
    cases digit

theorem solid (boundary : Boundary before (c :: rest)) (solid : isBlank c = false)
    (plain : shape = .symbol → isWordRest c = false) (taken : Munched c rest shape tail behind) :
    Boundary (before ++ c :: tail) behind := by
  cases taken with
  | number digit =>
      rw [← List.takeWhile_append_dropWhile (p := Char.isDigit) (l := rest)] at boundary
      refine boundary.word ?_ fun d => Munched.eq_false_of_dropWhile
      intro d member
      simp [isWordRest, Munched.forall_mem_cons_takeWhile digit d member]
  | word starts =>
      rw [← List.takeWhile_append_dropWhile (p := isWordRest) (l := rest)] at boundary
      have first : isWordRest c = true := by simp [isWordRest, starts]
      exact boundary.word (Munched.forall_mem_cons_takeWhile first) fun d next =>
        isDigit_of_isWordRest (Munched.eq_false_of_dropWhile next)
  | comment slash line =>
      exact .comment fun d next => by simpa using Munched.eq_false_of_dropWhile next
  | double sign equals =>
      subst equals
      change Boundary before (c :: (['='] ++ behind)) at boundary
      refine boundary.without_slash solid ?_ fun _ _ _ => ?_
      · rcases sign with rfl | rfl <;> decide
      · rw [List.append_cons, List.getLast?_concat]
        rfl
  | single noComment noEqual =>
      refine { closed := fun inside => ?_, apart := fun _ _ _ => by simp [plain rfl] }
      exact absurd (inComment_snoc.mp inside).2 (boundary.not_commented solid noComment)

end Boundary

theorem flaw?_number (digit : c.isDigit = true) (boundary : Boundary before (c :: rest)) :
    (flaw? before (c :: rest)).toList =
      faultsIn ((classify .number c (rest.takeWhile Char.isDigit)).toList.map (Lexeme.mk
        ⟨byteSize before, byteSize before + byteSize (c :: rest.takeWhile Char.isDigit)⟩)) := by
  have word : isWordRest c = true := by simp [isWordRest, digit]
  have free : ¬ Commented before (c :: rest) :=
    boundary.not_commented (isBlank_of_isWordRest word) fun slash => by
      rw [slash] at digit
      cases digit
  have apart := boundary.apart c rfl digit
  have digits : (c :: rest).takeWhile Char.isDigit = c :: rest.takeWhile Char.isDigit := by
    simp [digit]
  have known : ¬ (belongs c = false ∧ ¬ Commented before (c :: rest)) := by
    simp [belongs_of_isWordRest word]
  simp only [flaw?, if_neg known, digits, classify]
  generalize rest.takeWhile Char.isDigit = tail
  have value : Nat.ofDigitChars 10 (c :: tail) 0 = decimal (c :: tail) := rfl
  rw [value]
  by_cases large : Int64.maxValue.toInt < decimal (c :: tail)
  · rw [if_pos ⟨digit, apart, large, free⟩, if_neg (Int.not_le.mpr large)]
    rfl
  · rw [if_neg fun flaw => large flaw.2.2.1, if_pos (Int.not_lt.mp large)]
    rfl

theorem flaw?_symbol (free : ¬ Commented before (c :: rest)) (solid : isBlank c = false)
    (plain : isWordRest c = false) :
    (flaw? before (c :: rest)).toList = faultsIn ((classify .symbol c []).toList.map
      (Lexeme.mk ⟨byteSize before, byteSize before + byteSize [c]⟩)) := by
  have meaning := symbolKind?_eq_none_iff solid plain
  cases stands : symbolKind? [c] with
  | none =>
      simp [flaw?, free, meaning.mp stands, classify, stands, byteSize]
      rfl
  | some kind =>
      have known : belongs c = true := by simpa [stands] using meaning
      simp [flaw?_of_belongs known, isDigit_of_isWordRest plain, classify, stands]
      rfl

/-- The flaws of a text start with the fault that its first lexeme is, if it is one. -/
theorem Munched.flawsFrom_eq (taken : Munched c rest shape tail behind)
    (boundary : Boundary before (c :: rest)) (solid : isBlank c = false)
    (plain : shape = .symbol → isWordRest c = false) :
    flawsFrom before (c :: rest) =
      faultsIn ((classify shape c tail).toList.map
        (Lexeme.mk ⟨byteSize before, byteSize before + byteSize (c :: tail)⟩)) ++
        flawsFrom (before ++ c :: tail) behind := by
  cases taken with
  | number digit =>
      have first : isWordRest c = true := by simp [isWordRest, digit]
      have goesOn : ∀ d ∈ rest.takeWhile Char.isDigit, isWordRest d = true := fun d member => by
        simp [isWordRest, List.mem_takeWhile_imp member]
      rw [flawsFrom_cons, flaw?_number digit boundary, ← flawsFrom_word first goesOn,
        List.takeWhile_append_dropWhile]
  | word starts =>
      have first : isWordRest c = true := by simp [isWordRest, starts]
      have clean : flaw? before (c :: rest) = none :=
        flaw?_of_belongs (belongs_of_isWordRest first) fun digit => by
          rw [isDigit_of_isWordStart starts] at digit
          cases digit
      rw [flawsFrom_cons, clean, ← flawsFrom_word first fun _ => List.mem_takeWhile_imp,
        List.takeWhile_append_dropWhile]
      rfl
  | @comment text slash same =>
      subst slash same
      have split : '/' :: '/' :: text =
          '/' :: '/' :: text.takeWhile (· ≠ '\n') ++ text.dropWhile (· ≠ '\n') := by
        rw [List.cons_append, List.cons_append, List.takeWhile_append_dropWhile]
      have line : '\n' ∉ '/' :: '/' :: text.takeWhile (· ≠ '\n') := by
        simp only [List.mem_cons, Char.reduceEq, false_or]
        intro member
        simpa using List.mem_takeWhile_imp member
      have starts : Commented before ('/' :: '/' :: text) :=
        commented_iff.mpr (.inr ⟨text, rfl⟩)
      rw [split] at starts ⊢
      exact flawsFrom_comment starts line
  | double sign equals =>
      subst equals
      have apart : isWordRest c = false := plain rfl
      have clean : flaw? before (c :: '=' :: behind) = none := by
        refine flaw?_of_belongs ?_ fun digit => ?_
        · rcases sign with rfl | rfl <;> rfl
        · rw [isDigit_of_isWordRest apart] at digit
          cases digit
      have cleanSign : flaw? (before ++ [c]) ('=' :: behind) = none :=
        flaw?_of_belongs rfl fun digit => by cases digit
      rw [flawsFrom_cons, clean, flawsFrom_cons, cleanSign, ← List.append_cons]
      rcases sign with rfl | rfl <;> rfl
  | single noComment noEqual =>
      rw [flawsFrom_cons, flaw?_symbol (boundary.not_commented solid noComment) solid (plain rfl)]

theorem faultsIn_eq_flawsFrom (boundary : Boundary before rest) :
    faultsIn (lexemes (byteSize before) rest) = flawsFrom before rest := by
  induction rest using lexeme_induction generalizing before with
  | nil => rfl
  | blank c rest blank ih =>
      have clean : flaw? before (c :: rest) = none :=
        flaw?_of_belongs (by simp [belongs, blank]) fun digit => by
          rw [isBlank_of_isWordRest (by simp [isWordRest, digit])] at blank
          cases blank
      have size : byteSize before + c.utf8Size = byteSize (before ++ [c]) := by
        rw [byteSize_append]
        rfl
      rw [lexemes_blank blank, flawsFrom_cons, clean, size, ih (boundary.blank blank)]
      rfl
  | solid c rest solid ih =>
      have taken := munched solid rest
      have size : byteSize before + byteSize (c :: rest.take (munch c rest).2) =
          byteSize (before ++ c :: rest.take (munch c rest).2) := (byteSize_append ..).symm
      rw [taken.flawsFrom_eq boundary solid plain_of_munch_symbol, lexemes_cons, faultsIn_append,
        size, ih (boundary.solid solid plain_of_munch_symbol taken)]

end Boundary

end Lexer

open Lexer

/-- A text that can be addressed has lexical faults just when it has flaws, and then they are its
    flaws, in the order of their positions. -/
theorem lex_eq_error_iff_flaws {source : String} {faults : List LexicalFault}
    (fits : source.utf8ByteSize ≤ Span.maxOffset) :
    lex source = .error faults ↔ faults ≠ [] ∧ faults = flaws source.toList := by
  have start : Boundary [] source.toList :=
    { closed := fun inside => absurd inside not_inComment_nil, apart := fun _ _ _ => rfl }
  have same : faultsIn (lexemes 0 source.toList) = flaws source.toList :=
    faultsIn_eq_flawsFrom start
  rw [← same]
  constructor
  · intro failed
    by_cases clean : faultsIn (lexemes 0 source.toList) = []
    · obtain ⟨ts, cut⟩ := faultsIn_eq_nil_iff.mp clean
      cases failed.symm.trans (lex_of_tokens fits cut)
    · obtain rfl := Except.error.inj (failed.symm.trans (lex_of_faults fits clean))
      exact ⟨clean, rfl⟩
  · rintro ⟨nonempty, rfl⟩
    exact lex_of_faults fits nonempty

/-- Digits of a name, anything in a comment, and the greatest number behind zeros are no flaws. -/
theorem lex_eq_error_iff_flaws_comment :
    lex "éx9223372036854775808 //9999999999999999999\n0009223372036854775807@09223372036854775808" =
      .error [⟨.unexpectedChar 'é', ⟨0, 2⟩⟩, ⟨.unexpectedChar '@', ⟨67, 68⟩⟩,
        ⟨.integerOutOfRange "09223372036854775808", ⟨68, 88⟩⟩] :=
  (lex_eq_error_iff_flaws (by decide +kernel)).mpr ⟨List.cons_ne_nil _ _, by decide +kernel⟩

end TreeWalk
