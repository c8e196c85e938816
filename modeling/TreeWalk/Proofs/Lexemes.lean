import Mathlib.Data.List.TakeWhile
import TreeWalk.Parser

/-! # The lexemes of a text

`lexemes` lists what a text is cut into, each lexeme with its span and with the token or the fault
that it stands for. It is the scanner without its accumulator, and laws about cutting are equations
or decompositions of it: a text behind a whole line is cut on its own, a text that starts further on
has the same lexemes further on, and the stretch of text from one lexeme to another is cut into just
the lexemes between them.
-/

namespace TreeWalk

namespace Lexer

/-- A lexeme that is not skipped. -/
structure Lexeme where
  span : Span
  reading : Except LexicalCause TokenKind

/-- The lexemes of a text whose first character stands at byte `offset`. The first `inside`
    characters belong to a lexeme that has been read. -/
def lexemesFrom (offset inside : Nat) : List Char → List Lexeme
  | [] => []
  | c :: rest =>
      match inside with
      | inside + 1 => lexemesFrom offset inside rest
      | 0 =>
          let taken := (munch c rest).2
          let stop := offset + byteSize (c :: rest.take taken)
          (classify (munch c rest).1 c (rest.take taken)).toList.map (Lexeme.mk ⟨offset, stop⟩) ++
            lexemesFrom stop taken rest

def lexemes (offset : Nat) (text : List Char) : List Lexeme := lexemesFrom offset 0 text

theorem lexemesFrom_inside (offset inside : Nat) (text : List Char) :
    lexemesFrom offset inside text = lexemes offset (text.drop inside) := by
  induction text generalizing inside with
  | nil => simp [lexemes, lexemesFrom]
  | cons c rest ih =>
      cases inside with
      | zero => rfl
      | succ inside => simpa [lexemesFrom] using ih inside

@[simp] theorem lexemes_nil (offset : Nat) : lexemes offset [] = [] := rfl

theorem lexemes_cons (offset : Nat) (c : Char) (rest : List Char) :
    lexemes offset (c :: rest) =
      (classify (munch c rest).1 c (rest.take (munch c rest).2)).toList.map
        (Lexeme.mk ⟨offset, offset + byteSize (c :: rest.take (munch c rest).2)⟩) ++
        lexemes (offset + byteSize (c :: rest.take (munch c rest).2))
          (rest.drop (munch c rest).2) := by
  rw [← lexemesFrom_inside]
  rfl

def Scan.add (scan : Scan) (lexeme : Lexeme) : Scan := scan.push lexeme.span (some lexeme.reading)

theorem scanFrom_eq_foldl (offset : Nat) (found : Scan) (inside : Nat) (text : List Char) :
    scanFrom offset found inside text = (lexemesFrom offset inside text).foldl Scan.add found := by
  induction text generalizing offset found inside with
  | nil => rfl
  | cons c rest ih =>
      cases inside with
      | succ inside => exact ih offset found inside
      | zero =>
          simp only [scanFrom, lexemesFrom, ih, List.foldl_append]
          cases classify (munch c rest).1 c (rest.take (munch c rest).2) with
          | none => rfl
          | some reading => rfl

theorem scanFrom_zero (offset : Nat) (found : Scan) (text : List Char) :
    scanFrom offset found 0 text = (lexemes offset text).foldl Scan.add found :=
  scanFrom_eq_foldl offset found 0 text

end Lexer

def Token.lexeme (t : Token) : Lexer.Lexeme := ⟨t.span, .ok t.kind⟩

namespace Lexer

theorem foldl_add_tokens (found : Scan) (ts : List Token) :
    (ts.map Token.lexeme).foldl Scan.add found =
      { found with tokens := found.tokens ++ ts.toArray } := by
  induction ts generalizing found with
  | nil => simp
  | cons t ts ih =>
      simp only [List.map_cons, List.foldl_cons, ih]
      simp [Scan.add, Scan.push, Token.lexeme]

/-- The fault that a lexeme is, if it is no token. -/
def Lexeme.fault? (lexeme : Lexeme) : Option LexicalFault :=
  match lexeme.reading with
  | .ok _ => none
  | .error cause => some ⟨cause, lexeme.span⟩

/-- The lexemes that are no tokens. -/
def faultsIn (ls : List Lexeme) : List LexicalFault := ls.filterMap Lexeme.fault?

@[simp] theorem faultsIn_cons_error (span : Span) (cause : LexicalCause) (ls : List Lexeme) :
    faultsIn (⟨span, .error cause⟩ :: ls) = ⟨cause, span⟩ :: faultsIn ls := rfl

@[simp] theorem faultsIn_cons_ok (span : Span) (kind : TokenKind) (ls : List Lexeme) :
    faultsIn (⟨span, .ok kind⟩ :: ls) = faultsIn ls := rfl

theorem faultsIn_append (ls ms : List Lexeme) : faultsIn (ls ++ ms) = faultsIn ls ++ faultsIn ms :=
  List.filterMap_append

@[simp] theorem faultsIn_tokens (ts : List Token) : faultsIn (ts.map Token.lexeme) = [] := by
  induction ts with
  | nil => rfl
  | cons t ts ih => exact ih

theorem foldl_add_faults (found : Scan) (ls : List Lexeme) :
    (ls.foldl Scan.add found).faults = found.faults ++ (faultsIn ls).toArray := by
  induction ls generalizing found with
  | nil => simp [faultsIn]
  | cons l ls ih => obtain ⟨span, cause | kind⟩ := l <;> simp [ih, Scan.add, Scan.push]

theorem faultsIn_eq_nil_iff {ls : List Lexeme} :
    faultsIn ls = [] ↔ ∃ ts : List Token, ls = ts.map Token.lexeme := by
  constructor
  · intro clean
    induction ls with
    | nil => exact ⟨[], rfl⟩
    | cons l ls ih =>
        obtain ⟨span, cause | kind⟩ := l
        · cases clean
        · obtain ⟨ts, rfl⟩ := ih clean
          exact ⟨⟨kind, span⟩ :: ts, rfl⟩
  · rintro ⟨ts, rfl⟩
    exact faultsIn_tokens ts

end Lexer

open Lexer

section Lex

variable {source : String} (fits : source.utf8ByteSize ≤ Span.maxOffset)

include fits

theorem lex_of_tokens {ts : List Token} (cut : lexemes 0 source.toList = ts.map Token.lexeme) :
    lex source =
      .ok (ts ++ [⟨.endOfInput, ⟨source.utf8ByteSize, source.utf8ByteSize⟩⟩]) := by
  simp [lex, Nat.not_lt.mpr fits, scanFrom_zero, cut, foldl_add_tokens]

theorem lex_of_faults (faulty : faultsIn (lexemes 0 source.toList) ≠ []) :
    lex source = .error (faultsIn (lexemes 0 source.toList)) := by
  simp [lex, Nat.not_lt.mpr fits, scanFrom_zero, foldl_add_faults, faulty]

end Lex

theorem lex_eq_ok_iff {source : String} {tokens : List Token} :
    lex source = .ok tokens ↔ source.utf8ByteSize ≤ Span.maxOffset ∧
      ∃ ts : List Token, lexemes 0 source.toList = ts.map Token.lexeme ∧
        tokens = ts ++ [⟨.endOfInput, ⟨source.utf8ByteSize, source.utf8ByteSize⟩⟩] := by
  constructor
  · intro read
    by_cases large : Span.maxOffset < source.utf8ByteSize
    · simp [lex, large] at read
    · have fits := Nat.le_of_not_lt large
      by_cases clean : faultsIn (lexemes 0 source.toList) = []
      · obtain ⟨ts, cut⟩ := faultsIn_eq_nil_iff.mp clean
        exact ⟨fits, ts, cut, Except.ok.inj (read.symm.trans (lex_of_tokens fits cut))⟩
      · cases read.symm.trans (lex_of_faults fits clean)
  · rintro ⟨fits, ts, cut, rfl⟩
    exact lex_of_tokens fits cut

namespace Lexer

theorem take_length_takeWhile (p : Char → Bool) (text : List Char) :
    text.take (text.takeWhile p).length = text.takeWhile p :=
  (List.prefix_iff_eq_take.mp (List.takeWhile_prefix p)).symm

theorem drop_length_takeWhile (p : Char → Bool) (text : List Char) :
    text.drop (text.takeWhile p).length = text.dropWhile p := by
  have joined := congrArg (List.drop (text.takeWhile p).length)
    (List.takeWhile_append_dropWhile (p := p) (l := text))
  rw [← joined, List.drop_left]

/-- A run of characters ends where it ended, before the same character or none. -/
theorem takeWhile_run {p : Char → Bool} {text more : List Char}
    (next : ∀ d ∈ more.head?, d ∈ (text.drop (text.takeWhile p).length).head?) :
    (text.take (text.takeWhile p).length ++ more).takeWhile p = text.takeWhile p := by
  rw [drop_length_takeWhile] at next
  rw [take_length_takeWhile, List.takeWhile_append_of_pos fun _ => List.mem_takeWhile_imp]
  cases more with
  | nil => simp
  | cons d more =>
      have stops := List.head?_dropWhile_not p text
      rw [next d rfl] at stops
      simp [stops]

/-- A lexeme takes the same characters where they are followed by the same character or by none. -/
theorem munch_stable {c : Char} {rest more : List Char}
    (next : ∀ d ∈ more.head?, d ∈ (rest.drop (munch c rest).2).head?) :
    munch c (rest.take (munch c rest).2 ++ more) = munch c rest := by
  unfold munch at next ⊢
  by_cases blank : isBlank c = true
  · simp only [blank, if_true] at next ⊢
    rw [takeWhile_run next]
  by_cases digit : c.isDigit = true
  · simp only [blank, digit, Bool.false_eq_true, if_false, if_true] at next ⊢
    rw [takeWhile_run next]
  by_cases word : isWordStart c = true
  · simp only [blank, digit, word, Bool.false_eq_true, if_false, if_true] at next ⊢
    rw [takeWhile_run next]
  simp only [blank, digit, word, Bool.false_eq_true, if_false] at next ⊢
  split at next
  · have run := congrArg List.length (takeWhile_run next)
    simp only [List.takeWhile_cons, ne_eq, Char.reduceEq, not_false_eq_true, decide_true, if_true,
      List.length_cons, List.take_succ_cons, List.cons_append] at run ⊢
    rw [run]
  · simp
  · simp
  · cases more with
    | nil => simp
    | cons d more =>
        cases rest with
        | nil => simp at next
        | cons e rest =>
            simp only [List.drop_zero, List.head?_cons, Option.mem_some_iff, forall_eq'] at next
            subst next
            simp only [List.take_zero, List.nil_append]
            split <;> simp_all

/-- Only blanks take the end of a line with them. -/
theorem newline_mem_drop {c : Char} {rest : List Char} (solid : isBlank c = false)
    (member : '\n' ∈ rest) : '\n' ∈ rest.drop (munch c rest).2 := by
  have behind (p : Char → Bool) (stops : p '\n' = false) :
      '\n' ∈ rest.drop (rest.takeWhile p).length := by
    rw [drop_length_takeWhile]
    rw [← List.takeWhile_append_dropWhile (p := p) (l := rest)] at member
    rcases List.mem_append.mp member with inside | later
    · rw [List.mem_takeWhile_imp inside] at stops
      cases stops
    · exact later
  unfold munch
  simp only [solid, Bool.false_eq_true, if_false]
  split
  · exact behind _ (by decide)
  split
  · exact behind _ (by decide)
  split
  · exact behind _ (by decide)
  · simpa using member
  · simpa using member
  · exact member

theorem byteSize_append (a b : List Char) : byteSize (a ++ b) = byteSize a + byteSize b := by
  induction a with
  | nil => simp [byteSize]
  | cons c a ih => simp only [List.cons_append, byteSize, ih]; omega

theorem byteSize_munch (c : Char) (rest : List Char) :
    byteSize (c :: rest) = byteSize (c :: rest.take (munch c rest).2) +
      byteSize (rest.drop (munch c rest).2) := by
  rw [← byteSize_append, List.cons_append, List.take_append_drop]

theorem byteSize_toList (s : String) : byteSize s.toList = s.utf8ByteSize := by
  suffices same : ∀ cs : List Char, byteSize cs = (String.ofList cs).utf8ByteSize by
    rw [same, String.ofList_toList]
  intro cs
  induction cs with
  | nil => rfl
  | cons c cs ih =>
      rw [String.ofList_cons, String.utf8ByteSize_append, String.utf8ByteSize_singleton, byteSize,
        ih]

theorem lexemes_dropWhile_blank (offset : Nat) (text : List Char) :
    lexemes (offset + byteSize (text.takeWhile isBlank)) (text.dropWhile isBlank) =
      lexemes offset text := by
  cases text with
  | nil => rfl
  | cons c rest =>
      cases blank : isBlank c with
      | false => simp [blank, byteSize]
      | true =>
          have taken : munch c rest = (.skipped, (rest.takeWhile isBlank).length) := by
            simp [munch, blank]
          rw [lexemes_cons, taken]
          simp [blank, classify, take_length_takeWhile, drop_length_takeWhile]

theorem lexemes_blank {c : Char} (blank : isBlank c = true) (offset : Nat) (rest : List Char) :
    lexemes offset (c :: rest) = lexemes (offset + c.utf8Size) rest := by
  rw [← lexemes_dropWhile_blank offset, ← lexemes_dropWhile_blank (offset + c.utf8Size)]
  simp [blank, byteSize, Nat.add_assoc]

/-- A text is empty, or goes on behind a blank, or goes on behind a lexeme that is no blank. -/
@[elab_as_elim]
theorem lexeme_induction {motive : List Char → Prop} (nil : motive [])
    (blank : ∀ c rest, isBlank c = true → motive rest → motive (c :: rest))
    (solid : ∀ c rest, isBlank c = false → motive (rest.drop (munch c rest).2) →
      motive (c :: rest)) (text : List Char) : motive text := by
  match text with
  | [] => exact nil
  | c :: rest =>
      cases kind : isBlank c with
      | true => exact blank c rest kind (lexeme_induction nil blank solid rest)
      | false =>
          exact solid c rest kind (lexeme_induction nil blank solid (rest.drop (munch c rest).2))
termination_by text.length
decreasing_by
  all_goals simp only [List.length_cons, List.length_drop]; omega

/-- The text behind a whole line is cut on its own. -/
theorem lexemes_append {text : List Char} (line : text ≠ [] → text.getLast? = some '\n')
    (offset : Nat) (more : List Char) :
    lexemes offset (text ++ more) =
      lexemes offset text ++ lexemes (offset + byteSize text) more := by
  induction text using lexeme_induction generalizing offset with
  | nil => simp [byteSize]
  | blank c rest blank ih =>
      have lineRest : rest ≠ [] → rest.getLast? = some '\n' := by
        intro some
        rw [← line (by simp), List.getLast?_cons]
        cases rest with
        | nil => exact absurd rfl some
        | cons d rest => simp [List.getLast?_cons]
      rw [List.cons_append, lexemes_blank blank, lexemes_blank blank, ih lineRest, byteSize,
        Nat.add_assoc]
  | solid c rest solid ih =>
      have last := line (by simp)
      have member : '\n' ∈ rest := by
        cases rest with
        | nil =>
            cases last
            cases solid
        | cons d rest => exact List.mem_of_getLast? (by simpa [List.getLast?_cons] using last)
      have later := newline_mem_drop solid member
      have nonempty : rest.drop (munch c rest).2 ≠ [] := List.ne_nil_of_mem later
      have inside : (munch c rest).2 < rest.length := by
        simpa [List.drop_eq_nil_iff] using nonempty
      have lineRest : rest.drop (munch c rest).2 ≠ [] →
          (rest.drop (munch c rest).2).getLast? = some '\n' := by
        intro _
        rw [List.getLast?_drop, if_neg (Nat.not_le.mpr inside)]
        cases rest with
        | nil => cases member
        | cons d rest => simpa [List.getLast?_cons] using last
      have split : rest ++ more =
          rest.take (munch c rest).2 ++ (rest.drop (munch c rest).2 ++ more) := by
        rw [← List.append_assoc, List.take_append_drop]
      have same : munch c (rest ++ more) = munch c rest := by
        rw [split]
        apply munch_stable
        intro d found
        cases behind : rest.drop (munch c rest).2 with
        | nil => exact absurd behind nonempty
        | cons e tail => simpa [behind] using found
      rw [List.cons_append, lexemes_cons, lexemes_cons offset c rest, same,
        List.take_append_of_le_length (Nat.le_of_lt inside),
        List.drop_append_of_le_length (Nat.le_of_lt inside), ih lineRest, byteSize_munch c rest,
        List.append_assoc, Nat.add_assoc]

def Lexeme.moved (lexeme : Lexeme) (distance : Nat) : Lexeme :=
  { lexeme with span := ⟨lexeme.span.start + distance, lexeme.span.stop + distance⟩ }

theorem lexemes_moved (offset distance : Nat) (text : List Char) :
    lexemes (offset + distance) text = (lexemes offset text).map (·.moved distance) := by
  induction text using lexeme_induction generalizing offset with
  | nil => rfl
  | blank c rest blank ih =>
      rw [lexemes_blank blank, lexemes_blank blank, Nat.add_right_comm, ih]
  | solid c rest solid ih =>
      rw [lexemes_cons, lexemes_cons, Nat.add_right_comm offset distance, ih, List.map_append,
        List.map_map]
      rfl

theorem lexemes_from (offset : Nat) (text : List Char) :
    lexemes offset text = (lexemes 0 text).map (·.moved offset) := by
  rw [← lexemes_moved, Nat.zero_add]

/-- The lexemes lie in the text, one behind the other. -/
theorem lexemes_ordered (offset : Nat) (text : List Char) :
    (∀ l ∈ lexemes offset text, offset ≤ l.span.start ∧ l.span.start < l.span.stop ∧
      l.span.stop ≤ offset + byteSize text) ∧
    (lexemes offset text).Pairwise fun l l' => l.span.stop ≤ l'.span.start := by
  induction text using lexeme_induction generalizing offset with
  | nil => simp
  | blank c rest blank ih =>
      rw [lexemes_blank blank, byteSize]
      refine ⟨fun l member => ?_, (ih _).2⟩
      have := (ih _).1 l member
      omega
  | solid c rest solid ih =>
      obtain ⟨inside, ordered⟩ := ih (offset + byteSize (c :: rest.take (munch c rest).2))
      have positive := c.utf8Size_pos
      have size := byteSize_munch c rest
      have nonempty : 0 < byteSize (c :: rest.take (munch c rest).2) := by
        rw [byteSize]
        omega
      rw [lexemes_cons]
      refine ⟨fun l member => ?_, ?_⟩
      · rcases List.mem_append.mp member with first | later
        · obtain ⟨reading, _, rfl⟩ := List.mem_map.mp first
          dsimp only
          omega
        · have := inside l later
          omega
      · refine List.pairwise_append.mpr ⟨?_, ordered, ?_⟩
        · cases classify (munch c rest).1 c (rest.take (munch c rest).2) <;> simp
        · intro l first l' later
          obtain ⟨reading, _, rfl⟩ := List.mem_map.mp first
          exact (inside l' later).1

theorem munch_le (c : Char) (rest : List Char) : (munch c rest).2 ≤ rest.length := by
  unfold munch
  split
  · exact (List.takeWhile_sublist _).length_le
  split
  · exact (List.takeWhile_sublist _).length_le
  split
  · exact (List.takeWhile_sublist _).length_le
  split
  · exact (List.takeWhile_sublist _).length_le
  · simp
  · simp
  · exact Nat.zero_le _

/-- The first lexeme is cut alike in every text that goes on alike, be it for no character. -/
theorem lexemes_cons_take {c : Char} {rest mid after : List Char} (offset : Nat)
    (behind : rest.drop (munch c rest).2 = mid ++ after) :
    lexemes offset (c :: (rest.take (munch c rest).2 ++ mid)) =
      (classify (munch c rest).1 c (rest.take (munch c rest).2)).toList.map
        (Lexeme.mk ⟨offset, offset + byteSize (c :: rest.take (munch c rest).2)⟩) ++
        lexemes (offset + byteSize (c :: rest.take (munch c rest).2)) mid := by
  have same : munch c (rest.take (munch c rest).2 ++ mid) = munch c rest := by
    apply munch_stable
    intro d found
    rw [behind]
    cases mid with
    | nil => cases found
    | cons e mid => exact found
  have length : (rest.take (munch c rest).2).length = (munch c rest).2 :=
    List.length_take_of_le (munch_le c rest)
  rw [lexemes_cons, same, List.take_left' length, List.drop_left' length]

/-- A text can be cut off in front of a lexeme. -/
theorem exists_tail {offset : Nat} {text : List Char} {ls ms : List Lexeme}
    (cut : lexemes offset text = ls ++ ms) :
    ∃ before rest, text = before ++ rest ∧ lexemes (offset + byteSize before) rest = ms ∧
      ∀ m ∈ ms.head?, m.span.start = offset + byteSize before := by
  induction text using lexeme_induction generalizing offset ls with
  | nil =>
      obtain ⟨rfl, rfl⟩ := List.append_eq_nil_iff.mp cut.symm
      exact ⟨[], [], rfl, rfl, nofun⟩
  | blank c rest blank ih =>
      rw [lexemes_blank blank] at cut
      obtain ⟨before, rest, rfl, same, start⟩ := ih cut
      refine ⟨c :: before, rest, rfl, ?_, ?_⟩
      · rw [byteSize, ← Nat.add_assoc, same]
      · rw [byteSize, ← Nat.add_assoc]
        exact start
  | solid c rest solid ih =>
      have whole : c :: rest = (c :: rest.take (munch c rest).2) ++ rest.drop (munch c rest).2 := by
        rw [List.cons_append, List.take_append_drop]
      -- Behind the first lexeme the text is cut by induction.
      have later {ls : List Lexeme}
          (cut : lexemes (offset + byteSize (c :: rest.take (munch c rest).2))
            (rest.drop (munch c rest).2) = ls ++ ms) :
          ∃ before tail, c :: rest = before ++ tail ∧
            lexemes (offset + byteSize before) tail = ms ∧
            ∀ m ∈ ms.head?, m.span.start = offset + byteSize before := by
        obtain ⟨before, tail, split, same, start⟩ := ih cut
        refine ⟨(c :: rest.take (munch c rest).2) ++ before, tail, ?_, ?_, ?_⟩
        · rw [List.append_assoc, ← split, ← whole]
        · rw [byteSize_append, ← Nat.add_assoc, same]
        · rw [byteSize_append, ← Nat.add_assoc]
          exact start
      have first := lexemes_cons offset c rest
      cases reading : classify (munch c rest).1 c (rest.take (munch c rest).2) with
      | none =>
          rw [reading] at first
          exact later (first.symm.trans cut)
      | some reading =>
          simp only [reading, Option.toList_some, List.map_cons, List.map_nil,
            List.cons_append, List.nil_append] at first
          cases ls with
          | nil =>
              refine ⟨[], c :: rest, rfl, cut, ?_⟩
              rw [← (first.symm.trans cut : _ = ms)]
              simp [byteSize]
          | cons l ls => exact later (List.cons.inj (first.symm.trans cut)).2

/-- A text can be cut off behind a lexeme. -/
theorem exists_front {offset : Nat} {text : List Char} {ls ms : List Lexeme}
    (cut : lexemes offset text = ls ++ ms) (nonempty : ls ≠ []) :
    ∃ mid after, text = mid ++ after ∧ lexemes offset mid = ls ∧
      ∀ l ∈ ls.getLast?, l.span.stop = offset + byteSize mid := by
  induction text using lexeme_induction generalizing offset ls with
  | nil => exact absurd (List.append_eq_nil_iff.mp cut.symm).1 nonempty
  | blank c rest blank ih =>
      rw [lexemes_blank blank] at cut
      obtain ⟨mid, after, rfl, same, stop⟩ := ih cut nonempty
      refine ⟨c :: mid, after, rfl, ?_, ?_⟩
      · rw [lexemes_blank blank, same]
      · rw [byteSize, ← Nat.add_assoc]
        exact stop
  | solid c rest solid ih =>
      have whole {mid after : List Char} (split : rest.drop (munch c rest).2 = mid ++ after) :
          c :: rest = (c :: (rest.take (munch c rest).2 ++ mid)) ++ after := by
        rw [List.cons_append, List.append_assoc, ← split, List.take_append_drop]
      have size (mid : List Char) : byteSize (c :: (rest.take (munch c rest).2 ++ mid)) =
          byteSize (c :: rest.take (munch c rest).2) + byteSize mid := by
        rw [← byteSize_append, List.cons_append]
      have first := (lexemes_cons offset c rest).symm.trans cut
      cases reading : classify (munch c rest).1 c (rest.take (munch c rest).2) with
      | none =>
          rw [reading] at first
          obtain ⟨mid, after, split, same, stop⟩ := ih first nonempty
          refine ⟨_, after, whole split, ?_, ?_⟩
          · rw [lexemes_cons_take offset split, reading, same]
            rfl
          · rw [size, ← Nat.add_assoc]
            exact stop
      | some reading =>
          simp only [reading, Option.toList_some, List.map_cons, List.map_nil,
            List.cons_append, List.nil_append] at first
          cases ls with
          | nil => exact absurd rfl nonempty
          | cons l ls =>
              obtain ⟨rfl, behind⟩ := List.cons.inj first
              by_cases one : ls = []
              · subst one
                refine ⟨_, _, whole (List.nil_append _).symm, ?_, ?_⟩
                · rw [lexemes_cons_take offset (List.nil_append _).symm, reading]
                  rfl
                · simp
              · obtain ⟨mid, after, split, same, stop⟩ := ih behind one
                refine ⟨_, after, whole split, ?_, ?_⟩
                · rw [lexemes_cons_take offset split, reading, same]
                  rfl
                · rw [size, ← Nat.add_assoc, List.getLast?_cons_of_ne_nil one]
                  exact stop

/-- The stretch of text from one lexeme to another is cut into the lexemes between them. -/
theorem exists_stretch {offset : Nat} {text : List Char} {ls ms ns : List Lexeme}
    (cut : lexemes offset text = ls ++ ms ++ ns) (nonempty : ms ≠ []) :
    ∃ before mid after, text = before ++ mid ++ after ∧
      lexemes (offset + byteSize before) mid = ms ∧
      (∀ m ∈ ms.head?, m.span.start = offset + byteSize before) ∧
      ∀ m ∈ ms.getLast?, m.span.stop = offset + byteSize before + byteSize mid := by
  rw [List.append_assoc] at cut
  obtain ⟨before, rest, rfl, same, start⟩ := exists_tail cut
  obtain ⟨mid, after, rfl, inner, stop⟩ := exists_front same nonempty
  refine ⟨before, mid, after, (List.append_assoc ..).symm, inner, ?_, stop⟩
  intro m first
  refine start m ?_
  rw [List.head?_append, first]
  rfl

end Lexer

end TreeWalk
