import TreeWalk.Proofs.Lexemes
import TreeWalk.Report

/-! # Which character a location names

Spans count bytes, and the search for a line and a column counts characters from them. The two agree
on text whose characters have one byte each. In general a location names the character that begins
at the span exactly when all characters before the span have one byte, and the span, whose end counts
bytes as well, does not seem to reach behind the text.
-/

namespace TreeWalk

open Lexer (byteSize byteSize_append byteSize_toList)

namespace Location

/-- The lines of a text, each with the characters that end it. -/
def lines : List Char → List (List Char)
  | [] => []
  | c :: rest =>
      match lines rest with
      | [] => [[c]]
      | line :: more => if endsLine c rest then [c] :: line :: more else (c :: line) :: more

/-- The byte at which the character in a line and a column begins, both counted from `1`. -/
def byteOf? (text : List Char) : (line column : Nat) → Option Nat
  | line + 1, column + 1 => do
      let here ← (lines text)[line]?
      let _ ← here[column]?
      return byteSize (((lines text).take line).flatten ++ here.take column)
  | _, _ => none

theorem lines_ne_nil {text : List Char} (nonempty : text ≠ []) : lines text ≠ [] := by
  cases text with
  | nil => exact absurd rfl nonempty
  | cons c rest =>
      rw [lines]
      split
      · exact nofun
      · split <;> exact nofun

theorem ne_nil_of_mem_lines {text line : List Char} (member : line ∈ lines text) : line ≠ [] := by
  induction text with
  | nil => cases member
  | cons c rest ih =>
      rw [lines] at member
      split at member
      · cases List.mem_singleton.mp member
        exact nofun
      · rename_i first more split
        rw [split] at ih
        split at member
        · rcases List.mem_cons.mp member with rfl | later
          · exact nofun
          · exact ih later
        · rcases List.mem_cons.mp member with rfl | later
          · exact nofun
          · exact ih (List.mem_cons_of_mem _ later)

theorem lines_cons_ends {c : Char} {rest : List Char} (nonempty : rest ≠ [])
    (ends : endsLine c rest = true) : lines (c :: rest) = [c] :: lines rest := by
  rw [lines]
  split
  · rename_i none
    exact absurd none (lines_ne_nil nonempty)
  · rename_i some
    rw [if_pos ends, some]

theorem lines_cons_stays {c : Char} {rest line : List Char} {more : List (List Char)}
    (split : lines rest = line :: more) (stays : endsLine c rest = false) :
    lines (c :: rest) = (c :: line) :: more := by
  rw [lines, split]
  simp only [stays, Bool.false_eq_true, if_false]

theorem flatten_lines (text : List Char) : (lines text).flatten = text := by
  induction text with
  | nil => rfl
  | cons c rest ih =>
      cases split : lines rest with
      | nil =>
          rw [split] at ih
          cases ih
          rfl
      | cons line more =>
          rw [split] at ih
          cases ends : endsLine c rest <;> simpa [lines, split, ends] using ih

/-- A place in a text: the lines above it, and its own line cut in front of it. -/
structure Cut (text : List Char) where
  above : List (List Char)
  front : List Char
  back : List Char
  below : List (List Char)
  cuts : lines text = above ++ (front ++ back) :: below

/-- How many characters stand before the place. -/
def Cut.index {text : List Char} (cut : Cut text) : Nat :=
  (cut.above.flatten ++ cut.front).length

theorem Cut.joined {text : List Char} (cut : Cut text) :
    (cut.above.flatten ++ cut.front) ++ (cut.back ++ cut.below.flatten) = text := by
  have whole := flatten_lines text
  rw [cut.cuts] at whole
  simpa using whole

theorem byteOf?_of_cut {text : List Char} (cut : Cut text) (inside : cut.back ≠ []) :
    byteOf? text (cut.above.length + 1) (cut.front.length + 1) =
      some (byteSize (cut.above.flatten ++ cut.front)) := by
  obtain ⟨c, back, same⟩ := List.exists_cons_of_ne_nil inside
  simp [byteOf?, cut.cuts, same]

theorem exists_cut_of_byteOf? {text : List Char} {line column byte : Nat}
    (found : byteOf? text line column = some byte) :
    ∃ cut : Cut text, line = cut.above.length + 1 ∧ column = cut.front.length + 1 ∧
      byte = byteSize (cut.above.flatten ++ cut.front) := by
  cases line with
  | zero => cases column <;> cases found
  | succ line =>
      cases column with
      | zero => cases found
      | succ column =>
          obtain ⟨here, isLine, found⟩ := Option.bind_eq_some_iff.mp found
          obtain ⟨c, isChar, same⟩ := Option.bind_eq_some_iff.mp found
          cases same
          obtain ⟨inLines, rfl⟩ := List.getElem?_eq_some_iff.mp isLine
          obtain ⟨inLine, rfl⟩ := List.getElem?_eq_some_iff.mp isChar
          refine ⟨⟨(lines text).take line, (lines text)[line].take column,
            (lines text)[line].drop column, (lines text).drop (line + 1), ?_⟩, ?_, ?_, rfl⟩
          · rw [List.take_append_drop, List.getElem_cons_drop, List.take_append_drop]
          · simp [Nat.min_eq_left (Nat.le_of_lt inLines)]
          · simp [Nat.min_eq_left (Nat.le_of_lt inLine)]

theorem Cut.index_unique {text : List Char} (a b : Cut text)
    (line : a.above.length = b.above.length) (column : a.front.length = b.front.length) :
    a.index = b.index := by
  obtain ⟨above, rest⟩ := List.append_inj (a.cuts.symm.trans b.cuts) line
  rw [index, index, List.length_append, List.length_append, above, column]

def Cut.under {c : Char} {rest : List Char} (cut : Cut rest) (nonempty : rest ≠ [])
    (ends : endsLine c rest = true) : Cut (c :: rest) where
  above := [c] :: cut.above
  front := cut.front
  back := cut.back
  below := cut.below
  cuts := by rw [lines_cons_ends nonempty ends, cut.cuts, List.cons_append]

theorem Cut.exists_along {c : Char} {rest : List Char} (cut : Cut rest)
    (stays : endsLine c rest = false) :
    ∃ longer : Cut (c :: rest), longer.index = cut.index + 1 ∧ longer.back = cut.back ∧
      longer.above.length = cut.above.length ∧
      (cut.above ≠ [] → longer.front = cut.front) := by
  obtain ⟨above, front, back, below, cuts⟩ := cut
  cases above with
  | nil =>
      refine ⟨⟨[], c :: front, back, below, ?_⟩, rfl, rfl, rfl, ?_⟩
      · exact lines_cons_stays cuts stays
      · exact fun some => absurd rfl some
  | cons first above =>
      refine ⟨⟨(c :: first) :: above, front, back, below, ?_⟩, ?_, rfl, rfl, fun _ => rfl⟩
      · exact lines_cons_stays cuts stays
      · simp only [index, List.flatten_cons, List.cons_append, List.length_cons]

/-- The search for a character finds its line, and its column as far as the line is known. The end
    of the text is found behind the last line. -/
theorem exists_cut_of_lineColumn {text : List Char} (nonempty : text ≠ [])
    {target offset : Nat} (reached : offset ≤ target) (inside : target ≤ offset + text.length)
    (line lineStart : Nat) :
    ∃ cut : Cut text, target = offset + cut.index ∧
      (target < offset + text.length → cut.back ≠ []) ∧
      lineColumn target offset line lineStart text =
        (line + cut.above.length,
          if cut.above = [] then target + 1 - lineStart else cut.front.length + 1) := by
  induction text generalizing offset line lineStart with
  | nil => exact absurd rfl nonempty
  | cons c rest ih =>
      by_cases here : offset = target
      · subst here
        obtain ⟨first, more, split⟩ := List.exists_cons_of_ne_nil (lines_ne_nil nonempty)
        refine ⟨⟨[], [], first, more, split⟩, rfl, fun _ => ?_, ?_⟩
        · exact ne_nil_of_mem_lines (split ▸ List.mem_cons_self)
        · simp [lineColumn]
      · have further : offset + 1 ≤ target := by omega
        by_cases last : rest = []
        · subst last
          refine ⟨⟨[], [c], [], [], rfl⟩, ?_, ?_, ?_⟩
          · simp only [Cut.index, List.flatten_nil, List.nil_append, List.length_singleton] at *
            omega
          · simp only [List.length_singleton] at *
            omega
          · simp [lineColumn, here]
        · have within : target ≤ offset + 1 + rest.length := by
            rw [List.length_cons] at inside
            omega
          have goesOn : (!rest.isEmpty) = true := by simpa using last
          cases ends : endsLine c rest with
          | true =>
              obtain ⟨cut, place, filled, found⟩ :=
                ih last further within (line + 1) (offset + 1)
              have index : (cut.under last ends).index = cut.index + 1 := by
                simp [Cut.index, Cut.under]
              refine ⟨cut.under last ends, by omega, ?_, ?_⟩
              · intro before
                exact filled (by rw [List.length_cons] at before; omega)
              · rw [lineColumn, if_neg here, ends, goesOn, Bool.and_true, if_pos rfl, found]
                -- In the first line behind the end, the column counts from there.
                simp only [Cut.under, List.length_cons, reduceCtorEq, if_false, Prod.mk.injEq]
                refine ⟨by omega, ?_⟩
                split
                · rename_i first
                  simp only [Cut.index, first, List.flatten_nil, List.nil_append] at place
                  omega
                · rfl
          | false =>
              obtain ⟨cut, place, filled, found⟩ := ih last further within line lineStart
              obtain ⟨longer, index, back, above, front⟩ := cut.exists_along ends
              refine ⟨longer, by omega, ?_, ?_⟩
              · intro before
                rw [back]
                exact filled (by rw [List.length_cons] at before; omega)
              · rw [lineColumn, if_neg here, ends, Bool.false_and, if_neg Bool.false_ne_true, found,
                  above]
                by_cases first : cut.above = []
                · have firstLonger : longer.above = [] :=
                    List.eq_nil_of_length_eq_zero (by rw [above, first]; rfl)
                  rw [if_pos first, if_pos firstLonger]
                · have laterLonger : longer.above ≠ [] := by
                    intro none
                    exact first (List.eq_nil_of_length_eq_zero (by rw [← above, none]; rfl))
                  rw [if_neg first, if_neg laterLonger, front first]

theorem exists_cut_of_start {text : List Char} (nonempty : text ≠ []) {start : Nat}
    (inside : start ≤ text.length) :
    ∃ cut : Cut text, cut.index = start ∧ (start < text.length → cut.back ≠ []) ∧
      lineColumn start 0 1 0 text = (cut.above.length + 1, cut.front.length + 1) := by
  obtain ⟨cut, place, filled, found⟩ :=
    exists_cut_of_lineColumn nonempty (Nat.zero_le start) (by omega) 1 0
  refine ⟨cut, by omega, fun before => filled (by omega), ?_⟩
  rw [found, Nat.add_comm 1]
  split
  · rename_i first
    simp only [Cut.index, first, List.flatten_nil, List.nil_append] at place
    rw [place, Nat.zero_add, Nat.sub_zero]
  · rfl

end Location

theorem length_le_byteSize (text : List Char) : text.length ≤ byteSize text := by
  induction text with
  | nil => exact Nat.le_refl 0
  | cons c rest ih =>
      have positive := c.utf8Size_pos
      rw [List.length_cons, byteSize]
      omega

theorem byteSize_eq_length_iff (text : List Char) :
    byteSize text = text.length ↔ ∀ c ∈ text, c.utf8Size = 1 := by
  induction text with
  | nil => simp [byteSize]
  | cons c rest ih =>
      have positive := c.utf8Size_pos
      have atLeast := length_le_byteSize rest
      rw [List.forall_mem_cons, ← ih, byteSize, List.length_cons]
      omega

/-- Of two front parts of one text with as many bytes, neither is longer. -/
theorem length_eq_of_byteSize {a b c d : List Char} (same : a ++ b = c ++ d)
    (bytes : byteSize a = byteSize c) : a.length = c.length := by
  rcases List.append_eq_append_iff.mp same with ⟨more, rfl, -⟩ | ⟨more, rfl, -⟩
  · have atLeast := length_le_byteSize more
    rw [byteSize_append] at bytes
    simp only [List.length_append]
    omega
  · have atLeast := length_le_byteSize more
    rw [byteSize_append] at bytes
    simp only [List.length_append]
    omega

section Report

variable {name source message : String} {span : Span} {before after : List Char} {c : Char}

theorem size_of_split (split : source.toList = before ++ c :: after) :
    byteSize before < source.utf8ByteSize ∧ before.length < source.toList.length := by
  have positive := c.utf8Size_pos
  rw [← byteSize_toList, split, byteSize_append, byteSize, List.length_append, List.length_cons]
  omega

/-- The span is read as one of characters, and must end in the text. -/
theorem ofMessage_eq_pointed_iff (split : source.toList = before ++ c :: after)
    (starts : span.start = byteSize before) {line column : Nat} :
    Report.ofMessage name source message (some span) =
        .pointed message (some ⟨name, line, column⟩) ↔
      span.start ≤ source.toList.length ∧
        min span.stop source.utf8ByteSize ≤ source.toList.length + 1 ∧
        Location.lineColumn span.start 0 1 0 source.toList = (line, column) := by
  have inside := size_of_split split
  have kept : min span.start source.utf8ByteSize = span.start := by omega
  simp only [Report.ofMessage, Location.ofSpan?, Location.clamp, kept, Report.pointed.injEq,
    true_and, Option.ite_none_left_eq_some, Option.some.injEq, Location.mk.injEq, Prod.ext_iff]
  generalize min span.stop source.utf8ByteSize = stop
  constructor
  · rintro ⟨shown, found⟩
    exact ⟨by omega, by omega, found⟩
  · rintro ⟨start, stop, found⟩
    exact ⟨by omega, found⟩

/-- A report about a span that starts at a character names the line and the column of that character
    exactly when all characters before it have one byte each and the end of the span, in bytes, is at
    most one more than the number of characters of the text. -/
theorem report_locates_iff (name message : String)
    (split : source.toList = before ++ c :: after) (starts : span.start = byteSize before) :
    (∃ line column,
      Report.ofMessage name source message (some span) =
        .pointed message (some ⟨name, line, column⟩) ∧
      Location.byteOf? source.toList line column = some span.start) ↔
    (∀ d ∈ before, d.utf8Size = 1) ∧
      min span.stop source.utf8ByteSize ≤ source.toList.length + 1 := by
  have inside := size_of_split split
  have nonempty : source.toList ≠ [] := by simp [split]
  rw [← byteSize_eq_length_iff]
  constructor
  · rintro ⟨line, column, reported, named⟩
    obtain ⟨start, stop, found⟩ := (ofMessage_eq_pointed_iff split starts).mp reported
    obtain ⟨cut, index, -, searched⟩ := Location.exists_cut_of_start nonempty start
    obtain ⟨place, sameLine, sameColumn, byte⟩ := Location.exists_cut_of_byteOf? named
    -- The search was for the character with that number, so that number is the one of the byte.
    have searchedHere : cut.index = place.index := by
      have both := searched.symm.trans found
      simp only [Prod.mk.injEq] at both
      exact cut.index_unique place (by omega) (by omega)
    have here : place.index = before.length :=
      length_eq_of_byteSize (place.joined.trans split) (byte.symm.trans starts)
    exact ⟨by omega, stop⟩
  · rintro ⟨single, stop⟩
    have start : span.start < source.toList.length := by omega
    obtain ⟨cut, index, filled, searched⟩ :=
      Location.exists_cut_of_start nonempty (Nat.le_of_lt start)
    have front : cut.above.flatten ++ cut.front = before :=
      (List.append_inj (cut.joined.trans split) (index.trans (by omega))).1
    refine ⟨cut.above.length + 1, cut.front.length + 1, ?_, ?_⟩
    · exact (ofMessage_eq_pointed_iff split starts).mpr ⟨by omega, stop, searched⟩
    · rw [Location.byteOf?_of_cut cut (filled start), front, starts]

end Report

/-- A wide character behind the span does no harm: the report about the `/` of `/ bé`, which is the
    second line, is right. -/
theorem report_locates_iff_slash :
    ∃ line column,
      Report.ofMessage "main.mk" "a\r\n/ bé" "m" (some ⟨3, 4⟩) =
        .pointed "m" (some ⟨"main.mk", line, column⟩) ∧
      Location.byteOf? "a\r\n/ bé".toList line column = some 3 := by
  have split : "a\r\n/ bé".toList = ['a', '\r', '\n'] ++ '/' :: [' ', 'b', 'é'] := by decide
  have single := (byteSize_eq_length_iff ['a', '\r', '\n']).mp rfl
  exact (report_locates_iff "main.mk" "m" split rfl).mpr ⟨single, by decide⟩

/-- Behind the comment `// é` the character at byte `6` is the first of the second line, and the
    report names the second. -/
theorem report_misses_behind_wide_char :
    Location.byteOf? "// é\nx".toList 2 1 = some 6 ∧
      Report.ofMessage "main.mk" "// é\nx" "m" (some ⟨6, 7⟩) =
        .pointed "m" (some ⟨"main.mk", 2, 2⟩) ∧
      Location.byteOf? "// é\nx".toList 2 2 = none := by
  decide

end TreeWalk
