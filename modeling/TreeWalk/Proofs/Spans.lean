import TreeWalk.Proofs.Lexemes
import TreeWalk.Proofs.Sequences

/-! # The text at a span

The span of a node denotes the text that the node was read from: that text alone, read where it
stands, is a program of just that node.
-/

namespace TreeWalk

open Lexer

/-- Cut a text behind its first `size` bytes, if a character ends there. -/
def splitAtByte? : (size : Nat) → List Char → Option (List Char × List Char)
  | 0, cs => some ([], cs)
  | _ + 1, [] => none
  | size + 1, c :: cs =>
      if c.utf8Size ≤ size + 1 then
        (splitAtByte? (size + 1 - c.utf8Size) cs).map fun (first, rest) => (c :: first, rest)
      else none

/-- The text at a span, if its ends lie in the source and split no character. -/
def Span.textIn? (span : Span) (source : String) : Option String :=
  if span.start ≤ span.stop then do
    let (_, rest) ← splitAtByte? span.start source.toList
    let (text, _) ← splitAtByte? (span.stop - span.start) rest
    return String.ofList text
  else none

theorem splitAtByte?_append (first rest : List Char) :
    splitAtByte? (byteSize first) (first ++ rest) = some (first, rest) := by
  induction first with
  | nil => simp [byteSize, splitAtByte?]
  | cons c first ih =>
      obtain ⟨size, positive⟩ := Nat.exists_eq_add_of_le' c.utf8Size_pos
      have total : byteSize (c :: first) = size + byteSize first + 1 := by
        rw [byteSize, positive]
        omega
      have left : size + byteSize first + 1 - c.utf8Size = byteSize first := by omega
      rw [total, List.cons_append, splitAtByte?, if_pos (by omega), left, ih]
      rfl

theorem Span.textIn?_append (before text after : List Char) :
    Span.textIn? ⟨byteSize before, byteSize before + byteSize text⟩
      (String.ofList (before ++ text ++ after)) = some (String.ofList text) := by
  have inner : byteSize before + byteSize text - byteSize before = byteSize text := by omega
  rw [Span.textIn?, if_pos (Nat.le_add_right _ _), inner, String.toList_ofList, List.append_assoc]
  simp only [splitAtByte?_append, Option.bind_eq_bind, Option.bind_some]
  rfl

theorem eq_append_of_splitAtByte? {size : Nat} {cs first rest : List Char}
    (split : splitAtByte? size cs = some (first, rest)) :
    cs = first ++ rest ∧ byteSize first = size := by
  induction cs generalizing size first with
  | nil =>
      cases size with
      | zero =>
          cases split
          exact ⟨rfl, rfl⟩
      | succ size => cases split
  | cons c cs ih =>
      cases size with
      | zero =>
          cases split
          exact ⟨rfl, rfl⟩
      | succ size =>
          rw [splitAtByte?] at split
          split at split
          · obtain ⟨⟨more, behind⟩, inner, same⟩ := Option.map_eq_some_iff.mp split
            cases same
            obtain ⟨rfl, bytes⟩ := ih inner
            refine ⟨rfl, ?_⟩
            rw [byteSize, bytes]
            omega
          · cases split

theorem Span.exists_of_textIn? {span : Span} {source text : String}
    (found : span.textIn? source = some text) :
    ∃ before after, source.toList = before ++ text.toList ++ after ∧
      span = ⟨byteSize before, byteSize before + byteSize text.toList⟩ := by
  unfold Span.textIn? at found
  split at found
  · obtain ⟨⟨before, rest⟩, front, found⟩ := Option.bind_eq_some_iff.mp found
    obtain ⟨⟨mid, after⟩, inner, found⟩ := Option.bind_eq_some_iff.mp found
    cases found
    obtain ⟨whole, start⟩ := eq_append_of_splitAtByte? front
    obtain ⟨rfl, size⟩ := eq_append_of_splitAtByte? inner
    rw [String.toList_ofList, size]
    refine ⟨before, after, by rw [whole, List.append_assoc], ?_⟩
    rw [start, Nat.add_sub_cancel' ‹_›]
  · cases found

theorem Span.textIn?_bounds {span : Span} {source text : String}
    (found : span.textIn? source = some text) :
    span.start ≤ span.stop ∧ span.stop ≤ source.utf8ByteSize := by
  obtain ⟨before, after, whole, rfl⟩ := Span.exists_of_textIn? found
  have size := congrArg byteSize whole
  rw [byteSize_append, byteSize_append, byteSize_toList] at size
  dsimp only
  omega

/-- More text behind does not change what stands at a span. -/
theorem Span.textIn?_more {span : Span} {source text : String}
    (found : span.textIn? source = some text) (more : String) :
    span.textIn? (source ++ more) = some text := by
  obtain ⟨before, after, whole, rfl⟩ := Span.exists_of_textIn? found
  have longer : source ++ more =
      String.ofList (before ++ text.toList ++ (after ++ more.toList)) := by
    rw [← List.append_assoc, ← whole, String.ofList_append, String.ofList_toList,
      String.ofList_toList]
  rw [longer, Span.textIn?_append, String.ofList_toList]

theorem wordKind_ne_end (word : List Char) : wordKind word ≠ .endOfInput := by
  unfold wordKind
  split <;> rintro ⟨⟩

theorem symbolKind?_ne_end (symbol : List Char) : symbolKind? symbol ≠ some .endOfInput := by
  unfold symbolKind?
  split <;> rintro ⟨⟩

theorem classify_ne_end (shape : Shape) (c : Char) (tail : List Char) :
    classify shape c tail ≠ some (.ok .endOfInput) := by
  cases shape with
  | skipped => rintro ⟨⟩
  | number =>
      dsimp only [classify]
      split <;> rintro ⟨⟩
  | word => simpa [classify] using wordKind_ne_end (c :: tail)
  | symbol =>
      dsimp only [classify]
      split
      · rename_i kind found
        rintro ⟨⟩
        exact symbolKind?_ne_end _ found
      · rintro ⟨⟩

theorem lexemes_ne_end (offset : Nat) (text : List Char) :
    ∀ l ∈ lexemes offset text, l.reading ≠ .ok .endOfInput := by
  induction text using lexeme_induction generalizing offset with
  | nil => simp
  | blank c rest blank ih =>
      rw [lexemes_blank blank]
      exact ih _
  | solid c rest solid ih =>
      rw [lexemes_cons]
      intro l member
      rcases List.mem_append.mp member with first | later
      · obtain ⟨reading, found, rfl⟩ := List.mem_map.mp first
        rintro rfl
        exact classify_ne_end _ _ _ (Option.mem_toList.mp found)
      · exact ih _ l later

section Tokens

variable {offset : Nat} {text : List Char} {ts : List Token}

theorem noEnd_of_lexemes (cut : lexemes offset text = ts.map Token.lexeme) :
    ∀ t ∈ ts, t.kind ≠ .endOfInput := by
  intro t member ended
  have found := List.mem_map_of_mem (f := Token.lexeme) member
  rw [← cut] at found
  exact lexemes_ne_end offset text _ found (by rw [Token.lexeme, ended])

theorem ordered_of_lexemes (cut : lexemes offset text = ts.map Token.lexeme) : Ordered ts := by
  obtain ⟨inside, apart⟩ := lexemes_ordered offset text
  rw [cut] at inside apart
  refine ⟨fun t member => ?_, List.pairwise_map.mp apart⟩
  exact Nat.le_of_lt (inside _ (List.mem_map_of_mem member)).2.1

def Token.moved (t : Token) (distance : Nat) : Token :=
  { t with span := ⟨t.span.start + distance, t.span.stop + distance⟩ }

theorem exists_tokens_of_moved {ls : List Lexeme} {distance : Nat}
    (moved : ls.map (·.moved distance) = ts.map Token.lexeme) :
    ∃ us : List Token, ls = us.map Token.lexeme ∧ ts = us.map (·.moved distance) := by
  induction ls generalizing ts with
  | nil => exact ⟨[], rfl, by simpa [eq_comm] using moved⟩
  | cons l ls ih =>
      cases ts with
      | nil => cases moved
      | cons t ts =>
          obtain ⟨first, later⟩ := List.cons.inj moved
          obtain ⟨us, rfl, rfl⟩ := ih later
          obtain ⟨⟨start, stop⟩, reading⟩ := l
          obtain ⟨kind, span⟩ := t
          simp only [Lexeme.moved, Token.lexeme, Lexeme.mk.injEq] at first
          obtain ⟨rfl, rfl⟩ := first
          exact ⟨⟨kind, ⟨start, stop⟩⟩ :: us, rfl, rfl⟩

theorem faultsIn_moved (ls : List Lexeme) (distance : Nat) :
    faultsIn (ls.map (·.moved distance)) = (faultsIn ls).map fun fault =>
      { fault with span := ⟨fault.span.start + distance, fault.span.stop + distance⟩ } := by
  induction ls with
  | nil => rfl
  | cons l ls ih =>
      obtain ⟨span, cause | kind⟩ := l
      · exact congrArg _ ih
      · exact ih

theorem exists_of_mem_faultsIn {ls : List Lexeme} {fault : LexicalFault}
    (member : fault ∈ faultsIn ls) : ∃ l ∈ ls, l.span = fault.span := by
  obtain ⟨⟨span, cause | kind⟩, inside, same⟩ := List.mem_filterMap.mp member
  · cases same
    exact ⟨_, inside, rfl⟩
  · cases same

/-- Nothing is cut off when a span is moved to a place that can be addressed. -/
theorem Span.shifted_of_fits {span : Span} (forward : span.start ≤ span.stop)
    (fits : offset + span.stop ≤ Span.maxOffset) :
    span.shifted offset = ⟨span.start + offset, span.stop + offset⟩ := by
  have start : span.start + offset ≤ Span.maxOffset := by omega
  have stop : span.stop + offset ≤ Span.maxOffset := by omega
  rw [Span.shifted, Nat.min_eq_left start, Nat.min_eq_left stop]

end Tokens

def endMarker (offset : Nat) (text : String) : Span :=
  ⟨offset + text.utf8ByteSize, offset + text.utf8ByteSize⟩

section Parse

variable {source : String} (fits : source.utf8ByteSize ≤ Span.maxOffset)

include fits

theorem parse_of_tokens {ts : List Token} (cut : lexemes 0 source.toList = ts.map Token.lexeme) :
    parse source = parseTokens (ts ++ [⟨.endOfInput, endMarker 0 source⟩]) := by
  rw [parse, lex_of_tokens fits cut, endMarker, Nat.zero_add]

theorem parse_of_faults (faulty : faultsIn (lexemes 0 source.toList) ≠ []) :
    parse source = .error ((faultsIn (lexemes 0 source.toList)).map SyntaxFault.ofLexical) := by
  rw [parse, lex_of_faults fits faulty]

end Parse

theorem parse_eq_ok_iff {source : String} {p : Program} :
    parse source = .ok p ↔ source.utf8ByteSize ≤ Span.maxOffset ∧
      ∃ ts : List Token, lexemes 0 source.toList = ts.map Token.lexeme ∧
        parseTokens (ts ++ [⟨.endOfInput, endMarker 0 source⟩]) = .ok p := by
  constructor
  · intro parsed
    cases lexed : lex source with
    | error faults => simp [parse, lexed] at parsed
    | ok tokens =>
        obtain ⟨fits, ts, cut, rfl⟩ := lex_eq_ok_iff.mp lexed
        exact ⟨fits, ts, cut, (parse_of_tokens fits cut).symm.trans parsed⟩
  · rintro ⟨fits, ts, cut, parsed⟩
    exact (parse_of_tokens fits cut).trans parsed

section ParseAt

variable {text : String} {offset : Nat} (fits : offset + text.utf8ByteSize ≤ Span.maxOffset)

include fits

theorem shifted_of_mem_lexemes {l : Lexeme} (member : l ∈ lexemes 0 text.toList) :
    l.span.shifted offset = ⟨l.span.start + offset, l.span.stop + offset⟩ := by
  obtain ⟨_, forward, inside⟩ := (lexemes_ordered 0 text.toList).1 l member
  rw [byteSize_toList] at inside
  exact Span.shifted_of_fits (Nat.le_of_lt forward) (by omega)

/-- A text is read where it stands by its lexemes there. -/
theorem parseAt_of_tokens {ts : List Token}
    (cut : lexemes offset text.toList = ts.map Token.lexeme) :
    parseAt text offset = parseTokens (ts ++ [⟨.endOfInput, endMarker offset text⟩]) := by
  obtain ⟨us, unmoved, rfl⟩ := exists_tokens_of_moved ((lexemes_from ..).symm.trans cut)
  have marker : Span.shifted ⟨text.utf8ByteSize, text.utf8ByteSize⟩ offset =
      endMarker offset text := by
    rw [endMarker, Nat.add_comm offset]
    exact Span.shifted_of_fits (Nat.le_refl _) fits
  rw [parseAt, lex_of_tokens (Nat.le_of_add_left_le fits) unmoved]
  simp only [List.map_append, List.map_singleton, marker]
  congr 2
  refine List.map_congr_left fun t member => ?_
  have inside := List.mem_map_of_mem (f := Token.lexeme) member
  rw [← unmoved] at inside
  exact congrArg (Token.mk t.kind) (shifted_of_mem_lexemes fits inside)

theorem parseAt_of_faults (faulty : faultsIn (lexemes offset text.toList) ≠ []) :
    parseAt text offset =
      .error ((faultsIn (lexemes offset text.toList)).map SyntaxFault.ofLexical) := by
  rw [lexemes_from, faultsIn_moved] at faulty ⊢
  rw [parseAt, lex_of_faults (Nat.le_of_add_left_le fits) (by simpa using faulty)]
  refine congrArg Except.error ?_
  rw [List.map_map]
  refine List.map_congr_left fun fault member => ?_
  obtain ⟨l, inside, same⟩ := exists_of_mem_faultsIn member
  have places := shifted_of_mem_lexemes fits inside
  rw [same] at places
  simp only [SyntaxFault.shifted, SyntaxFault.ofLexical, Function.comp_apply, places]

theorem parseAt_eq_ok_iff {p : Program} :
    parseAt text offset = .ok p ↔
      ∃ ts : List Token, lexemes offset text.toList = ts.map Token.lexeme ∧
        parseTokens (ts ++ [⟨.endOfInput, endMarker offset text⟩]) = .ok p := by
  constructor
  · intro parsed
    by_cases clean : faultsIn (lexemes offset text.toList) = []
    · obtain ⟨ts, cut⟩ := faultsIn_eq_nil_iff.mp clean
      exact ⟨ts, cut, (parseAt_of_tokens fits cut).symm.trans parsed⟩
    · cases (parseAt_of_faults fits clean).symm.trans parsed
  · rintro ⟨ts, cut, parsed⟩
    exact (parseAt_of_tokens fits cut).trans parsed

end ParseAt

/-- The text at the span of the statement, read where it stands, is the program of just that
    statement. -/
def Stmt.DenotedIn (t : Stmt) (source : String) : Prop :=
  ∃ text, t.span.textIn? source = some text ∧ parseAt text t.span.start = .ok ⟨[t]⟩

theorem Stmt.DenotedIn.more {t : Stmt} {source : String} (denoted : t.DenotedIn source)
    (behind : String) : t.DenotedIn (source ++ behind) := by
  obtain ⟨text, found, read⟩ := denoted
  exact ⟨text, Span.textIn?_more found behind, read⟩

/-- Whatever is read from a stretch of the tokens of a text is denoted there, with all that stands
    in front of the text. -/
theorem denotedIn_of_spelled {before text : String} {ts v : List Token} {t : Stmt}
    (fits : before.utf8ByteSize + text.utf8ByteSize ≤ Span.maxOffset)
    (cut : lexemes before.utf8ByteSize text.toList = ts.map Token.lexeme) (stretch : v <:+: ts)
    (spelled : Rule.Spelled v t) : t.DenotedIn (before ++ text) := by
  obtain ⟨x, y, rfl⟩ := stretch
  simp only [List.map_append] at cut
  obtain ⟨left, mid, right, split, inner, start, stop⟩ :=
    exists_stretch cut (by simpa using spelled.nonempty)
  have ordered := ordered_of_lexemes inner
  have front : byteSize (before.toList ++ left) = before.utf8ByteSize + byteSize left := by
    rw [byteSize_append, byteSize_toList]
  have span : t.span = ⟨byteSize (before.toList ++ left),
      byteSize (before.toList ++ left) + byteSize mid⟩ := by
    obtain ⟨first, head⟩ := Option.isSome_iff_exists.mp (List.isSome_head?.mpr spelled.nonempty)
    obtain ⟨last, tail⟩ := Option.isSome_iff_exists.mp (List.getLast?_isSome.mpr spelled.nonempty)
    have starts := start first.lexeme (by rw [List.head?_map, head]; rfl)
    have stops := stop last.lexeme (by rw [List.getLast?_map, tail]; rfl)
    rw [spelled.spanned ordered, front]
    simp only [cover, head, tail, Option.elim_some]
    exact congrArg₂ Span.mk starts stops
  have size : byteSize (before.toList ++ left) + (String.ofList mid).utf8ByteSize ≤
      Span.maxOffset := by
    have total := congrArg byteSize split
    rw [byteSize_append, byteSize_append, byteSize_toList] at total
    rw [front, ← byteSize_toList (String.ofList mid), String.toList_ofList]
    omega
  refine ⟨String.ofList mid, ?_, ?_⟩
  · have whole : before ++ text = String.ofList (before.toList ++ left ++ mid ++ right) := by
      rw [List.append_assoc, List.append_assoc, ← List.append_assoc left, ← split,
        String.ofList_append, String.ofList_toList, String.ofList_toList]
    rw [whole, span]
    exact Span.textIn?_append _ _ _
  · rw [span]
    refine (parseAt_eq_ok_iff size).mpr ⟨v, ?_, ?_⟩
    · rw [front, String.toList_ofList, inner]
    · have noEnd := noEnd_of_lexemes inner
      obtain ⟨c', passes, ended⟩ := Cursor.start_passes noEnd
      obtain ⟨need, alone⟩ := spelled.alone
      exact (parseTokens_iff_reads noEnd).mpr
        ⟨c', .cons (alone (Nat.le_refl need) passes ended) .nil, ended⟩

/-- Every expression and every statement of a program that stands behind some text is denoted by its
    span. -/
theorem denotedIn_of_parseAt {before text : String} {p : Program} {node : Node} {t : Stmt}
    (fits : before.utf8ByteSize + text.utf8ByteSize ≤ Span.maxOffset)
    (parsed : parseAt text before.utf8ByteSize = .ok p) (within : Node.Within node (.program p))
    (stands : node.statement? = some t) : t.DenotedIn (before ++ text) := by
  obtain ⟨ts, cut, parsed⟩ := (parseAt_eq_ok_iff fits).mp parsed
  have noEnd := noEnd_of_lexemes cut
  obtain ⟨laid, -⟩ := repeats_of_parseTokens noEnd parsed
  rcases Relation.ReflTransGen.cases_tail within with rfl | ⟨child, inside, member⟩
  · cases stands
  · obtain ⟨s, held, rfl⟩ := List.mem_map.mp member
    obtain ⟨v, stretch, spelled⟩ := laid s held node inside t stands
    exact denotedIn_of_spelled fits cut stretch spelled

theorem parseAt_zero_of_parse {source : String} {p : Program} (parsed : parse source = .ok p) :
    source.utf8ByteSize ≤ Span.maxOffset ∧ parseAt source 0 = .ok p := by
  obtain ⟨fits, ts, cut, parsed⟩ := parse_eq_ok_iff.mp parsed
  exact ⟨fits, (parseAt_eq_ok_iff (by omega)).mpr ⟨ts, cut, parsed⟩⟩

/-- Every span of a program denotes exactly its own node: the text at the span of an expression, at
    any depth, is read where it stands as that expression and nothing else, and the text at the span
    of a statement as that statement. -/
theorem parseAt_textIn_span {source : String} {p : Program} (parsed : parse source = .ok p) :
    (∀ e, Node.Within (.expression e) (.program p) → ∃ text, e.span.textIn? source = some text ∧
      parseAt text e.span.start = .ok ⟨[.expr e.span e]⟩) ∧
    ∀ t, Node.Within (.statement t) (.program p) → ∃ text, t.span.textIn? source = some text ∧
      parseAt text t.span.start = .ok ⟨[t]⟩ := by
  obtain ⟨fits, parsed⟩ := parseAt_zero_of_parse parsed
  have denoted {node : Node} {t : Stmt} (within : Node.Within node (.program p))
      (stands : node.statement? = some t) : t.DenotedIn source := by
    have found : t.DenotedIn ("" ++ source) :=
      denotedIn_of_parseAt (by simpa using fits) parsed within stands
    rwa [String.empty_append] at found
  exact ⟨fun e within => denoted within rfl, fun t within => denoted within rfl⟩

/-- In `-(a)*b` the left operand of the product stands for `-(a)`. -/
theorem parseAt_textIn_span_product :
    ∃ text, Span.textIn? ⟨0, 4⟩ "-(a)*b" = some text ∧
      parseAt text 0 = .ok ⟨[.expr ⟨0, 4⟩ (.unary ⟨0, 4⟩ .neg (.ident ⟨1, 4⟩ "a"))]⟩ := by
  have lexed : lex "-(a)*b" = .ok [⟨.minus, ⟨0, 1⟩⟩, ⟨.leftParen, ⟨1, 2⟩⟩, ⟨.ident "a", ⟨2, 3⟩⟩,
      ⟨.rightParen, ⟨3, 4⟩⟩, ⟨.star, ⟨4, 5⟩⟩, ⟨.ident "b", ⟨5, 6⟩⟩, ⟨.endOfInput, ⟨6, 6⟩⟩] := by
    decide +kernel
  have parsed : parse "-(a)*b" = .ok ⟨[.expr ⟨0, 6⟩ (.binary ⟨0, 6⟩ .mul
      (.unary ⟨0, 4⟩ .neg (.ident ⟨1, 4⟩ "a")) (.ident ⟨5, 6⟩ "b"))]⟩ := by
    rw [parse, lexed]
    rfl
  refine (parseAt_textIn_span parsed).1 (.unary ⟨0, 4⟩ .neg (.ident ⟨1, 4⟩ "a")) ?_
  exact .tail (.tail (.tail .refl List.mem_cons_self) List.mem_cons_self) List.mem_cons_self

end TreeWalk
