import TreeWalk.Parser
import TreeWalk.Proofs.Grammar

/-! # What a cursor shows

Rules see tokens through a cursor. `Cursor.Shows c kinds` names the tokens from the cursor up to the
first end marker, and says that there is one. Each basic rule is described here once in these terms,
in both directions: what a successful reading says about the tokens, and which tokens make the
reading succeed. Nothing later opens a cursor.
-/

namespace TreeWalk

open Grammar (next)

/-- The tokens from the cursor up to the first end marker are of these kinds. -/
def Cursor.Shows (c : Cursor) : List TokenKind → Prop
  | [] => c.current.kind = .endOfInput
  | kind :: rest => c.current.kind = kind ∧ kind ≠ .endOfInput ∧ c.advance.Shows rest

theorem Cursor.atEnd_iff_kind {c : Cursor} :
    c.atEnd = true ↔ c.current.kind = .endOfInput := by
  simp [Cursor.atEnd, Token.isEnd]

namespace Cursor.Shows

variable {c : Cursor} {kind : TokenKind} {kinds : List TokenKind}

theorem current (shows : c.Shows kinds) : c.current.kind = next kinds := by
  cases kinds with
  | nil => exact shows
  | cons _ _ => exact shows.1

theorem advance (shows : c.Shows (kind :: kinds)) : c.advance.Shows kinds := shows.2.2

theorem exists_cons (shows : c.Shows kinds) (here : c.current.kind = kind)
    (notEnd : kind ≠ .endOfInput) : ∃ rest, kinds = kind :: rest ∧ c.advance.Shows rest := by
  cases kinds with
  | nil => exact absurd (here.symm.trans shows) notEnd
  | cons head rest =>
      obtain ⟨same, _, behind⟩ := shows
      exact ⟨rest, by rw [← here, same], behind⟩

theorem atEnd_iff (shows : c.Shows kinds) : c.atEnd = true ↔ kinds = [] := by
  rw [atEnd_iff_kind]
  cases kinds with
  | nil => exact iff_of_true shows rfl
  | cons head rest =>
      obtain ⟨here, notEnd, _⟩ := shows
      exact iff_of_false (here ▸ notEnd) (List.cons_ne_nil _ _)

end Cursor.Shows

/-- A cursor at the start of tokens without an end marker, closed by one, shows all of them. -/
theorem Cursor.shows_of_tokens (ts : List Token) (stop : Span) (position : Nat) (previous : Span)
    (current : Token) (rest : List Token)
    (tokens : ts ++ [⟨.endOfInput, stop⟩] = current :: rest)
    (noEnd : ∀ t ∈ ts, t.kind ≠ .endOfInput) :
    (Cursor.mk position previous current rest).Shows (ts.map Token.kind) := by
  induction ts generalizing position previous current rest with
  | nil =>
      obtain ⟨rfl, rfl⟩ := List.cons.inj tokens
      rfl
  | cons t ts ih =>
      obtain ⟨rfl, rfl⟩ := List.cons.inj tokens
      have notEnd : t.kind ≠ .endOfInput := noEnd t List.mem_cons_self
      refine ⟨rfl, notEnd, ?_⟩
      cases behind : ts ++ [⟨.endOfInput, stop⟩] with
      | nil => simp at behind
      | cons head more =>
          have later := ih (position + 1) t.span head more behind
            (fun u member => noEnd u (List.mem_cons_of_mem t member))
          simpa [Cursor.advance, Cursor.atEnd, Token.isEnd, notEnd, behind] using later

theorem TokenKind.sameClass_iff {found kind : TokenKind} (fixed : kind.spelling?.isSome) :
    found.sameClass kind = true ↔ found = kind := by
  cases kind <;> simp [TokenKind.spelling?] at fixed <;> cases found <;>
    simp [TokenKind.sameClass]

namespace Rule

variable {α β : Type} {c c' : Cursor} {kind : TokenKind} {kinds : List TokenKind}

theorem bind_eq_ok {rule : Rule α} {after : α → Rule β} {b : β} :
    (rule >>= after) c = .ok b c' ↔ ∃ a mid, rule c = .ok a mid ∧ after a mid = .ok b c' := by
  change EStateM.bind rule after c = _ ↔ _
  unfold EStateM.bind
  cases rule c with
  | ok a mid =>
      constructor
      · exact fun read => ⟨a, mid, rfl, read⟩
      · rintro ⟨a, mid, same, read⟩
        cases same
        exact read
  | error fault mid => simp

theorem bind_of_ok {rule : Rule α} {after : α → Rule β} {a : α} (read : rule c = .ok a c') :
    (rule >>= after) c = after a c' := by
  change EStateM.bind rule after c = _
  simp only [EStateM.bind, read]

theorem pure_eq_ok {a b : α} : (pure a : Rule α) c = .ok b c' ↔ a = b ∧ c = c' := by
  change EStateM.Result.ok a c = _ ↔ _
  simp

theorem current_eq_ok {t : Token} : current c = .ok t c' ↔ c.current = t ∧ c = c' := by
  simp [current]

theorem previous_eq_ok {span : Span} : previous c = .ok span c' ↔ c.previous = span ∧ c = c' := by
  simp [previous]

theorem advance_eq_ok {span : Span} :
    advance c = .ok span c' ↔ c.current.span = span ∧ c.advance = c' := by
  simp [advance]

theorem current_ok : current c = .ok c.current c := rfl

theorem previous_ok : previous c = .ok c.previous c := rfl

theorem advance_ok : advance c = .ok c.current.span c.advance := rfl

theorem noExpression_ne_ok {a : α} : noExpression c ≠ .ok a c' := by
  simp [noExpression]

theorem within_eq_ok {construct : Construct} {rule : Rule α} {a : α} :
    within construct rule c = .ok a c' ↔ rule c = .ok a c' := by
  unfold within
  cases rule c <;> simp

theorem expect_ok {construct : Construct} {span : Span} (fixed : kind.spelling?.isSome)
    (shows : c.Shows kinds) (read : expect kind construct c = .ok span c') :
    ∃ rest, kinds = kind :: rest ∧ c'.Shows rest := by
  unfold expect Cursor.expect Cursor.check at read
  by_cases here : c.current.kind.sameClass kind = true
  · simp only [here, if_true, EStateM.Result.ok.injEq] at read
    obtain ⟨-, rfl⟩ := read
    have same := (TokenKind.sameClass_iff fixed).mp here
    exact shows.exists_cons same (by rintro rfl; cases fixed)
  · simp [here] at read

theorem expect_of_shows (construct : Construct) (fixed : kind.spelling?.isSome)
    (shows : c.Shows (kind :: kinds)) :
    expect kind construct c = .ok c.current.span c.advance := by
  have here : c.current.kind.sameClass kind = true :=
    (TokenKind.sameClass_iff fixed).mpr shows.1
  simp [expect, Cursor.expect, Cursor.check, here]

theorem expectName_ok {construct : Construct} {name : String} (shows : c.Shows kinds)
    (read : expectName construct c = .ok name c') :
    ∃ rest, kinds = .ident name :: rest ∧ c'.Shows rest := by
  unfold expectName Cursor.expectName at read
  split at read
  · rename_i found
    split at found
    · rename_i here
      cases found
      cases read
      exact shows.exists_cons here (by simp)
    · cases found
  · cases read

theorem expectName_of_shows (construct : Construct) {name : String}
    (shows : c.Shows (.ident name :: kinds)) :
    expectName construct c = .ok name c.advance := by
  simp [expectName, Cursor.expectName, shows.1]

theorem eat_ok {ate : Bool} (fixed : kind.spelling?.isSome) (shows : c.Shows kinds)
    (read : eat kind c = .ok ate c') :
    (ate = true ∧ ∃ rest, kinds = kind :: rest ∧ c'.Shows rest) ∨
      (ate = false ∧ next kinds ≠ kind ∧ c'.Shows kinds) := by
  unfold eat Cursor.eat Cursor.check at read
  by_cases here : c.current.kind.sameClass kind = true
  · simp only [here, if_true, EStateM.Result.ok.injEq] at read
    obtain ⟨rfl, rfl⟩ := read
    have same := (TokenKind.sameClass_iff fixed).mp here
    exact .inl ⟨rfl, shows.exists_cons same (by rintro rfl; cases fixed)⟩
  · simp only [here, Bool.false_eq_true, if_false, EStateM.Result.ok.injEq] at read
    obtain ⟨rfl, rfl⟩ := read
    refine .inr ⟨rfl, ?_, shows⟩
    rw [← shows.current]
    exact fun same => here ((TokenKind.sameClass_iff fixed).mpr same)

theorem eat_of_shows (fixed : kind.spelling?.isSome) (shows : c.Shows (kind :: kinds)) :
    eat kind c = .ok true c.advance := by
  have here : c.current.kind.sameClass kind = true :=
    (TokenKind.sameClass_iff fixed).mpr shows.1
  simp [eat, Cursor.eat, Cursor.check, here]

theorem eat_of_ne (fixed : kind.spelling?.isSome) (shows : c.Shows kinds)
    (other : next kinds ≠ kind) : eat kind c = .ok false c := by
  have here : c.current.kind.sameClass kind ≠ true := by
    rw [Ne, TokenKind.sameClass_iff fixed, shows.current]
    exact other
  simp [eat, Cursor.eat, Cursor.check, here]

end Rule

end TreeWalk
