import TreeWalk.Proofs.Displacement
import TreeWalk.Proofs.Walk

/-! # Programs behind one another

A text that ends with its line and whose last token is a semicolon can be read on its own or in
front of any other text: the statements of both texts together are those of each, with the same
spans. And evaluation of two lists of statements is evaluation of the second behind the first.
-/

namespace TreeWalk

open Lexer

/-- Is the last token of the text, if it has any, a semicolon? -/
def closedBySemicolon (text : String) : Bool :=
  match lex text with
  | .error _ => false
  | .ok tokens => tokens.dropLast.getLast?.all fun t => t.kind = .semicolon

theorem semicolon_of_closed {text : String} {offset : Nat} {ts : List Token}
    (closed : closedBySemicolon text = true)
    (cut : lexemes offset text.toList = ts.map Token.lexeme) :
    ∀ t ∈ ts.getLast?, t.kind = .semicolon := by
  unfold closedBySemicolon at closed
  split at closed
  · cases closed
  · rename_i tokens lexed
    obtain ⟨_, us, unmoved, rfl⟩ := lex_eq_ok_iff.mp lexed
    obtain ⟨vs, same, rfl⟩ := exists_tokens_of_moved ((lexemes_from ..).symm.trans cut)
    have alike : us = vs := by
      refine (List.map_inj_right ?_).mp (unmoved.symm.trans same)
      rintro ⟨kind, span⟩ ⟨kind', span'⟩ equal
      cases equal
      rfl
    subst alike
    intro t last
    rw [List.getLast?_map] at last
    obtain ⟨s, found, rfl⟩ := Option.map_eq_some_iff.mp last
    simpa [List.dropLast_concat, found, Token.moved] using closed

/-- Whether a text can be read, and as how many statements, does not depend on where it stands. -/
theorem exists_parseAt_of_parse {text : String} {p : Program} (offset : Nat)
    (parsed : parse text = .ok p) : ∃ q, parseAt text offset = .ok q ∧ q.bare = p.bare :=
  ⟨_, parseAt_of_parse offset parsed, p.bare_mapSpans _⟩

theorem Program.statements_ne_nil_of_bare {p q : Program} (same : q.bare = p.bare)
    (nonempty : p.statements ≠ []) : q.statements ≠ [] := by
  obtain ⟨ts⟩ := p
  obtain ⟨us⟩ := q
  cases ts with
  | nil => exact absurd rfl nonempty
  | cons t ts =>
      rintro rfl
      cases congrArg statements same

/-- Texts behind one another are read one after the other. -/
theorem parseTokens_append {us vs : List Token} {stop stop' stop'' : Span} {p q : Program}
    (noEnd : ∀ t ∈ us ++ vs, t.kind ≠ .endOfInput)
    (closing : ∀ t ∈ us.getLast?, t.kind = .semicolon)
    (first : parseTokens (us ++ [⟨.endOfInput, stop⟩]) = .ok p)
    (second : parseTokens (vs ++ [⟨.endOfInput, stop'⟩]) = .ok q) :
    parseTokens (us ++ vs ++ [⟨.endOfInput, stop''⟩]) = .ok ⟨p.statements ++ q.statements⟩ := by
  obtain ⟨noEndFirst, noEndSecond⟩ := List.forall_mem_append.mp noEnd
  obtain ⟨c', passes, ended⟩ := Cursor.start_passes noEnd
  obtain ⟨mid, passesFirst, passesSecond⟩ := passes.split
  refine (parseTokens_iff_reads noEnd).mpr ⟨c', ?_, ended⟩
  have reads : (Cursor.start (us ++ vs) stop'').Reads p.statements mid := by
    refine (repeats_of_parseTokens noEndFirst first).2 passesFirst ?_
    intro nonempty open_
    obtain ⟨t, last⟩ := Option.isSome_iff_exists.mp (List.getLast?_isSome.mpr nonempty)
    exact absurd (closing t last) (open_ t last)
  exact reads.append ((repeats_of_parseTokens noEndSecond second).2 passesSecond fun _ _ => ended)

section Evaluation

variable {call : Call} {scope : ScopeId} {m m' : Machine} {last v : Value} {ts us : List Stmt}

theorem Stmt.evalAll_append (ran : Stmt.evalAll call scope last ts m = some (v, m'))
    (plain : v.isSignal = false) :
    Stmt.evalAll call scope last (ts ++ us) m = Stmt.evalAll call scope v us m' := by
  induction ts generalizing last m with
  | nil =>
      cases ran
      rfl
  | cons t ts ih =>
      rw [Stmt.evalAll] at ran
      rw [List.cons_append, Stmt.evalAll]
      cases begun : t.eval call scope m with
      | none =>
          rw [Run.plainly_none begun] at ran
          cases ran
      | some result =>
          obtain ⟨w, mid⟩ := result
          cases kind : w.isSignal with
          | true =>
              rw [Run.plainly_signal begun kind] at ran
              cases ran
              rw [kind] at plain
              cases plain
          | false =>
              rw [Run.plainly_plain begun kind] at ran ⊢
              exact ih ran

theorem Stmt.evalAll_of_ne_nil (nonempty : us ≠ []) (w : Value) :
    Stmt.evalAll call scope v us = Stmt.evalAll call scope w us := by
  cases us with
  | nil => exact absurd rfl nonempty
  | cons t us => rfl

end Evaluation

end TreeWalk
