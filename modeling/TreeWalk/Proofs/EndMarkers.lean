import TreeWalk.Proofs.Progress

/-! # Tokens behind the first end marker

No cursor goes beyond the first end marker, so nothing that stands behind it is ever read. The parser
gives the same program, or the same faults, whatever stands there, although it counts these tokens
into its allowance.
-/

namespace TreeWalk

namespace Cursor

variable {n n' : Nat} {c d : Cursor} {ts : List Stmt} {stalls : List (SyntaxFault × Cursor)}
  {u more : List Token} {stop : Token}

theorem notEnd_of_ahead (some : u ≠ []) (noEnd : ∀ t ∈ u, t.kind ≠ .endOfInput)
    (tokens : c.ahead = u ++ more) : c.current.kind ≠ .endOfInput := by
  obtain ⟨t, u, rfl⟩ := List.exists_cons_of_ne_nil some
  obtain ⟨rfl, -⟩ := List.cons.inj tokens
  exact noEnd c.current List.mem_cons_self

/-- A trail up to an end marker is the same if other tokens stand behind that marker. -/
theorem Trail.again (trail : c.Trail n ts stalls) (larger : n ≤ n') (enough : c.need 0 1 ≤ n)
    (noEnd : ∀ t ∈ u, t.kind ≠ .endOfInput) (last : stop.kind = .endOfInput)
    (tokens : c.ahead = u ++ [stop]) (elsewhere : d.ahead = u ++ stop :: more) :
    ∃ stalls', d.Trail n' ts stalls' ∧ stalls'.map Prod.fst = stalls.map Prod.fst := by
  have closed' : d.Closed := closed_of_ahead noEnd elsewhere last
  -- Behind tokens that were consumed less is needed.
  have spares {c mid : Cursor} {v w : List Token} (tokens : c.ahead = v ++ w ++ [stop])
      (behind : mid.ahead = w ++ [stop]) (enough : c.need 0 1 ≤ n) : mid.need 0 1 ≤ n := by
    refine Nat.le_trans (need_mono ?_) enough
    rw [tokens, behind, List.append_assoc]
    exact (List.suffix_append v _).length_le
  induction trail generalizing u d with
  | @ended c here =>
      cases u with
      | nil =>
          obtain ⟨rfl, -⟩ := List.cons.inj elsewhere
          exact ⟨[], .ended last, rfl⟩
      | cons t u => exact absurd here (notEnd_of_ahead (List.cons_ne_nil t u) noEnd tokens)
  | @read c mid t ts stalls notEnd ran _ ih =>
      have closed : c.Closed := closed_of_ahead noEnd tokens last
      obtain ⟨v, passes, nonempty, again⟩ := Rule.statement_reads_again closed ran larger
      obtain ⟨w, rfl, behind⟩ := passes.exists_rest tokens
      have severed : Severed (v ++ w) stop [] (stop :: more) := .inl rfl
      rw [List.append_assoc] at elsewhere
      obtain ⟨mid', ran', passes'⟩ := again passes.noEnd elsewhere (by simp)
        (severed.follows nonempty behind)
      obtain ⟨stalls', trail, same⟩ := ih (spares tokens behind enough)
        (List.forall_mem_append.mp noEnd).2 behind (passes'.ahead_of_append elsewhere)
        (passes'.closed closed')
      exact ⟨stalls', .read (notEnd_of_ahead nonempty passes.noEnd elsewhere) ran' trail, same⟩
  | @skip c mid fault ts stalls notEnd failed _ ih =>
      obtain ⟨v, w, rfl, nonempty, behind, again⟩ :=
        (Round.skip failed).again notEnd larger enough noEnd last tokens
      obtain ⟨next, round, closedLater, later⟩ := again closed' elsewhere (by simp) (.inl rfl)
      obtain ⟨noEndFirst, noEndLater⟩ := List.forall_mem_append.mp noEnd
      rw [List.append_assoc] at elsewhere
      have notEnd' := notEnd_of_ahead nonempty noEndFirst elsewhere
      cases round with
      | @skip mid' _ failed' =>
          obtain ⟨stalls', trail, same⟩ :=
            ih (spares tokens behind enough) noEndLater behind later closedLater
          refine ⟨(fault, mid') :: stalls', .skip notEnd' failed' trail, ?_⟩
          rw [List.map_cons, List.map_cons, same]

end Cursor

theorem exists_cut_of_firstEnd {tokens : List Token} (ended : firstEnd tokens < tokens.length) :
    ∃ us stop more, tokens = us ++ stop :: more ∧ tokens.take (firstEnd tokens + 1) = us ++ [stop] ∧
      (∀ t ∈ us, t.kind ≠ .endOfInput) ∧ stop.kind = .endOfInput := by
  refine ⟨tokens.take (firstEnd tokens), tokens[firstEnd tokens], tokens.drop (firstEnd tokens + 1),
    ?_, List.take_succ_eq_append_getElem ended, ?_, ?_⟩
  · rw [← List.drop_eq_getElem_cons ended, List.take_append_drop]
  · intro t member
    obtain ⟨place, bounded, rfl⟩ := List.mem_iff_getElem.mp member
    rw [List.length_take] at bounded
    have here : tokens[place]? = some tokens[place] := List.getElem?_eq_getElem (by omega)
    rw [List.getElem_take, Ne, end_iff_firstEnd (by omega) here]
    omega
  · exact (end_iff_firstEnd (Nat.le_refl _) (List.getElem?_eq_getElem ended)).mpr rfl

section Parsing

variable {tokens us : List Token} {stop : Token}

/-- What stands behind an end marker is not read. -/
theorem parseTokens_of_cut (noEnd : ∀ t ∈ us, t.kind ≠ .endOfInput)
    (last : stop.kind = .endOfInput) (more : List Token) :
    parseTokens (us ++ stop :: more) = parseTokens (us ++ [stop]) := by
  have starts (more : List Token) : ∃ c, Cursor.ofTokens? (us ++ stop :: more) = some c := by
    cases us <;> exact ⟨_, rfl⟩
  obtain ⟨c, started⟩ := starts []
  obtain ⟨d, started'⟩ := starts more
  have tokens := Cursor.ahead_of_ofTokens? started
  have elsewhere := Cursor.ahead_of_ofTokens? started'
  have closed := Cursor.closed_of_ahead noEnd tokens last
  have enough : c.need 0 1 ≤ 8 * (us ++ [stop]).length + 8 := by
    rw [Cursor.need, tokens]
    omega
  have larger : 8 * (us ++ [stop]).length + 8 ≤ 8 * (us ++ stop :: more).length + 8 := by
    simp only [List.length_append, List.length_cons, List.length_nil]
    omega
  obtain ⟨ts, stalls, trail⟩ := Cursor.exists_trail _ closed
  obtain ⟨stalls', trail', same⟩ := trail.again larger enough noEnd last tokens elsewhere
  rw [parseTokens_of_trail started closed trail,
    parseTokens_of_trail started' (Cursor.closed_of_ahead noEnd elsewhere last) trail', same]
  have none : stalls' = [] ↔ stalls = [] := by
    rw [← List.map_eq_nil_iff, same, List.map_eq_nil_iff]
  simp only [none]

/-- Only the tokens up to the first end marker are read, whatever stands in place of the others. -/
theorem parseTokens_take_append (ended : firstEnd tokens < tokens.length) (others : List Token) :
    parseTokens (tokens.take (firstEnd tokens + 1) ++ others) = parseTokens tokens := by
  obtain ⟨us, stop, more, cut, taken, noEnd, last⟩ := exists_cut_of_firstEnd ended
  calc parseTokens (tokens.take (firstEnd tokens + 1) ++ others)
      = parseTokens (us ++ stop :: others) := by rw [taken, List.append_assoc, List.singleton_append]
    _ = parseTokens (us ++ [stop]) := parseTokens_of_cut noEnd last others
    _ = parseTokens (us ++ stop :: more) := (parseTokens_of_cut noEnd last more).symm
    _ = parseTokens tokens := by rw [cut]

/-- The cursor stays on its tokens. Whatever operations come, in whatever order, it stands at a place
    in the tokens, at most at their first end marker, and it is at the end if and only if it stands
    there; every operation does what `Cursor.Moves` says. So the tokens behind the first end marker
    have no influence on what is read. -/
theorem cursor_stays_on_tokens (ts : List Token) (stop : Span) :
    let tokens : List Token := ts ++ [⟨.endOfInput, stop⟩]
    (∃ start, Cursor.ofTokens? tokens = some start ∧ start.position = 0 ∧ ∀ actions action,
      let c := start.after actions
      c.On tokens ∧ (c.atEnd = true ↔ c.position = firstEnd tokens) ∧
        c.Moves tokens action (c.perform action).1 (c.perform action).2) ∧
      ∀ others, parseTokens (tokens.take (firstEnd tokens + 1) ++ others) = parseTokens tokens := by
  intro tokens
  have ended : firstEnd tokens < tokens.length := firstEnd_lt ts stop
  have started : Cursor.ofTokens? tokens = some (Cursor.start ts stop) :=
    Cursor.ofTokens?_start ts stop
  refine ⟨⟨_, started, by cases ts <;> rfl, fun actions action => ?_⟩,
    parseTokens_take_append ended⟩
  have on := (Cursor.on_of_ofTokens? started).after ended actions
  exact ⟨on, on.atEnd_iff, on.moves ended (Cursor.effect _ action)⟩

/-- The second end marker ends the tokens, but the closing parenthesis in front of it is not read. -/
example : parseTokens [⟨.int 1, ⟨0, 1⟩⟩, ⟨.endOfInput, ⟨1, 1⟩⟩, ⟨.rightParen, ⟨2, 3⟩⟩,
      ⟨.endOfInput, ⟨3, 3⟩⟩] = .ok ⟨[.expr ⟨0, 1⟩ (.int ⟨0, 1⟩ 1)]⟩ := rfl

end Parsing

end TreeWalk
