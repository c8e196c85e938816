import TreeWalk.Proofs.Stalls

/-! # The first fault

The first fault of a program is the one where reading its statements breaks off. It is found as
early as possible: what was read before can be completed, and no token behind the one that it points
at makes a difference.
-/

namespace TreeWalk

open Grammar

/-- Reading statements from the cursor breaks off with this fault at the other cursor. -/
inductive Cursor.Breaks (n : Nat) : Cursor → SyntaxFault → Cursor → Prop where
  | here {c c' : Cursor} {fault : SyntaxFault} : c.current.kind ≠ .endOfInput →
      Rule.statement n c = .error fault c' → Breaks n c fault c'
  | later {c mid c' : Cursor} {t : Stmt} {fault : SyntaxFault} : c.current.kind ≠ .endOfInput →
      Rule.statement n c = .ok t mid → Breaks n mid fault c' → Breaks n c fault c'

namespace Cursor.Breaks

variable {n : Nat} {c c' d : Cursor} {fault : SyntaxFault}

/-- What has been read before the fault is the beginning of a program. -/
theorem viable (breaks : c.Breaks n fault c') (closed : c.Closed) :
    fault.span = c'.current.span ∧
      ∃ u, c.Passes u c' ∧ ViableStatements (u.map Token.kind) := by
  induction breaks with
  | here _ failed =>
      obtain ⟨points, u, passes, viable⟩ := (Rule.stallsAt n).statement closed failed
      exact ⟨points.span, u, passes, viable.statements⟩
  | later _ read _ ih =>
      obtain ⟨u, passes, rest, shows, head⟩ := Rule.reads_statement closed read
      obtain ⟨span, v, passesLater, tail⟩ := ih (passes.closed closed)
      obtain ⟨rest, rfl, _⟩ := passesLater.cut shows
      refine ⟨span, u ++ v, passes.append passesLater, ?_⟩
      rw [List.map_append]
      exact viable_more_statements head tail

end Cursor.Breaks

theorem Rule.program_faults {bound n : Nat} {read : List Stmt} {faults : List SyntaxFault}
    {c : Cursor} : ∃ more, (program bound n read faults c).2 = faults.reverse ++ more := by
  induction bound generalizing read faults c with
  | zero => exact ⟨[], (List.append_nil _).symm⟩
  | succ bound ih =>
      unfold program
      split
      · exact ⟨[], (List.append_nil _).symm⟩
      · split
        · exact ih
        · rename_i fault mid _
          obtain ⟨more, same⟩ := @ih read (fault :: faults) mid.recover
          exact ⟨fault :: more, by simpa using same⟩

/-- The first fault of a program is the one where reading statements breaks off. -/
theorem Rule.breaks_of_program {bound n : Nat} {read : List Stmt} {c : Cursor} {fault : SyntaxFault}
    {more : List SyntaxFault} (faults : (program bound n read [] c).2 = fault :: more) :
    ∃ c', c.Breaks n fault c' := by
  induction bound generalizing read c with
  | zero => cases faults
  | succ bound ih =>
      unfold program at faults
      by_cases ended : c.atEnd = true
      · rw [if_pos ended] at faults
        cases faults
      · rw [if_neg ended] at faults
        have notEnd : c.current.kind ≠ .endOfInput := mt Cursor.atEnd_iff_kind.mpr ended
        cases ran : statement n c with
        | ok t mid =>
            simp only [ran] at faults
            obtain ⟨c', breaks⟩ := ih faults
            exact ⟨c', .later notEnd ran breaks⟩
        | error first mid =>
            simp only [ran] at faults
            obtain ⟨others, same⟩ := @program_faults bound n read [first] mid.recover
            rw [faults] at same
            cases same
            exact ⟨mid, .here notEnd ran⟩

/-- The same fault is the first one wherever the tokens up to it are the same. -/
theorem Cursor.Breaks.first {n n' bound floor : Nat} {read : List Stmt} {c c' d : Cursor}
    {fault : SyntaxFault} (breaks : c.Breaks n fault c') (agrees : c.Agrees id floor d)
    (above : floor ≤ c'.ahead.length) (enough : c.need floor 1 ≤ n)
    (enough' : c.need floor 1 ≤ n') (bounded : c.ahead.length + 1 - floor ≤ bound) :
    ∃ more, (Rule.program bound n' read [] d).2 = fault :: more := by
  induction breaks generalizing read d bound with
  | @here c c' fault notEnd failed =>
      obtain ⟨_, shrinks, outcome⟩ := (Rule.lockstepAt id floor n).statement agrees enough enough'
      rw [failed] at shrinks outcome
      have shorter : c'.ahead.length ≤ c.ahead.length := shrinks
      obtain ⟨bound, rfl⟩ : ∃ less, bound = less + 1 := ⟨bound - 1, by omega⟩
      have notEnd' : ¬ d.atEnd = true := by
        rwa [atEnd_iff_kind, ← (agrees.current (by omega)).1]
      rw [Rule.program, if_neg notEnd']
      generalize Rule.statement n' d = result at outcome
      cases outcome with
      | beyond few => exact absurd few (Nat.not_lt_of_le above)
      | failed alike _ =>
          rw [← alike.eq]
          exact Rule.program_faults
  | @later c mid c' t fault notEnd ran breaks ih =>
      obtain ⟨closed, _, outcome⟩ := (Rule.lockstepAt id floor n).statement agrees enough enough'
      rw [ran] at closed outcome
      obtain ⟨u, passes, ⟨nonempty, _⟩, _⟩ :=
        (Rule.repeatsAt n).statement False c agrees.closed ran
      have less := passes.length_lt nonempty
      obtain ⟨_, v, passesLater, _⟩ := breaks.viable closed
      have shorter := passesLater.length_eq
      obtain ⟨bound, rfl⟩ : ∃ less, bound = less + 1 := ⟨bound - 1, by omega⟩
      have notEnd' : ¬ d.atEnd = true := by
        rwa [atEnd_iff_kind, ← (agrees.current (by omega)).1]
      rw [Rule.program, if_neg notEnd']
      generalize Rule.statement n' d = result at outcome
      cases outcome with
      | beyond few =>
          have far : mid.ahead.length < floor := few
          omega
      | read _ agreesLater =>
          have needs : mid.need floor 1 ≤ c.need floor 1 := need_mono (Nat.le_of_lt less)
          exact ih agreesLater above (Nat.le_trans needs enough) (Nat.le_trans needs enough')
            (by omega)

theorem parseTokens_eq_error {ts : List Token} {stop : Span} {faults : List SyntaxFault} :
    parseTokens (ts ++ [⟨.endOfInput, stop⟩]) = .error faults ↔
      (Rule.program (ts.length + 1) (8 * (ts.length + 1) + 8) [] [] (Cursor.start ts stop)).2 =
        faults ∧ faults ≠ [] := by
  simp only [parseTokens, Cursor.ofTokens?_start, List.length_append, List.length_singleton]
  generalize Rule.program _ _ [] [] (Cursor.start ts stop) = reading
  obtain ⟨statements, _ | ⟨fault, more⟩⟩ := reading
  · constructor
    · intro failed
      cases failed
    · rintro ⟨rfl, some⟩
      exact absurd rfl some
  · constructor
    · rintro ⟨⟩
      exact ⟨rfl, List.cons_ne_nil _ _⟩
    · rintro ⟨rfl, _⟩
      rfl

/-- Tokens in place of those behind the one where reading breaks off make no difference. -/
theorem Cursor.Breaks.stays {ts others : List Token} {stop stop' : Span} {fault : SyntaxFault}
    {u : List Token} {c' : Cursor} (noEnd : ∀ t ∈ ts, t.kind ≠ .endOfInput)
    (breaks : (start ts stop).Breaks (8 * (ts.length + 1) + 8) fault c')
    (passes : (start ts stop).Passes u c') (inside : u.length < ts.length) :
    ∃ more, parseTokens (ts.take (u.length + 1) ++ others ++ [⟨.endOfInput, stop'⟩]) =
      .error (fault :: more) := by
  have lengths := passes.length_eq
  rw [ahead_start, List.length_append, List.length_singleton] at lengths
  have agree : AgreeAbove id c'.ahead.length (ts ++ [⟨.endOfInput, stop⟩])
      (ts.take (u.length + 1) ++ others ++ [⟨.endOfInput, stop'⟩]) := by
    have few : (ts.drop (u.length + 1) ++ [Token.mk .endOfInput stop]).length <
        c'.ahead.length := by
      simp only [List.length_append, List.length_drop, List.length_singleton]
      omega
    have agree : AgreeAbove id c'.ahead.length
        (ts.take (u.length + 1) ++ (ts.drop (u.length + 1) ++ [⟨.endOfInput, stop⟩]))
        (ts.take (u.length + 1) ++ (others ++ [⟨.endOfInput, stop'⟩])) := .append few _
    rwa [← List.append_assoc, List.take_append_drop, ← List.append_assoc] at agree
  have agrees : (start ts stop).Agrees id c'.ahead.length
      (start (ts.take (u.length + 1) ++ others) stop') :=
    ⟨⟨_, start_shows noEnd⟩, by rwa [ahead_start, ahead_start]⟩
  have size : (ts.take (u.length + 1) ++ others).length = u.length + 1 + others.length := by
    rw [List.length_append, List.length_take]
    omega
  have needed : (start ts stop).need c'.ahead.length 1 = 5 * (u.length + 1) - 1 := by
    rw [need, ahead_start, List.length_append, List.length_singleton]
    omega
  have bounded : (start ts stop).ahead.length + 1 - c'.ahead.length ≤
      (ts.take (u.length + 1) ++ others).length + 1 := by
    rw [ahead_start, List.length_append, List.length_singleton]
    omega
  have enough : (start ts stop).need c'.ahead.length 1 ≤
      8 * ((ts.take (u.length + 1) ++ others).length + 1) + 8 := by omega
  obtain ⟨more, faults⟩ := breaks.first agrees (Nat.le_refl _) (by omega) enough bounded
  exact ⟨more, parseTokens_eq_error.mpr ⟨faults, List.cons_ne_nil _ _⟩⟩

/-- Viable tokens can be completed to a program. -/
theorem exists_completion {u : List Token} (noEnd : ∀ t ∈ u, t.kind ≠ .endOfInput)
    (viable : ViableStatements (u.map Token.kind)) :
    ∃ others : List Token, (∀ t ∈ others, t.kind ≠ .endOfInput) ∧
      ∀ stop, ∃ p, parseTokens (u ++ others ++ [⟨.endOfInput, stop⟩]) = .ok p := by
  obtain ⟨w, p, noEndBehind, derived⟩ := viable.derives
  have kinds : (w.map (Token.mk · .zero)).map Token.kind = w := by
    rw [List.map_map]
    exact List.map_id w
  have noEndOthers : ∀ t ∈ w.map (Token.mk · .zero), t.kind ≠ .endOfInput := by
    intro t member ended
    have inside := List.mem_map_of_mem (f := Token.kind) member
    rw [kinds, ended] at inside
    exact noEndBehind inside
  refine ⟨w.map (Token.mk · .zero), noEndOthers, fun stop => ?_⟩
  have noEndAll : ∀ t ∈ u ++ w.map (Token.mk · .zero), t.kind ≠ .endOfInput :=
    List.forall_mem_append.mpr ⟨noEnd, noEndOthers⟩
  obtain ⟨q, parsed, _⟩ := exists_parseTokens_of_derives stop noEndAll
    (by rwa [List.map_append, kinds])
  exact ⟨q, parsed⟩

/-- The first fault is found as early as possible. If tokens at different spans are no program, the
    first fault points at one of them or at the end. Those before it can be completed to a program.
    And if it is not the end, nothing else in place of what stands behind it helps: the first fault
    stays the same. -/
theorem first_fault_is_earliest {ts : List Token} {stop : Span} {faults : List SyntaxFault}
    (noEnd : ∀ t ∈ ts, t.kind ≠ .endOfInput)
    (distinct : ((ts ++ [Token.mk .endOfInput stop]).map Token.span).Nodup)
    (faulty : parseTokens (ts ++ [⟨.endOfInput, stop⟩]) = .error faults) :
    ∃ fault more, faults = fault :: more ∧ ∃ k ≤ ts.length,
      (∀ j, ((ts ++ [Token.mk .endOfInput stop]).map Token.span)[j]? = some fault.span ↔ j = k) ∧
      (∃ others : List Token, (∀ t ∈ others, t.kind ≠ .endOfInput) ∧
        ∀ stop', ∃ p, parseTokens (ts.take k ++ others ++ [⟨.endOfInput, stop'⟩]) = .ok p) ∧
      (k < ts.length → ∀ others stop', ∃ more',
        parseTokens (ts.take (k + 1) ++ others ++ [⟨.endOfInput, stop'⟩]) =
          .error (fault :: more')) := by
  obtain ⟨found, nonempty⟩ := parseTokens_eq_error.mp faulty
  obtain ⟨fault, more, rfl⟩ := List.exists_cons_of_ne_nil nonempty
  obtain ⟨c', breaks⟩ := Rule.breaks_of_program found
  obtain ⟨span, u, passes, viable⟩ := breaks.viable ⟨_, Cursor.start_shows noEnd⟩
  have tokens := passes.ahead_eq
  rw [Cursor.ahead_start] at tokens
  have inside : u.length ≤ ts.length := by
    have lengths := congrArg List.length tokens
    simp only [List.length_append, Cursor.ahead, List.length_cons, List.length_nil] at lengths
    omega
  have before : ts.take u.length = u := by
    have taken := congrArg (List.take u.length) tokens
    rwa [List.take_append_of_le_length inside, List.take_left] at taken
  have pointsAt : ((ts ++ [Token.mk .endOfInput stop]).map Token.span)[u.length]? =
      some fault.span := by
    rw [tokens, span, List.getElem?_map, List.getElem?_append_right (Nat.le_refl _), Nat.sub_self]
    rfl
  refine ⟨fault, more, rfl, u.length, inside, ?_, ?_, ?_⟩
  · intro j
    have bound := (List.getElem?_eq_some_iff.mp pointsAt).1
    rw [← pointsAt, eq_comm, List.getElem?_inj bound distinct, eq_comm]
  · rw [before]
    exact exists_completion passes.noEnd viable
  · intro among others stop'
    exact breaks.stays noEnd passes among

/-- `if (a { b; )` breaks off at the brace, and again at the last parenthesis. -/
theorem first_fault_is_earliest_unclosed :
    let ts : List Token := [⟨.ifKeyword, ⟨0, 2⟩⟩, ⟨.leftParen, ⟨3, 4⟩⟩, ⟨.ident "a", ⟨4, 5⟩⟩,
      ⟨.leftBrace, ⟨6, 7⟩⟩, ⟨.ident "b", ⟨8, 9⟩⟩, ⟨.semicolon, ⟨9, 10⟩⟩, ⟨.rightParen, ⟨11, 12⟩⟩]
    let first : SyntaxFault :=
      .unexpected (.token .rightParen) ⟨.leftBrace, ⟨6, 7⟩⟩ .ifExpression
    let second : SyntaxFault := { cause := .expectedExpression .rightParen, span := ⟨11, 12⟩ }
    parseTokens (ts ++ [⟨.endOfInput, ⟨12, 12⟩⟩]) = .error [first, second] ∧
      (∃ others : List Token, (∀ t ∈ others, t.kind ≠ .endOfInput) ∧
        ∀ stop, ∃ p, parseTokens (ts.take 3 ++ others ++ [⟨.endOfInput, stop⟩]) = .ok p) ∧
      ∀ others stop, ∃ more,
        parseTokens (ts.take 4 ++ others ++ [⟨.endOfInput, stop⟩]) = .error (first :: more) := by
  intro ts first second
  have faulty : parseTokens (ts ++ [⟨.endOfInput, ⟨12, 12⟩⟩]) = .error [first, second] := rfl
  obtain ⟨_, _, same, k, _, points, completed, stays⟩ :=
    first_fault_is_earliest (by decide) (by decide) faulty
  cases same
  obtain rfl : 3 = k := (points 3).mp rfl
  exact ⟨faulty, completed, stays (by decide)⟩

end TreeWalk
