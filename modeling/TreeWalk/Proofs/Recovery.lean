import TreeWalk.Proofs.Concatenation
import TreeWalk.Proofs.FirstFault

/-! # Faults behind one another

A broken statement is skipped through the next semicolon, which may stand inside one of its blocks,
and reading goes on behind it. What has been read or skipped up to a semicolon has no influence on
what follows: if nothing before missed something at the end of input, all that comes behind the
semicolon is read, and all its faults are found, as if it stood alone.
-/

namespace TreeWalk

/-- There are no tokens, or the last one is a semicolon. -/
def Complete (u : List Token) : Prop := ∀ t ∈ u.getLast?, t.kind = .semicolon

namespace Complete

variable {u v : List Token}

theorem suffix (complete : Complete (u ++ v)) : Complete v := by
  intro t last
  refine complete t ?_
  rw [List.getLast?_append, last]
  rfl

theorem not_ended (complete : Complete u) (nonempty : u ≠ []) : ¬ Ended u := by
  obtain ⟨t, last⟩ := Option.isSome_iff_exists.mp (List.getLast?_isSome.mpr nonempty)
  exact fun ended => ended t last (complete t last)

theorem exists_semicolon (complete : Complete u) (nonempty : u ≠ []) :
    ∃ t ∈ u, t.kind = .semicolon := by
  obtain ⟨t, last⟩ := Option.isSome_iff_exists.mp (List.getLast?_isSome.mpr nonempty)
  exact ⟨t, List.mem_of_getLast? last, complete t last⟩

end Complete

namespace Cursor

variable {c c' d : Cursor} {u v rest : List Token} {stop : Token}

theorem closed_of_ahead (noEnd : ∀ t ∈ u, t.kind ≠ .endOfInput)
    (tokens : c.ahead = u ++ stop :: rest) (ended : stop.kind = .endOfInput) : c.Closed := by
  obtain ⟨c', passes, here, _⟩ := exists_passes noEnd tokens
  exact passes.closed_of_end (by rw [here, ended])

/-- What stands behind the tokens that were passed. -/
theorem Passes.ahead_of_append (passes : c.Passes u c') (tokens : c.ahead = u ++ rest) :
    c'.ahead = rest :=
  List.append_cancel_left (passes.ahead_eq.symm.trans tokens)

/-- The tokens that were passed are the first ones of those in front of the end. -/
theorem Passes.exists_rest (passes : c.Passes v c') (tokens : c.ahead = u ++ [stop]) :
    ∃ w, u = v ++ w ∧ c'.ahead = w ++ [stop] := by
  rcases List.append_eq_append_iff.mp (passes.ahead_eq.symm.trans tokens) with
    ⟨w, rfl, behind⟩ | ⟨w, rfl, behind⟩
  · exact ⟨w, rfl, behind⟩
  · cases w with
    | nil => exact ⟨[], by simp, by simpa using behind.symm⟩
    | cons t w => simp [ahead] at behind

/-- In front of an end, recovery skips the tokens through the first semicolon, or all of them. Which
    ones these are does not depend on what stands in front of them or behind the semicolon. -/
theorem exists_skipped (noEnd : ∀ t ∈ u, t.kind ≠ .endOfInput) :
    ∃ skipped left, u = skipped ++ left ∧ (u ≠ [] → skipped ≠ []) ∧
      ∀ {c : Cursor} {rest}, c.ahead = u ++ rest → rest ≠ [] →
        ((∃ t ∈ u, t.kind = .semicolon) ∨ ∀ t ∈ rest.head?, t.kind = .endOfInput) →
        c.Passes skipped c.recover := by
  induction u with
  | nil =>
      refine ⟨[], [], rfl, id, ?_⟩
      rintro c rest rfl _ (⟨t, member, _⟩ | ended)
      · cases member
      · rw [recover_of_end (ended c.current rfl)]
        exact .nil
  | cons t u ih =>
      obtain ⟨notEnd, noEnd⟩ := List.forall_mem_cons.mp noEnd
      obtain ⟨skipped, left, rfl, -, later⟩ := ih noEnd
      by_cases closing : t.kind = .semicolon
      · refine ⟨[t], skipped ++ left, rfl, fun _ => List.cons_ne_nil _ _, ?_⟩
        intro c rest tokens some _
        obtain ⟨rfl, behind⟩ := List.cons.inj tokens
        have more : c.rest ≠ [] := by simp [behind, some]
        rw [recover_eq notEnd more, if_pos closing]
        exact .cons rfl notEnd more .nil
      · refine ⟨t :: skipped, left, rfl, fun _ => List.cons_ne_nil _ _, ?_⟩
        intro c rest tokens some stops
        obtain ⟨rfl, behind⟩ := List.cons.inj tokens
        have more : c.rest ≠ [] := by simp [behind, some]
        rw [recover_eq notEnd more, if_neg closing]
        obtain ⟨s, ss, next⟩ := List.exists_cons_of_ne_nil more
        have moved : c.advance.ahead = skipped ++ left ++ rest := by
          rw [advance_eq notEnd next]
          exact next.symm.trans behind
        refine .cons rfl notEnd more (later moved some (stops.imp_left ?_))
        rintro ⟨s, member, semicolon⟩
        rcases List.mem_cons.mp member with rfl | member
        · exact absurd semicolon closing
        · exact ⟨s, member, semicolon⟩

end Cursor

namespace Rule

variable {n n' : Nat} {c mid : Cursor}

/-- A statement is read again wherever its tokens stand, if they are closed by a semicolon or
    followed by a token of the same kind. -/
theorem statement_reads_again {t : Stmt} (closed : c.Closed) (ran : statement n c = .ok t mid)
    (larger : n ≤ n') : ∃ u, c.Passes u mid ∧ u ≠ [] ∧ ∀ {d : Cursor} {rest},
      (∀ s ∈ u, s.kind ≠ .endOfInput) → d.ahead = u ++ rest → rest ≠ [] →
      (Ended u → ∀ s ∈ rest.head?, s.kind = mid.current.kind) →
      ∃ mid', statement n' d = .ok t mid' ∧ d.Passes u mid' := by
  obtain ⟨u, passes, ⟨nonempty, _⟩, replays⟩ := (repeatsAt n).statement False c closed ran
  refine ⟨u, passes, nonempty, ?_⟩
  intro d rest noEnd tokens some follows
  obtain ⟨s, more, rfl⟩ := List.exists_cons_of_ne_nil some
  obtain ⟨mid', again, here, _⟩ := Cursor.exists_passes noEnd tokens
  refine ⟨mid', replays larger nofun again fun ended => .inl ?_, again⟩
  rw [here]
  exact follows ended s rfl

/-- A statement fails again, at the same token, wherever the tokens up to that one stand. -/
theorem statement_fails_again {fault : SyntaxFault} (closed : c.Closed)
    (failed : statement n c = .error fault mid) (enough : c.need 0 1 ≤ n) (larger : n ≤ n') :
    ∃ u, c.Passes u mid ∧ fault.PointsAt mid.current ∧ ∀ {d : Cursor} {rest}, d.Closed →
      d.ahead = u ++ mid.current :: rest →
      ∃ mid', statement n' d = .error fault mid' ∧ d.Passes u mid' := by
  obtain ⟨points, u, passes, _⟩ := (stallsAt n).statement closed failed
  refine ⟨u, passes, points, ?_⟩
  intro d rest closed' tokens
  have needed : c.need mid.ahead.length 1 ≤ n := by
    unfold Cursor.need at enough ⊢
    omega
  have agrees : c.Agrees id mid.ahead.length d := by
    refine ⟨closed, ?_⟩
    rw [passes.ahead_eq, tokens, List.append_cons, Cursor.ahead, List.append_cons]
    exact .append (Nat.lt_succ_self _) _
  obtain ⟨-, -, outcome, level⟩ := (lockstepAt id mid.ahead.length n).statement agrees needed
    (Nat.le_trans needed larger)
  rw [failed] at outcome level
  cases ran : statement n' d with
  | ok t mid' =>
      rw [ran] at outcome
      cases outcome with
      | beyond few => exact absurd few (Nat.lt_irrefl _)
  | error fault' mid' =>
      rw [ran] at outcome level
      cases outcome with
      | beyond few => exact absurd few (Nat.lt_irrefl _)
      | failed alike _ =>
          obtain rfl := alike.eq
          obtain ⟨-, v, passes', _⟩ := (stallsAt n').statement closed' ran
          -- Both readings stop behind equally many tokens, hence behind the same ones.
          have levels := level (Nat.le_refl _)
          have same : v.length = u.length := by
            have := passes.length_eq
            have := passes'.length_eq
            simp only [behind] at levels
            omega
          obtain ⟨rfl, -⟩ := List.append_inj (passes'.ahead_eq.symm.trans tokens) same
          exact ⟨mid', rfl, passes'⟩

end Rule

namespace Cursor

/-- One statement is read, or a broken one is skipped because of the fault that it has. -/
inductive Round (n : Nat) (c : Cursor) : List SyntaxFault → Cursor → Prop where
  | read {mid : Cursor} {t : Stmt} : Rule.statement n c = .ok t mid → Round n c [] mid
  | skip {mid : Cursor} {fault : SyntaxFault} :
      Rule.statement n c = .error fault mid → Round n c [fault] mid.recover

/-- Going on from the first cursor to the second, statement by statement, finds these faults. -/
inductive Finds (n : Nat) : Cursor → List SyntaxFault → Cursor → Prop where
  | nil {c : Cursor} : Finds n c [] c
  | cons {c mid c' : Cursor} {faults more : List SyntaxFault} : c.current.kind ≠ .endOfInput →
      c.Round n faults mid → Finds n mid more c' → Finds n c (faults ++ more) c'

variable {n n' : Nat} {c c' d mid : Cursor} {fault : SyntaxFault} {faults more : List SyntaxFault}
  {u v rest : List Token} {stop : Token}

theorem exists_round (n : Nat) (c : Cursor) : ∃ faults mid, c.Round n faults mid := by
  cases ran : Rule.statement n c with
  | ok t mid => exact ⟨[], mid, .read ran⟩
  | error fault mid => exact ⟨[fault], mid.recover, .skip ran⟩

/-- What stands in front of the end may as well stand in front of something else, if that starts
    with the same end, or if what stands there is complete and no fault is about the end. -/
def Severed (u : List Token) (stop : Token) (faults : List SyntaxFault) (rest : List Token) :
    Prop :=
  rest.head? = some stop ∨ (Complete u ∧ ∀ fault ∈ faults, fault.cause.found? ≠ some .endOfInput)

namespace Severed

theorem suffix (severed : Severed (u ++ v) stop faults rest) : Severed v stop faults rest :=
  severed.imp_right fun both => ⟨both.1.suffix, both.2⟩

theorem append (severed : Severed u stop (faults ++ more) rest) :
    Severed u stop faults rest ∧ Severed u stop more rest := by
  rcases severed with same | ⟨complete, others⟩
  · exact ⟨.inl same, .inl same⟩
  · obtain ⟨first, later⟩ := List.forall_mem_append.mp others
    exact ⟨.inr ⟨complete, first⟩, .inr ⟨complete, later⟩⟩

/-- The token behind a statement is as it was, unless nothing needs to be there. -/
theorem follows (severed : Severed (u ++ v) stop faults rest) (nonempty : u ≠ [])
    (behind : mid.ahead = v ++ [stop]) (open_ : Ended u) :
    ∀ t ∈ (v ++ rest).head?, t.kind = mid.current.kind := by
  intro t first
  cases v with
  | nil =>
      obtain ⟨rfl, -⟩ := List.cons.inj behind
      rcases severed with same | ⟨complete, _⟩
      · cases same.symm.trans first
        rfl
      · rw [List.append_nil] at complete
        exact absurd open_ (complete.not_ended nonempty)
  | cons s v =>
      cases first
      rw [← (List.cons.inj behind).1]

/-- The token that a fault is about is as it was, and what is skipped behind it ends as before. -/
theorem stops (severed : Severed u stop [fault] rest) (last : stop.kind = .endOfInput)
    (points : fault.PointsAt mid.current) (behind : mid.ahead = u ++ [stop]) :
    (∃ more, u ++ rest = mid.current :: more) ∧
      ((∃ t ∈ u, t.kind = .semicolon) ∨ ∀ t ∈ rest.head?, t.kind = .endOfInput) := by
  have ended (same : rest.head? = some stop) : ∀ t ∈ rest.head?, t.kind = .endOfInput := by
    intro t first
    cases same.symm.trans first
    exact last
  cases u with
  | nil =>
      obtain ⟨rfl, -⟩ := List.cons.inj behind
      rcases severed with same | ⟨_, inside⟩
      · exact ⟨List.head?_eq_some_iff.mp same, .inr (ended same)⟩
      · exact absurd (last ▸ points.found) (inside fault List.mem_cons_self)
  | cons t u =>
      obtain ⟨rfl, -⟩ := List.cons.inj behind
      refine ⟨⟨u ++ rest, rfl⟩, ?_⟩
      rcases severed with same | ⟨complete, _⟩
      · exact .inr (ended same)
      · exact .inl (complete.exists_semicolon (List.cons_ne_nil _ _))

end Severed

/-- A round consumes some of the tokens in front of the end, and is the same wherever they stand. -/
theorem Round.again (round : c.Round n faults mid) (notEnd : c.current.kind ≠ .endOfInput)
    (larger : n ≤ n') (enough : c.need 0 1 ≤ n) (noEnd : ∀ t ∈ u, t.kind ≠ .endOfInput)
    (last : stop.kind = .endOfInput) (tokens : c.ahead = u ++ [stop]) :
    ∃ v w, u = v ++ w ∧ v ≠ [] ∧ mid.ahead = w ++ [stop] ∧ ∀ {d : Cursor} {rest}, d.Closed →
      d.ahead = u ++ rest → rest ≠ [] → Severed u stop faults rest →
      ∃ mid', d.Round n' faults mid' ∧ mid'.Closed ∧ mid'.ahead = w ++ rest := by
  have closed : c.Closed := closed_of_ahead noEnd tokens last
  cases round with
  | read ran =>
      obtain ⟨v, passes, nonempty, again⟩ := Rule.statement_reads_again closed ran larger
      obtain ⟨w, rfl, behind⟩ := passes.exists_rest tokens
      refine ⟨v, w, rfl, nonempty, behind, ?_⟩
      intro d rest closed' elsewhere some severed
      rw [List.append_assoc] at elsewhere
      obtain ⟨mid', ran', passes'⟩ := again passes.noEnd elsewhere (by simp [some])
        (severed.follows nonempty behind)
      exact ⟨mid', .read ran', passes'.closed closed', passes'.ahead_of_append elsewhere⟩
  | @skip mid fault failed =>
      obtain ⟨v, passes, points, again⟩ := Rule.statement_fails_again closed failed enough larger
      obtain ⟨w, rfl, behind⟩ := passes.exists_rest tokens
      obtain ⟨_, noEndLater⟩ := List.forall_mem_append.mp noEnd
      obtain ⟨skipped, left, cut, progress, skips⟩ := exists_skipped noEndLater
      have behindSkipped : mid.ahead = skipped ++ (left ++ [stop]) := by
        rw [behind, cut, List.append_assoc]
      have passesSkipped := skips behind (by simp) (.inr (by simp [last]))
      refine ⟨v ++ skipped, left, by rw [cut, List.append_assoc], ?_,
        passesSkipped.ahead_of_append behindSkipped, ?_⟩
      · intro none
        obtain ⟨rfl, rfl⟩ := List.append_eq_nil_iff.mp none
        obtain rfl : w = [] := by
          by_contra some
          exact progress some rfl
        obtain ⟨here, -⟩ := List.cons.inj tokens
        exact notEnd (here ▸ last)
      · intro d rest closed' elsewhere some severed
        obtain ⟨⟨more, here⟩, stops⟩ := severed.suffix.stops last points behind
        rw [List.append_assoc] at elsewhere
        obtain ⟨mid', failed', passes'⟩ := again closed' (elsewhere.trans (congrArg _ here))
        have behind' := passes'.ahead_of_append elsewhere
        have passesSkipped' := skips behind' some stops
        refine ⟨mid'.recover, .skip failed', passesSkipped'.closed (passes'.closed closed'), ?_⟩
        refine passesSkipped'.ahead_of_append ?_
        rw [behind', cut, List.append_assoc]

theorem exists_finds (enough : c.need 0 1 ≤ n) (noEnd : ∀ t ∈ u, t.kind ≠ .endOfInput)
    (last : stop.kind = .endOfInput) (tokens : c.ahead = u ++ [stop]) :
    ∃ faults c', c.Finds n faults c' ∧ c'.ahead = [stop] := by
  induction size : u.length using Nat.strongRecOn generalizing c u with
  | ind length ih =>
      cases u with
      | nil => exact ⟨[], c, .nil, tokens⟩
      | cons t u =>
          have notEnd : c.current.kind ≠ .endOfInput := by
            rw [(List.cons.inj tokens).1]
            exact noEnd t List.mem_cons_self
          obtain ⟨faults, mid, round⟩ := exists_round n c
          obtain ⟨v, w, cut, some, behind, _⟩ :=
            round.again notEnd (Nat.le_refl n) enough noEnd last tokens
          have shorter : w.length < length := by
            have := List.length_pos_iff.mpr some
            rw [← size, cut, List.length_append]
            omega
          have less : mid.ahead.length ≤ c.ahead.length := by
            simp only [behind, tokens, cut, List.length_append]
            omega
          rw [cut] at noEnd
          obtain ⟨more, c', found, reached⟩ := ih w.length shorter
            (Nat.le_trans (need_mono less) enough) (List.forall_mem_append.mp noEnd).2 behind rfl
          exact ⟨faults ++ more, c', .cons notEnd round found, reached⟩

namespace Finds

theorem append (first : c.Finds n faults c') (second : c'.Finds n more d) :
    c.Finds n (faults ++ more) d := by
  induction first with
  | nil => exact second
  | cons notEnd round _ ih =>
      rw [List.append_assoc]
      exact .cons notEnd round (ih second)

/-- The same faults are found wherever the tokens stand. -/
theorem again (found : c.Finds n faults c') (reached : c'.ahead = [stop]) (larger : n ≤ n')
    (enough : c.need 0 1 ≤ n) (noEnd : ∀ t ∈ u, t.kind ≠ .endOfInput)
    (last : stop.kind = .endOfInput) (tokens : c.ahead = u ++ [stop]) (closed' : d.Closed)
    (elsewhere : d.ahead = u ++ rest) (some : rest ≠ []) (severed : Severed u stop faults rest) :
    ∃ d', d.Finds n' faults d' ∧ d'.Closed ∧ d'.ahead = rest := by
  induction found generalizing u d with
  | nil =>
      obtain rfl : u = [] := by simpa using tokens.symm.trans reached
      exact ⟨d, .nil, closed', elsewhere⟩
  | @cons c mid c' faults more notEnd round _ ih =>
      obtain ⟨v, w, rfl, consumed, behind, again⟩ :=
        round.again notEnd larger enough noEnd last tokens
      obtain ⟨severedFirst, severedLater⟩ := severed.append
      obtain ⟨mid', round', closedLater, behind'⟩ := again closed' elsewhere some severedFirst
      have less : mid.ahead.length ≤ c.ahead.length := by
        simp only [behind, tokens, List.length_append]
        omega
      have notEnd' : d.current.kind ≠ .endOfInput := by
        obtain ⟨t, v, rfl⟩ := List.exists_cons_of_ne_nil consumed
        rw [(List.cons.inj elsewhere).1]
        exact noEnd t List.mem_cons_self
      obtain ⟨d', foundLater, both⟩ := ih reached (Nat.le_trans (need_mono less) enough)
        (List.forall_mem_append.mp noEnd).2 behind closedLater behind' severedLater.suffix
      exact ⟨d', .cons notEnd' round' foundLater, both⟩

/-- These are the faults of the program at the cursor. -/
theorem program {bound : Nat} {before : List SyntaxFault} {read : List Stmt}
    (found : c.Finds n faults c') (reached : c'.ahead = [stop]) (enough : c.need 0 1 ≤ n)
    (noEnd : ∀ t ∈ u, t.kind ≠ .endOfInput) (last : stop.kind = .endOfInput)
    (tokens : c.ahead = u ++ [stop]) (bounded : u.length ≤ bound) :
    (Rule.program bound n read before c).2 = before.reverse ++ faults := by
  induction found generalizing u bound before read with
  | @nil c =>
      have ended : c.atEnd = true :=
        atEnd_iff_kind.mpr (by rw [(List.cons.inj reached).1, last])
      cases bound <;> simp [Rule.program, ended]
  | @cons c mid c' faults more notEnd round _ ih =>
      obtain ⟨v, w, rfl, consumed, behind, _⟩ :=
        round.again notEnd (Nat.le_refl n) enough noEnd last tokens
      have positive := List.length_pos_iff.mpr consumed
      rw [List.length_append] at bounded
      obtain ⟨bound, rfl⟩ := Nat.exists_eq_add_of_le' (Nat.le_trans positive (by omega : _ ≤ bound))
      have less : mid.ahead.length ≤ c.ahead.length := by
        simp only [behind, tokens, List.length_append]
        omega
      have later {before read} :
          (Rule.program bound n read before mid).2 = before.reverse ++ more :=
        ih reached (Nat.le_trans (need_mono less) enough) (List.forall_mem_append.mp noEnd).2 behind
          (by omega)
      rw [Rule.program, if_neg (mt atEnd_iff_kind.mp notEnd)]
      cases round with
      | read ran =>
          rw [ran]
          exact later
      | skip failed =>
          rw [failed]
          exact later.trans (by simp)

end Finds

end Cursor

def faultsOf : Except (List SyntaxFault) Program → List SyntaxFault
  | .ok _ => []
  | .error faults => faults

/-- One reading behind another: both programs in one, or the faults of both. -/
def readBehind (first second : Except (List SyntaxFault) Program) :
    Except (List SyntaxFault) Program :=
  match first, second with
  | .ok p, .ok q => .ok ⟨p.statements ++ q.statements⟩
  | _, _ => .error (faultsOf first ++ faultsOf second)

theorem eq_error_of_faultsOf {reading : Except (List SyntaxFault) Program}
    {faults : List SyntaxFault} (same : faultsOf reading = faults) (some : faults ≠ []) :
    reading = .error faults := by
  cases reading with
  | ok p => exact absurd same.symm some
  | error found => exact congrArg Except.error same

section Parsing

variable {ts us vs : List Token} {stop stop' : Span}

theorem faultsOf_parseTokens (ts : List Token) (stop : Span) :
    faultsOf (parseTokens (ts ++ [⟨.endOfInput, stop⟩])) =
      (Rule.program (ts.length + 1) (8 * (ts.length + 1) + 8) [] [] (Cursor.start ts stop)).2 := by
  simp only [parseTokens, Cursor.ofTokens?_start, List.length_append, List.length_singleton]
  generalize Rule.program _ _ [] [] (Cursor.start ts stop) = reading
  obtain ⟨statements, _ | ⟨fault, more⟩⟩ := reading <;> rfl

theorem Cursor.need_start (ts : List Token) (stop : Span) :
    (start ts stop).need 0 1 ≤ 8 * (ts.length + 1) + 8 := by
  rw [need, ahead_start, List.length_append, List.length_singleton]
  omega

/-- A reading has the faults that are found from the first token to the end. -/
theorem faultsOf_eq_of_finds (noEnd : ∀ t ∈ ts, t.kind ≠ .endOfInput) {c' : Cursor}
    {faults : List SyntaxFault}
    (found : (Cursor.start ts stop).Finds (8 * (ts.length + 1) + 8) faults c')
    (reached : c'.ahead = [⟨.endOfInput, stop⟩]) :
    faultsOf (parseTokens (ts ++ [⟨.endOfInput, stop⟩])) = faults := by
  rw [faultsOf_parseTokens]
  exact found.program reached (Cursor.need_start ts stop) noEnd rfl (Cursor.ahead_start ts stop)
    (Nat.le_succ _)

theorem exists_finds_of_tokens (stop : Span) (noEnd : ∀ t ∈ ts, t.kind ≠ .endOfInput) :
    ∃ c', (Cursor.start ts stop).Finds (8 * (ts.length + 1) + 8)
      (faultsOf (parseTokens (ts ++ [⟨.endOfInput, stop⟩]))) c' ∧
      c'.ahead = [⟨.endOfInput, stop⟩] := by
  obtain ⟨faults, c', found, reached⟩ :=
    Cursor.exists_finds (Cursor.need_start ts stop) noEnd rfl (Cursor.ahead_start ts stop)
  rw [faultsOf_eq_of_finds noEnd found reached]
  exact ⟨c', found, reached⟩

/-- Behind complete tokens without a fault about the end, the same faults are found as alone. -/
theorem faultsOf_append (noEnd : ∀ t ∈ us ++ vs, t.kind ≠ .endOfInput) (complete : Complete us)
    (inside : ∀ fault ∈ faultsOf (parseTokens (us ++ [⟨.endOfInput, stop⟩])),
      fault.cause.found? ≠ some .endOfInput) :
    faultsOf (parseTokens (us ++ vs ++ [⟨.endOfInput, stop'⟩])) =
      faultsOf (parseTokens (us ++ [⟨.endOfInput, stop⟩])) ++
        faultsOf (parseTokens (vs ++ [⟨.endOfInput, stop'⟩])) := by
  obtain ⟨noEndFirst, noEndSecond⟩ := List.forall_mem_append.mp noEnd
  obtain ⟨c', first, reached⟩ := exists_finds_of_tokens stop noEndFirst
  obtain ⟨d', second, reached'⟩ := exists_finds_of_tokens stop' noEndSecond
  have size : (us ++ vs).length = us.length + vs.length := List.length_append
  have larger : 8 * (us.length + 1) + 8 ≤ 8 * ((us ++ vs).length + 1) + 8 := by omega
  have larger' : 8 * (vs.length + 1) + 8 ≤ 8 * ((us ++ vs).length + 1) + 8 := by omega
  have elsewhere :
      (Cursor.start (us ++ vs) stop').ahead = us ++ (vs ++ [⟨.endOfInput, stop'⟩]) := by
    rw [Cursor.ahead_start, List.append_assoc]
  obtain ⟨mid, foundFirst, closed, behind⟩ :=
    first.again reached larger (Cursor.need_start us stop) noEndFirst rfl
      (Cursor.ahead_start us stop) ⟨_, Cursor.start_shows noEnd⟩ elsewhere (by simp)
      (.inr ⟨complete, inside⟩)
  obtain ⟨finish, foundSecond, _, ended⟩ :=
    second.again reached' larger' (Cursor.need_start vs stop') noEndSecond rfl
      (Cursor.ahead_start vs stop') closed behind (by simp) (.inl rfl)
  exact faultsOf_eq_of_finds noEnd (foundFirst.append foundSecond) ended

/-- Behind complete tokens without a fault about the end, everything is read as alone. -/
theorem parseTokens_append_of_complete (noEnd : ∀ t ∈ us ++ vs, t.kind ≠ .endOfInput)
    (complete : Complete us)
    (inside : ∀ fault ∈ faultsOf (parseTokens (us ++ [⟨.endOfInput, stop⟩])),
      fault.cause.found? ≠ some .endOfInput) :
    parseTokens (us ++ vs ++ [⟨.endOfInput, stop'⟩]) =
      readBehind (parseTokens (us ++ [⟨.endOfInput, stop⟩]))
        (parseTokens (vs ++ [⟨.endOfInput, stop'⟩])) := by
  have faults : faultsOf (parseTokens (us ++ vs ++ [⟨.endOfInput, stop'⟩])) = _ :=
    faultsOf_append noEnd complete inside
  cases first : parseTokens (us ++ [⟨.endOfInput, stop⟩]) with
  | error early =>
      rw [first] at faults
      obtain ⟨-, some⟩ := parseTokens_eq_error.mp first
      exact eq_error_of_faultsOf faults (List.append_ne_nil_of_left_ne_nil some _)
  | ok p =>
      cases second : parseTokens (vs ++ [⟨.endOfInput, stop'⟩]) with
      | error late =>
          rw [first, second] at faults
          obtain ⟨-, some⟩ := parseTokens_eq_error.mp second
          exact eq_error_of_faultsOf faults some
      | ok q => exact parseTokens_append noEnd complete first second

/-- Recovery is compositional at semicolons. If no fault of some tokens with a semicolon behind them
    is about the end of input, then these tokens and others behind the semicolon have the faults of
    the first part and then those that the second part has alone, unchanged; and if neither has any,
    they are read as the statements of the first part and then those of the second. -/
theorem parseTokens_behind_semicolon {semicolon : Span}
    (noEnd : ∀ t ∈ us ++ vs, t.kind ≠ .endOfInput)
    (inside : ∀ fault ∈ faultsOf
        (parseTokens (us ++ [⟨.semicolon, semicolon⟩] ++ [⟨.endOfInput, stop⟩])),
      fault.cause.found? ≠ some .endOfInput) :
    parseTokens (us ++ [⟨.semicolon, semicolon⟩] ++ vs ++ [⟨.endOfInput, stop'⟩]) =
      readBehind (parseTokens (us ++ [⟨.semicolon, semicolon⟩] ++ [⟨.endOfInput, stop⟩]))
        (parseTokens (vs ++ [⟨.endOfInput, stop'⟩])) := by
  obtain ⟨noEndFirst, noEndSecond⟩ := List.forall_mem_append.mp noEnd
  refine parseTokens_append_of_complete ?_ (by simp [Complete]) inside
  simp only [List.forall_mem_append, List.forall_mem_singleton]
  exact ⟨⟨noEndFirst, nofun⟩, noEndSecond⟩

/-- In `if (a) { let 1; b }; let c = )` the semicolon that ends recovery stands inside the block, so
    that the closing brace starts a statement. -/
theorem parseTokens_behind_semicolon_in_block :
    let us : List Token := [⟨.ifKeyword, ⟨0, 2⟩⟩, ⟨.leftParen, ⟨3, 4⟩⟩, ⟨.ident "a", ⟨4, 5⟩⟩,
      ⟨.rightParen, ⟨5, 6⟩⟩, ⟨.leftBrace, ⟨7, 8⟩⟩, ⟨.letKeyword, ⟨9, 12⟩⟩, ⟨.int 1, ⟨13, 14⟩⟩]
    let vs : List Token := [⟨.ident "b", ⟨16, 17⟩⟩, ⟨.rightBrace, ⟨18, 19⟩⟩, ⟨.semicolon, ⟨19, 20⟩⟩,
      ⟨.letKeyword, ⟨21, 24⟩⟩, ⟨.ident "c", ⟨25, 26⟩⟩, ⟨.assign, ⟨27, 28⟩⟩, ⟨.rightParen, ⟨29, 30⟩⟩]
    parseTokens (us ++ [⟨.semicolon, ⟨14, 15⟩⟩] ++ vs ++ [⟨.endOfInput, ⟨30, 30⟩⟩]) = .error [
      .unexpected .name ⟨.int 1, ⟨13, 14⟩⟩ .letStatement,
      { cause := .expectedExpression .rightBrace, span := ⟨18, 19⟩ },
      { cause := .expectedExpression .rightParen, span := ⟨29, 30⟩,
        construct := some .letStatement }] := by
  intro us vs
  have first : parseTokens (us ++ [⟨.semicolon, ⟨14, 15⟩⟩] ++ [⟨.endOfInput, ⟨15, 15⟩⟩]) =
      .error [.unexpected .name ⟨.int 1, ⟨13, 14⟩⟩ .letStatement] := rfl
  have inside : ∀ fault ∈ faultsOf
      (parseTokens (us ++ [⟨.semicolon, ⟨14, 15⟩⟩] ++ [⟨.endOfInput, ⟨15, 15⟩⟩])),
      fault.cause.found? ≠ some .endOfInput := by
    rw [first]
    decide
  rw [parseTokens_behind_semicolon (by decide) inside, first]
  rfl

end Parsing

open Lexer

/-- A text that can be read, ends with its line and is closed by a semicolon may stand in front of
    any other. Both together are read as the statements of the first and then those of the second
    where it stands; and if the second has faults there, be they lexical or not, these are all. -/
theorem parse_append_of_closed {history line : String} {p : Program}
    (ended : history.toList ≠ [] → history.toList.getLast? = some '\n')
    (parsed : parse history = .ok p) (closed : closedBySemicolon history = true)
    (fits : history.utf8ByteSize + line.utf8ByteSize ≤ Span.maxOffset) :
    parse (history ++ line) = (parseAt line history.utf8ByteSize).map fun q =>
      ⟨p.statements ++ q.statements⟩ := by
  obtain ⟨_, us, cut, read⟩ := parse_eq_ok_iff.mp parsed
  have size : (history ++ line).utf8ByteSize = history.utf8ByteSize + line.utf8ByteSize :=
    String.utf8ByteSize_append
  have whole : lexemes 0 (history ++ line).toList =
      us.map Token.lexeme ++ lexemes history.utf8ByteSize line.toList := by
    rw [String.toList_append, lexemes_append ended, cut, Nat.zero_add, byteSize_toList]
  by_cases clean : faultsIn (lexemes history.utf8ByteSize line.toList) = []
  · obtain ⟨vs, cutLine⟩ := faultsIn_eq_nil_iff.mp clean
    rw [cutLine, ← List.map_append] at whole
    have last : endMarker 0 (history ++ line) = endMarker history.utf8ByteSize line := by
      simp only [endMarker, size, Nat.zero_add]
    have inside : ∀ fault ∈ faultsOf (parseTokens (us ++ [⟨.endOfInput, endMarker 0 history⟩])),
        fault.cause.found? ≠ some .endOfInput := by
      rw [read]
      exact fun _ none => absurd none List.not_mem_nil
    rw [parse_of_tokens (size ▸ fits) whole, last, parseAt_of_tokens fits cutLine,
      parseTokens_append_of_complete (noEnd_of_lexemes whole) (semicolon_of_closed closed cut)
        inside, read]
    cases parseTokens (vs ++ [⟨.endOfInput, endMarker history.utf8ByteSize line⟩]) <;> rfl
  · have faults : faultsIn (lexemes 0 (history ++ line).toList) =
        faultsIn (lexemes history.utf8ByteSize line.toList) := by
      rw [whole, faultsIn_append, faultsIn_tokens, List.nil_append]
    rw [parse_of_faults (size ▸ fits) (faults ▸ clean), parseAt_of_faults fits clean, faults]
    rfl

/-- A comment ends with its line, and the character in it counts as two bytes. -/
theorem parse_append_of_closed_comment :
    parse ("let a = 1; // ä\n" ++ "a") =
      .ok ⟨[.bind ⟨0, 10⟩ "a" (.int ⟨8, 9⟩ 1), .expr ⟨17, 18⟩ (.ident ⟨17, 18⟩ "a")]⟩ := by
  have lexed : lex "let a = 1; // ä\n" = .ok [⟨.letKeyword, ⟨0, 3⟩⟩, ⟨.ident "a", ⟨4, 5⟩⟩,
      ⟨.assign, ⟨6, 7⟩⟩, ⟨.int 1, ⟨8, 9⟩⟩, ⟨.semicolon, ⟨9, 10⟩⟩, ⟨.endOfInput, ⟨17, 17⟩⟩] := by
    decide +kernel
  have parsed : parse "let a = 1; // ä\n" = .ok ⟨[.bind ⟨0, 10⟩ "a" (.int ⟨8, 9⟩ 1)]⟩ := by
    rw [parse, lexed]
    rfl
  have closed : closedBySemicolon "let a = 1; // ä\n" = true := by
    rw [closedBySemicolon, lexed]
    rfl
  have lexedLine : lex "a" = .ok [⟨.ident "a", ⟨0, 1⟩⟩, ⟨.endOfInput, ⟨1, 1⟩⟩] := by
    decide +kernel
  have size : "let a = 1; // ä\n".utf8ByteSize = 17 := by decide +kernel
  rw [parse_append_of_closed (fun _ => by decide +kernel) parsed closed (by decide +kernel), size,
    parseAt, lexedLine]
  rfl

end TreeWalk
