import TreeWalk.Proofs.Allowances
import TreeWalk.Proofs.Stream

/-! # Progress

Reading a program is one loop over statements, with loops over the parts of a statement inside. Each
of their rounds consumes a token, and so does recovery from a broken statement, so that reading comes
to the end whatever the tokens are. On the way its faults march forward: behind each of them reading
goes on at a place that no earlier one has reached.
-/

namespace TreeWalk

namespace Cursor

variable {n : Nat} {c c' mid : Cursor}

/-- What is consumed at the cursor when statements and the rounds of loops have `n` steps. -/
structure Progresses (n : Nat) (c : Cursor) : Prop where
  statement : ∀ {t c'}, Rule.statement n c = .ok t c' → c.position < c'.position
  recovery : c.current.kind ≠ .endOfInput → ∀ {fault c'}, Rule.statement n c = .error fault c' →
    c.position < c'.recover.position
  block : ∀ {read more c'}, (Rules.given n).statementsRound read c = .ok (.yield more) c' →
    c.position < c'.position
  params : ∀ {read result c'}, Rule.paramsRound read c = .ok result c' → c.position < c'.position
  arguments : ∀ {read result c'}, (Rules.given n).argumentsRound read c = .ok result c' →
    c.position < c'.position
  operators : ∀ {least left more c'},
    (Rules.given n).continuedRound least left c = .ok (.yield more) c' → c.position < c'.position

theorem Passes.position_lt {u : List Token} (passes : c.Passes u c') (nonempty : u ≠ []) :
    c.position < c'.position := by
  have := passes.position_eq
  have := List.length_pos_iff.mpr nonempty
  omega

/-- Recovery passes the tokens that it skips, at least one of them unless the cursor is at the
    end. -/
theorem Closed.passes_recover (closed : c.Closed) :
    ∃ u, c.Passes u c.recover ∧ (c.current.kind ≠ .endOfInput → u ≠ []) := by
  obtain ⟨kinds, shows⟩ := closed
  induction kinds generalizing c with
  | nil =>
      rw [recover_of_end shows]
      exact ⟨[], .nil, fun notEnd => absurd shows notEnd⟩
  | cons kind kinds ih =>
      have closed : c.Closed := ⟨_, shows⟩
      obtain ⟨here, notEnd, behind⟩ := shows
      rw [← here] at notEnd
      have more := closed.rest_ne_nil notEnd
      rw [recover_eq notEnd more]
      split
      · exact ⟨[c.current], .one closed notEnd, fun _ => List.cons_ne_nil _ _⟩
      · obtain ⟨u, passes, -⟩ := ih behind
        exact ⟨c.current :: u, .cons rfl notEnd more passes, fun _ => List.cons_ne_nil _ _⟩

/-- A broken statement and what is skipped behind it are at least one token. -/
theorem Closed.passes_broken {fault : SyntaxFault} (closed : c.Closed)
    (notEnd : c.current.kind ≠ .endOfInput) (failed : Rule.statement n c = .error fault mid) :
    ∃ u, c.Passes u mid.recover ∧ u ≠ [] := by
  obtain ⟨-, u, passes, -⟩ := (Rule.stallsAt n).statement closed failed
  obtain ⟨v, skipped, some⟩ := (passes.closed closed).passes_recover
  refine ⟨u ++ v, passes.append skipped, ?_⟩
  intro none
  obtain ⟨rfl, rfl⟩ := List.append_eq_nil_iff.mp none
  rw [passes.eq_of_nil] at notEnd
  exact some notEnd rfl

theorem Closed.position_lt {α : Type} {rule : Rule α} {a : α} (closed : c.Closed)
    (consuming : Rule.Consuming rule) (read : rule c = .ok a c') : c.position < c'.position := by
  obtain ⟨u, passes, nonempty⟩ := consuming closed read
  exact passes.position_lt nonempty

theorem Closed.position_lt_of_yield {α : Type} {round : Rule (ForInStep α)} {a : α}
    (closed : c.Closed) (proceeds : Rule.Proceeds round) (ran : round c = .ok (.yield a) c') :
    c.position < c'.position := by
  obtain ⟨u, passes, nonempty⟩ := proceeds closed ran
  exact passes.position_lt nonempty

theorem Closed.progresses (closed : c.Closed) (n : Nat) : c.Progresses n where
  statement := closed.position_lt (Rule.consuming_statement n)
  recovery notEnd _ _ failed := by
    obtain ⟨u, passes, nonempty⟩ := closed.passes_broken notEnd failed
    exact passes.position_lt nonempty
  block := closed.position_lt_of_yield (Rule.proceeds_statementsRound n _)
  params := closed.position_lt (Rule.consuming_paramsRound _)
  arguments := closed.position_lt (Rule.consuming_argumentsRound n _)
  operators := closed.position_lt_of_yield (Rule.proceeds_continuedRound n _ _)

/-- Reading from the cursor to the end: the statements that are read, and the faults with the cursors
    where statements are broken. -/
inductive Trail (n : Nat) : Cursor → List Stmt → List (SyntaxFault × Cursor) → Prop where
  | ended {c : Cursor} : c.current.kind = .endOfInput → Trail n c [] []
  | read {c mid : Cursor} {t : Stmt} {ts : List Stmt} {stalls : List (SyntaxFault × Cursor)} :
      c.current.kind ≠ .endOfInput → Rule.statement n c = .ok t mid → Trail n mid ts stalls →
      Trail n c (t :: ts) stalls
  | skip {c mid : Cursor} {fault : SyntaxFault} {ts : List Stmt}
      {stalls : List (SyntaxFault × Cursor)} :
      c.current.kind ≠ .endOfInput → Rule.statement n c = .error fault mid →
      Trail n mid.recover ts stalls → Trail n c ts ((fault, mid) :: stalls)

theorem exists_trail (n : Nat) (closed : c.Closed) : ∃ ts stalls, c.Trail n ts stalls := by
  induction size : c.ahead.length using Nat.strongRecOn generalizing c with
  | ind size ih =>
      subst size
      by_cases ended : c.current.kind = .endOfInput
      · exact ⟨[], [], .ended ended⟩
      · cases ran : Rule.statement n c with
        | ok t mid =>
            obtain ⟨u, passes, nonempty⟩ := Rule.consuming_statement n closed ran
            obtain ⟨ts, stalls, trail⟩ :=
              ih _ (passes.length_lt nonempty) (passes.closed closed) rfl
            exact ⟨t :: ts, stalls, .read ended ran trail⟩
        | error fault mid =>
            obtain ⟨u, passes, nonempty⟩ := closed.passes_broken ended ran
            obtain ⟨ts, stalls, trail⟩ :=
              ih _ (passes.length_lt nonempty) (passes.closed closed) rfl
            exact ⟨ts, (fault, mid) :: stalls, .skip ended ran trail⟩

/-- A bound on the statements that is no smaller than the number of tokens is never used up. -/
theorem Trail.program {bound : Nat} {before ts : List Stmt} {faults : List SyntaxFault}
    {stalls : List (SyntaxFault × Cursor)} (trail : c.Trail n ts stalls) (closed : c.Closed)
    (bounded : c.ahead.length ≤ bound + 1) :
    Rule.program bound n before faults c =
      (before.reverse ++ ts, faults.reverse ++ stalls.map Prod.fst) := by
  -- Behind something that was consumed there is still a token, so the bound was not zero.
  have spends {c mid : Cursor} {bound : Nat} {u : List Token} (passes : c.Passes u mid)
      (nonempty : u ≠ []) (bounded : c.ahead.length ≤ bound + 1) :
      ∃ less, bound = less + 1 ∧ mid.ahead.length ≤ less + 1 := by
    have shorter := passes.length_lt nonempty
    have some : 0 < mid.ahead.length := Nat.succ_pos _
    exact ⟨bound - 1, by omega, by omega⟩
  induction trail generalizing bound before faults with
  | ended here => cases bound <;> simp [Rule.program, atEnd_iff_kind.mpr here]
  | read notEnd ran _ ih =>
      obtain ⟨u, passes, nonempty⟩ := Rule.consuming_statement n closed ran
      obtain ⟨less, rfl, left⟩ := spends passes nonempty bounded
      rw [Rule.program, if_neg (mt atEnd_iff_kind.mp notEnd), ran]
      refine (ih (passes.closed closed) left).trans ?_
      rw [List.reverse_cons, List.append_assoc, List.singleton_append]
  | skip notEnd failed _ ih =>
      obtain ⟨u, passes, nonempty⟩ := closed.passes_broken notEnd failed
      obtain ⟨less, rfl, left⟩ := spends passes nonempty bounded
      rw [Rule.program, if_neg (mt atEnd_iff_kind.mp notEnd), failed]
      refine (ih (passes.closed closed) left).trans ?_
      rw [List.reverse_cons, List.append_assoc, List.singleton_append, List.map_cons]

theorem Trail.stalls_of_end {ts : List Stmt} {stalls : List (SyntaxFault × Cursor)}
    (trail : c.Trail n ts stalls) (ended : c.current.kind = .endOfInput) : stalls = [] := by
  cases trail with
  | ended => rfl
  | read notEnd | skip notEnd => exact absurd ended notEnd

/-- The faults that are found from the place `start` on, with the cursors where they are found. -/
structure Marches (tokens : List Token) (start : Nat) (stalls : List (SyntaxFault × Cursor)) :
    Prop where
  on : ∀ stall ∈ stalls, stall.2.On tokens
  points : ∀ stall ∈ stalls, stall.1.PointsAt stall.2.current
  reached : ∀ stall ∈ stalls, start ≤ stall.2.position
  ordered : stalls.Pairwise fun stall later => stall.2.position < later.2.position
  inside : ∀ stall ∈ stalls.dropLast, stall.2.current.kind ≠ .endOfInput
  resumes : ∀ stall ∈ stalls, Recovered tokens stall.2.position stall.2.recover.position
  few : stalls.length ≤ (tokens.drop start).countP (·.kind = .semicolon) + 1

end Cursor

theorem NextSemicolon.count {tokens : List Token} {start k : Nat}
    (next : NextSemicolon tokens start k) :
    (tokens.drop (k + 1)).countP (·.kind = .semicolon) + 1 ≤
      (tokens.drop start).countP (·.kind = .semicolon) := by
  obtain ⟨t, here, semicolon⟩ := Option.map_eq_some_iff.mp next.semicolon
  obtain ⟨bounded, same⟩ := List.getElem?_eq_some_iff.mp here
  have counted : (tokens.drop k).countP (·.kind = .semicolon) =
      (tokens.drop (k + 1)).countP (·.kind = .semicolon) + 1 := by
    rw [List.drop_eq_getElem_cons bounded, same]
    exact List.countP_cons_of_pos (by simpa using semicolon)
  rw [← counted]
  exact (List.drop_sublist_drop_left tokens next.reached).countP_le

namespace Cursor.Marches

variable {tokens : List Token} {start start' : Nat} {mid : Cursor} {fault : SyntaxFault}
  {stalls : List (SyntaxFault × Cursor)}

theorem nil (tokens : List Token) (start : Nat) : Marches tokens start [] where
  on := List.forall_mem_nil _
  points := List.forall_mem_nil _
  reached := List.forall_mem_nil _
  ordered := .nil
  inside := List.forall_mem_nil _
  resumes := List.forall_mem_nil _
  few := Nat.zero_le _

theorem mono (marches : Marches tokens start stalls) (before : start' ≤ start) :
    Marches tokens start' stalls :=
  { marches with
    reached := fun stall member => Nat.le_trans before (marches.reached stall member)
    few := Nat.le_trans marches.few (Nat.succ_le_succ
      (List.drop_sublist_drop_left tokens before).countP_le) }

/-- One fault more in front of others, which are found behind its semicolon. -/
theorem cons (on : mid.On tokens) (points : fault.PointsAt mid.current)
    (recovered : Recovered tokens mid.position mid.recover.position)
    (goesOn : stalls ≠ [] → mid.recover.position < firstEnd tokens)
    (marches : Marches tokens mid.recover.position stalls) :
    Marches tokens mid.position ((fault, mid) :: stalls) where
  on := List.forall_mem_cons.mpr ⟨on, marches.on⟩
  points := List.forall_mem_cons.mpr ⟨points, marches.points⟩
  reached := List.forall_mem_cons.mpr ⟨Nat.le_refl _, fun stall member =>
    Nat.le_trans (recovered.le on.within) (marches.reached stall member)⟩
  ordered := by
    refine .cons (fun stall member => ?_) marches.ordered
    have before := goesOn (List.ne_nil_of_mem member)
    have ahead := recovered.lt (Nat.lt_of_le_of_lt (recovered.le on.within) before)
    exact Nat.lt_of_lt_of_le ahead (marches.reached stall member)
  inside := by
    cases stalls with
    | nil => exact List.forall_mem_nil _
    | cons later stalls =>
        have before := goesOn (List.cons_ne_nil _ _)
        refine List.forall_mem_cons.mpr ⟨?_, marches.inside⟩
        rw [Ne, on.end_iff]
        exact Nat.ne_of_lt (Nat.lt_of_le_of_lt (recovered.le on.within) before)
  resumes := List.forall_mem_cons.mpr ⟨recovered, marches.resumes⟩
  few := by
    cases stalls with
    | nil => exact Nat.succ_le_succ (Nat.zero_le _)
    | cons later stalls =>
        have before := goesOn (List.cons_ne_nil _ _)
        have few := marches.few
        generalize mid.recover.position = place at recovered few before
        cases recovered with
        | ended => exact absurd before (Nat.lt_irrefl _)
        | behind next => exact Nat.succ_le_succ (Nat.le_trans few next.count)

end Cursor.Marches

/-- The faults of a trail march forward. -/
theorem Cursor.Trail.marches {n : Nat} {c : Cursor} {tokens : List Token} {ts : List Stmt}
    {stalls : List (SyntaxFault × Cursor)} (trail : c.Trail n ts stalls) (on : c.On tokens)
    (ended : firstEnd tokens < tokens.length) : Marches tokens c.position stalls := by
  induction trail with
  | ended => exact .nil _ _
  | read _ ran _ ih =>
      obtain ⟨u, passes, nonempty⟩ := Rule.consuming_statement n (on.closed ended) ran
      exact (ih (on.passes passes)).mono (Nat.le_of_lt (passes.position_lt nonempty))
  | skip _ failed later ih =>
      obtain ⟨points, u, passes, -⟩ := (Rule.stallsAt n).statement (on.closed ended) failed
      have onMid := on.passes passes
      obtain ⟨onLater, recovered⟩ := onMid.recover ended
      have marches := Marches.cons onMid points recovered
        (fun some => onLater.before_end (mt later.stalls_of_end some)) (ih onLater)
      exact marches.mono (by rw [passes.position_eq]; exact Nat.le_add_right _ _)

/-- What a trail from the first token to the end comes to. -/
theorem parseTokens_of_trail {tokens : List Token} {c : Cursor} {ts : List Stmt}
    {stalls : List (SyntaxFault × Cursor)} (started : Cursor.ofTokens? tokens = some c)
    (closed : c.Closed) (trail : c.Trail (8 * tokens.length + 8) ts stalls) :
    parseTokens tokens = if stalls = [] then .ok ⟨ts⟩ else .error (stalls.map Prod.fst) := by
  have bounded : c.ahead.length ≤ tokens.length + 1 := by
    rw [Cursor.ahead_of_ofTokens? started]
    exact Nat.le_succ _
  have ran : Rule.program tokens.length (8 * tokens.length + 8) [] [] c = _ :=
    trail.program closed bounded
  simp only [parseTokens, started, ran, List.reverse_nil, List.nil_append]
  cases stalls <;> rfl

/-- The parser makes progress. The rules are made of rounds of loops, and every round consumes a
    token, as does every statement that is read or, if it is broken, skipped. The allowance of a
    statement is enough: it would make no difference which rules are called when it is used up. So
    reading comes to the end of the tokens, and the faults that it finds on the way march forward. -/
theorem parser_makes_progress (ts : List Token) (stop : Span) :
    let tokens : List Token := ts ++ [⟨.endOfInput, stop⟩]
    let allowance := 8 * tokens.length + 8
    (∀ n, Rules.given (n + 1) = (Rules.given n).above) ∧
      (∀ c : Cursor, c.On tokens → (∀ n, c.Progresses n) ∧ ∀ rules n, allowance ≤ n →
        (Rules.raised rules n).statement c = Rule.statement allowance c) ∧
      ∃ start statements stalls, Cursor.ofTokens? tokens = some start ∧
        start.Trail allowance statements stalls ∧
        parseTokens tokens =
          (if stalls = [] then .ok ⟨statements⟩ else .error (stalls.map Prod.fst)) ∧
        Cursor.Marches tokens 0 stalls := by
  intro tokens allowance
  have ended : firstEnd tokens < tokens.length := firstEnd_lt ts stop
  have started : Cursor.ofTokens? tokens = some (Cursor.start ts stop) :=
    Cursor.ofTokens?_start ts stop
  have on := Cursor.on_of_ofTokens? started
  refine ⟨Rules.given_succ, ?_, ?_⟩
  · intro c on
    have enough : c.need 0 1 ≤ allowance := by
      have size : c.ahead.length ≤ tokens.length := by
        rw [on.ahead, List.length_drop]
        exact Nat.sub_le _ _
      unfold Cursor.need
      omega
    have closed := on.closed ended
    exact ⟨closed.progresses, fun rules n more => Rule.statement_raised closed enough more rules⟩
  · obtain ⟨statements, stalls, trail⟩ := Cursor.exists_trail allowance (on.closed ended)
    refine ⟨_, statements, stalls, started, trail,
      parseTokens_of_trail started (on.closed ended) trail, ?_⟩
    exact (trail.marches on ended).mono (Nat.zero_le _)

/-- In `let ; ) x` the semicolon is itself what the first fault is about. Reading goes on directly
    behind it, and there are as many faults as one semicolon allows. -/
theorem parser_makes_progress_let :
    let ts : List Token := [⟨.letKeyword, ⟨0, 3⟩⟩, ⟨.semicolon, ⟨4, 5⟩⟩, ⟨.rightParen, ⟨6, 7⟩⟩,
      ⟨.ident "x", ⟨8, 9⟩⟩]
    let tokens : List Token := ts ++ [⟨.endOfInput, ⟨9, 9⟩⟩]
    let start := Cursor.start ts ⟨9, 9⟩
    (start.On tokens ∧ start.Progresses 48 ∧
      ((Rules.given 0).raised 50).statement start = Rule.statement 48 start) ∧
      ∃ stalls, Cursor.Marches tokens 0 stalls ∧ stalls.map Prod.fst = [
        .unexpected .name ⟨.semicolon, ⟨4, 5⟩⟩ .letStatement,
        { cause := .expectedExpression .rightParen, span := ⟨6, 7⟩ }] := by
  intro ts tokens start
  obtain ⟨-, moves, _, _, stalls, _, _, parsed, marches⟩ := parser_makes_progress ts ⟨9, 9⟩
  have on : start.On tokens := Cursor.on_of_ofTokens? rfl
  obtain ⟨progresses, raised⟩ := moves start on
  refine ⟨⟨on, progresses 48, raised (Rules.given 0) 50 (by decide)⟩, stalls, marches, ?_⟩
  have ran : parseTokens tokens = .error [
      .unexpected .name ⟨.semicolon, ⟨4, 5⟩⟩ .letStatement,
      { cause := .expectedExpression .rightParen, span := ⟨6, 7⟩ }] := rfl
  have same := ran.symm.trans parsed
  split at same
  · cases same
  · exact (Except.error.inj same).symm

end TreeWalk
