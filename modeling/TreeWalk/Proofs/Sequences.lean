import TreeWalk.Proofs.Locality

/-! # Statement after statement

A program is read as one statement after another, each with whatever allowance it needs. What is
read from some tokens is read from them again behind other statements and before other statements,
if the tokens end with a semicolon or are followed as before.
-/

namespace TreeWalk

open Grammar (Statements)
open Node (Laid)

namespace Cursor

/-- The statements are read between the two cursors, one after another. -/
inductive Reads : Cursor → List Stmt → Cursor → Prop where
  | nil {c : Cursor} : Reads c [] c
  | cons {c mid c' : Cursor} {n : Nat} {t : Stmt} {ts : List Stmt} :
      Rule.statement n c = .ok t mid → Reads mid ts c' → Reads c (t :: ts) c'

variable {c mid c' d d' : Cursor} {u v : List Token} {ts ss : List Stmt}

/-- Tokens up to an end marker are determined by the cursor. -/
theorem Passes.unique (first : c.Passes u c') (second : c.Passes v d')
    (ended : c'.current.kind = .endOfInput) (ended' : d'.current.kind = .endOfInput) :
    u = v ∧ c' = d' := by
  induction first generalizing v with
  | nil =>
      cases second with
      | nil => exact ⟨rfl, rfl⟩
      | cons here notEnd _ _ => exact absurd (here ▸ ended) notEnd
  | cons here notEnd _ _ ih =>
      cases second with
      | nil => exact absurd (here ▸ ended') notEnd
      | cons here' _ _ behind =>
          obtain ⟨rfl, rfl⟩ := ih behind ended
          exact ⟨by rw [← here, ← here'], rfl⟩

theorem exists_passes {t : Token} {more : List Token} (noEnd : ∀ s ∈ u, s.kind ≠ .endOfInput)
    (tokens : c.current :: c.rest = u ++ t :: more) :
    ∃ c', c.Passes u c' ∧ c'.current = t ∧ c'.rest = more := by
  induction u generalizing c with
  | nil =>
      obtain ⟨here, rest⟩ := List.cons.inj tokens
      exact ⟨c, .nil, here, rest⟩
  | cons s u ih =>
      obtain ⟨here, rest⟩ := List.cons.inj tokens
      obtain ⟨notEnd, noEnd⟩ := List.forall_mem_cons.mp noEnd
      have some : c.rest ≠ [] := by simp [rest]
      obtain ⟨next, after, behind⟩ := List.exists_cons_of_ne_nil some
      have moved : c.advance.current :: c.advance.rest = u ++ t :: more := by
        rw [advance_eq (here ▸ notEnd) behind, ← behind]
        exact rest
      obtain ⟨c', passes, same⟩ := ih noEnd moved
      exact ⟨c', .cons here notEnd some passes, same⟩

namespace Reads

theorem append (first : c.Reads ts mid) (second : mid.Reads ss c') : c.Reads (ts ++ ss) c' := by
  induction first with
  | nil => exact second
  | cons read _ ih => exact .cons read (ih second)

/-- What is read is laid out over the tokens, and is read from them again. -/
theorem repeats (reads : c.Reads ts c') (closed : c.Closed) :
    ∃ u, c.Passes u c' ∧ (∀ t ∈ ts, Laid u (.statement t)) ∧
      ∀ {d d' : Cursor}, d.Passes u d' → (u ≠ [] → Ended u → c'.Meets d') → d.Reads ts d' := by
  induction reads with
  | nil =>
      refine ⟨[], .nil, nofun, ?_⟩
      intro d d' again _
      rw [again.eq_of_nil]
      exact .nil
  | @cons c mid c' n t ts read _ ih =>
      obtain ⟨u, passes, ⟨nonempty, laid⟩, replays⟩ :=
        (Rule.repeatsAt n).statement False c closed read
      obtain ⟨v, passesLater, laidLater, replaysLater⟩ := ih (passes.closed closed)
      refine ⟨u ++ v, passes.append passesLater, ?_, ?_⟩
      · refine List.forall_mem_cons.mpr ⟨laid.widen (List.prefix_append _ _).isInfix, ?_⟩
        exact fun s member => (laidLater s member).widen (List.suffix_append _ _).isInfix
      · intro d d' again meet
        obtain ⟨mid', first, second⟩ := again.split
        -- The token behind the first statement is the next one, unless there is none.
        have meets : Ended u → mid.Meets mid' := by
          intro ended
          refine passesLater.meets second ?_
          rintro rfl
          exact meet (by simpa using nonempty) (by rwa [List.append_nil])
        exact .cons (replays (Nat.le_refl n) nofun first meets)
          (replaysLater second fun some ended => meet (by simp [some]) (ended_append some ended))

/-- Reading to the end has one result. -/
theorem unique (first : c.Reads ts c') (second : c.Reads ss d') (closed : c.Closed)
    (ended : c'.current.kind = .endOfInput) (ended' : d'.current.kind = .endOfInput) : ts = ss := by
  -- No statement is read at the end.
  have idle {c mid : Cursor} {n : Nat} {t : Stmt} (closed : c.Closed)
      (read : Rule.statement n c = .ok t mid) : c.current.kind ≠ .endOfInput := by
    obtain ⟨u, passes, ⟨nonempty, _⟩, _⟩ := (Rule.repeatsAt n).statement False c closed read
    obtain ⟨s, u, rfl⟩ := List.exists_cons_of_ne_nil nonempty
    rw [passes.current]
    exact passes.noEnd s List.mem_cons_self
  induction first generalizing ss with
  | nil =>
      cases second with
      | nil => rfl
      | cons read _ => exact absurd ended (idle closed read)
  | @cons c mid c' n t ts read _ ih =>
      cases second with
      | nil => exact absurd ended' (idle closed read)
      | @cons _ mid' _ m s ss read' later =>
          obtain ⟨u, passes, _, replays⟩ := (Rule.repeatsAt n).statement False c closed read
          obtain ⟨v, passes', _, replays'⟩ := (Rule.repeatsAt m).statement False c closed read'
          have same := replays (Nat.le_max_left n m) nofun passes fun _ => .inl rfl
          have same' := replays' (Nat.le_max_right n m) nofun passes' fun _ => .inl rfl
          cases same.symm.trans same'
          rw [ih later (passes.closed closed) ended]

theorem derived {kinds : List TokenKind} (reads : c.Reads ts c') (shows : c.Shows kinds) :
    ∃ rest, c'.Shows rest ∧ Statements kinds ts rest := by
  induction reads generalizing kinds with
  | nil => exact ⟨kinds, shows, .nil⟩
  | cons read _ ih =>
      obtain ⟨middle, behind, head⟩ := (Rule.soundAt _).statement shows read
      obtain ⟨rest, ends, tail⟩ := ih behind
      exact ⟨rest, ends, .cons head tail⟩

end Reads

end Cursor

def Cursor.start (ts : List Token) (stop : Span) : Cursor :=
  match ts with
  | [] => ⟨0, .zero, ⟨.endOfInput, stop⟩, []⟩
  | t :: ts => ⟨0, .zero, t, ts ++ [⟨.endOfInput, stop⟩]⟩

theorem Rule.reads_of_program {bound allowance : Nat} {read ts : List Stmt} {c : Cursor}
    {kinds : List TokenKind} (shows : c.Shows kinds) (enough : kinds.length ≤ bound)
    (parsed : program bound allowance read [] c = (ts, [])) :
    ∃ more c', ts = read.reverse ++ more ∧ c.Reads more c' ∧ c'.current.kind = .endOfInput := by
  induction bound generalizing read c kinds with
  | zero =>
      obtain rfl := List.length_eq_zero_iff.mp (Nat.le_zero.mp enough)
      cases parsed
      exact ⟨[], c, by simp, .nil, shows⟩
  | succ bound ih =>
      unfold program at parsed
      by_cases finished : c.atEnd = true
      · obtain rfl := shows.atEnd_iff.mp finished
        simp only [finished, if_true] at parsed
        cases parsed
        exact ⟨[], c, by simp, .nil, shows⟩
      · simp only [finished, Bool.false_eq_true, if_false] at parsed
        cases first : statement allowance c with
        | error fault mid =>
            simp only [first] at parsed
            exact absurd (congrArg Prod.snd parsed) (program_faults_ne_nil _ _ _ _ _ _)
        | ok t mid =>
            simp only [first] at parsed
            obtain ⟨middle, afterFirst, head⟩ := (soundAt allowance).statement shows first
            have shorter := head.length_lt
            obtain ⟨more, c', rfl, reads, ended⟩ := ih afterFirst (by omega) parsed
            exact ⟨t :: more, c', by simp, .cons first reads, ended⟩

section Parsing

variable {ts : List Token} {stop : Span} {p : Program}

theorem Cursor.start_shows (noEnd : ∀ t ∈ ts, t.kind ≠ .endOfInput) :
    (Cursor.start ts stop).Shows (ts.map Token.kind) := by
  cases ts with
  | nil => rfl
  | cons t ts => exact Cursor.shows_of_tokens (t :: ts) stop 0 .zero t _ rfl noEnd

theorem Cursor.tokens_start (ts : List Token) (stop : Span) :
    (Cursor.start ts stop).current :: (Cursor.start ts stop).rest =
      ts ++ [⟨.endOfInput, stop⟩] := by
  cases ts <;> rfl

theorem Cursor.start_passes (noEnd : ∀ t ∈ ts, t.kind ≠ .endOfInput) :
    ∃ c', (Cursor.start ts stop).Passes ts c' ∧ c'.current.kind = .endOfInput := by
  obtain ⟨c', passes, here, _⟩ := Cursor.exists_passes noEnd (Cursor.tokens_start ts stop)
  exact ⟨c', passes, by rw [here]⟩

theorem Cursor.ofTokens?_start (ts : List Token) (stop : Span) :
    Cursor.ofTokens? (ts ++ [⟨.endOfInput, stop⟩]) = some (Cursor.start ts stop) := by
  cases ts <;> rfl

theorem exists_reads_of_parseTokens (noEnd : ∀ t ∈ ts, t.kind ≠ .endOfInput)
    (parsed : parseTokens (ts ++ [⟨.endOfInput, stop⟩]) = .ok p) :
    ∃ c', (Cursor.start ts stop).Reads p.statements c' ∧ c'.current.kind = .endOfInput := by
  simp only [parseTokens, Cursor.ofTokens?_start] at parsed
  split at parsed
  · rename_i statements read
    cases parsed
    obtain ⟨more, c', same, reads, ended⟩ :=
      Rule.reads_of_program (Cursor.start_shows noEnd) (by simp) read
    obtain rfl : statements = more := by simpa using same
    exact ⟨c', reads, ended⟩
  · cases parsed

/-- The parser reads what can be read statement by statement: its allowance is enough. -/
theorem parseTokens_iff_reads (noEnd : ∀ t ∈ ts, t.kind ≠ .endOfInput) :
    parseTokens (ts ++ [⟨.endOfInput, stop⟩]) = .ok p ↔
      ∃ c', (Cursor.start ts stop).Reads p.statements c' ∧ c'.current.kind = .endOfInput := by
  refine ⟨exists_reads_of_parseTokens noEnd, ?_⟩
  rintro ⟨c', reads, ended⟩
  have shows : (Cursor.start ts stop).Shows (ts.map Token.kind) := Cursor.start_shows noEnd
  obtain ⟨rest, behind, derived⟩ := reads.derived shows
  obtain rfl := behind.eq_nil (behind.current.symm.trans ended)
  obtain ⟨q, parsed, _⟩ := exists_parseTokens_of_derives stop noEnd derived
  obtain ⟨c'', reads', ended'⟩ := exists_reads_of_parseTokens noEnd parsed
  rw [parsed, show q = p from congrArg Program.mk (reads'.unique reads ⟨_, shows⟩ ended' ended)]

/-- What is read from some tokens is laid out over them, and is read from them wherever they stand
    if they are followed by the end or closed by a semicolon. -/
theorem repeats_of_parseTokens (noEnd : ∀ t ∈ ts, t.kind ≠ .endOfInput)
    (parsed : parseTokens (ts ++ [⟨.endOfInput, stop⟩]) = .ok p) :
    (∀ t ∈ p.statements, Laid ts (.statement t)) ∧ ∀ {d d' : Cursor}, d.Passes ts d' →
      (ts ≠ [] → Ended ts → d'.current.kind = .endOfInput) → d.Reads p.statements d' := by
  obtain ⟨c', reads, ended⟩ := exists_reads_of_parseTokens noEnd parsed
  obtain ⟨u, first, laid, again⟩ := reads.repeats ⟨_, Cursor.start_shows noEnd⟩
  obtain ⟨_, whole, finish⟩ := Cursor.start_passes noEnd
  obtain ⟨rfl, -⟩ := first.unique whole ended finish
  refine ⟨laid, ?_⟩
  intro d d' passes behind
  exact again passes fun nonempty open_ => .inr (behind nonempty open_)

end Parsing

end TreeWalk
