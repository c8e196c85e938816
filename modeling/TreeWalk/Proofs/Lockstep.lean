import TreeWalk.Proofs.Bare
import TreeWalk.Proofs.Sequences

/-! # Rules in lockstep

Two cursors may see the same tokens ahead up to some place only, and may see little of their spans.
A rule does the same at both of them as long as it has not gone beyond that place: it consumes as
many tokens, and reads the same or fails for the same cause. It is enough that the allowances of
both readings cover the tokens up to that place.
-/

namespace TreeWalk

variable {look : Span → Span} {floor : Nat}

/-- The tokens are of the same kinds, at spans that look alike, as long as at least `floor` tokens
    of the first list are left. -/
inductive AgreeAbove (look : Span → Span) (floor : Nat) : List Token → List Token → Prop where
  | few : ts.length < floor → AgreeAbove look floor ts ss
  | nil : AgreeAbove look floor [] []
  | cons {t s : Token} : t.kind = s.kind → look t.span = look s.span → AgreeAbove look floor ts ss →
      AgreeAbove look floor (t :: ts) (s :: ss)

theorem AgreeAbove.append {ts ss : List Token}
    (few : ts.length < floor) (u : List Token) : AgreeAbove look floor (u ++ ts) (u ++ ss) := by
  induction u with
  | nil => exact .few few
  | cons t u ih => exact .cons rfl rfl ih

namespace Cursor

def ahead (c : Cursor) : List Token := c.current :: c.rest

/-- The first cursor is closed, and the second one sees the same ahead. -/
structure Agrees (look : Span → Span) (floor : Nat) (c d : Cursor) : Prop where
  closed : c.Closed
  tokens : AgreeAbove look floor c.ahead d.ahead

/-- As many tokens stand between the cursors of one reading as between those of the other, unless
    the first has gone beyond the tokens that agree. -/
def Level (floor : Nat) (c d c' d' : Cursor) : Prop :=
  floor ≤ c'.ahead.length → c'.ahead.length + d.ahead.length = c.ahead.length + d'.ahead.length

/-- An allowance that lets a rule read at the cursor until fewer than `floor` tokens are left. Rules
    that call others at the same cursor have less slack. -/
def need (floor slack : Nat) (c : Cursor) : Nat := 5 * (c.ahead.length + 1 - floor) - slack

variable {c d c' : Cursor} {u : List Token}

theorem Level.trans {c'' d' d'' : Cursor}
    (shrinks : c''.ahead.length ≤ c'.ahead.length) (first : Level floor c d c' d')
    (second : Level floor c' d' c'' d'') : Level floor c d c'' d'' := by
  intro still
  have before := first (Nat.le_trans still shrinks)
  have later := second still
  omega

theorem advance_of_end (ended : c.current.kind = .endOfInput) : c.advance = c := by
  unfold advance
  split
  · rfl
  · simp [atEnd, Token.isEnd, ended]

theorem ahead_advance (closed : c.Closed) (notEnd : c.current.kind ≠ .endOfInput) :
    c.advance.ahead = c.rest := by
  obtain ⟨t, ts, rest⟩ := List.exists_cons_of_ne_nil (closed.rest_ne_nil notEnd)
  rw [advance_eq notEnd rest, rest]
  rfl

theorem length_advance_lt (closed : c.Closed) (notEnd : c.current.kind ≠ .endOfInput) :
    c.advance.ahead.length < c.ahead.length := by
  rw [ahead_advance closed notEnd]
  exact Nat.lt_succ_self _

theorem Passes.ahead_eq (passes : c.Passes u c') : c.ahead = u ++ c'.ahead := by
  induction passes with
  | nil => rfl
  | @cons c c' t u here notEnd more _ ih =>
      obtain ⟨s, ss, rest⟩ := List.exists_cons_of_ne_nil more
      rw [advance_eq (here ▸ notEnd) rest, ahead, ← rest] at ih
      rw [ahead, here, List.cons_append, ← ih]

theorem Passes.length_eq (passes : c.Passes u c') :
    c.ahead.length = u.length + c'.ahead.length := by
  rw [passes.ahead_eq, List.length_append]

theorem Passes.length_lt (passes : c.Passes u c') (nonempty : u ≠ []) :
    c'.ahead.length < c.ahead.length := by
  obtain ⟨t, u, rfl⟩ := List.exists_cons_of_ne_nil nonempty
  rw [passes.length_eq, List.length_cons]
  omega

theorem Closed.step (closed : c.Closed) : c.advance.Closed := by
  by_cases ended : c.current.kind = .endOfInput
  · rwa [advance_of_end ended]
  · exact closed.advance ended

theorem Closed.shrinks (closed : c.Closed) : c.advance.ahead.length ≤ c.ahead.length := by
  by_cases ended : c.current.kind = .endOfInput
  · exact Nat.le_of_eq (congrArg (·.ahead.length) (advance_of_end ended))
  · exact Nat.le_of_lt (length_advance_lt closed ended)

namespace Agrees

theorem current (agrees : c.Agrees look floor d) (above : floor ≤ c.ahead.length) :
    c.current.kind = d.current.kind ∧ look c.current.span = look d.current.span := by
  cases agrees.tokens with
  | few short => exact absurd short (Nat.not_lt_of_le above)
  | cons kinds spans _ => exact ⟨kinds, spans⟩

theorem advance (agrees : c.Agrees look floor d) : c.advance.Agrees look floor d.advance := by
  refine ⟨agrees.closed.step, ?_⟩
  cases agrees.tokens with
  | few short => exact .few (Nat.lt_of_le_of_lt agrees.closed.shrinks short)
  | cons kinds spans rest =>
      by_cases ended : c.current.kind = .endOfInput
      · rw [advance_of_end ended, advance_of_end (kinds ▸ ended)]
        exact agrees.tokens
      · rw [ahead_advance agrees.closed ended]
        obtain ⟨t, ts, more⟩ := List.exists_cons_of_ne_nil (agrees.closed.rest_ne_nil ended)
        cases behind : d.rest with
        | nil =>
            rw [more, behind] at rest
            cases rest with
            | few short => exact .few (more ▸ short)
        | cons s ss =>
            rw [advance_eq (kinds ▸ ended) behind]
            rwa [behind] at rest

theorem level_advance (agrees : c.Agrees look floor d) :
    Level floor c d c.advance d.advance := by
  intro still
  cases agrees.tokens with
  | few short => exact absurd (Nat.le_trans still agrees.closed.shrinks) (Nat.not_le_of_lt short)
  | cons kinds _ rest =>
      by_cases ended : c.current.kind = .endOfInput
      · rw [advance_of_end ended, advance_of_end (kinds ▸ ended)]
      · rw [ahead_advance agrees.closed ended] at still ⊢
        obtain ⟨t, ts, more⟩ := List.exists_cons_of_ne_nil (agrees.closed.rest_ne_nil ended)
        cases behind : d.rest with
        | nil =>
            rw [more, behind] at rest
            cases rest with
            | few short => exact absurd (more ▸ still) (Nat.not_le_of_lt short)
        | cons s ss =>
            rw [advance_eq (kinds ▸ ended) behind]
            simp only [ahead, behind, List.length_cons]
            omega

end Agrees

end Cursor

/-- The faults have the same cause and were claimed for the same construct, at spans that look
    alike. -/
structure SyntaxFault.Alike (look : Span → Span) (fault fault' : SyntaxFault) : Prop where
  cause : fault.cause = fault'.cause
  construct : fault.construct = fault'.construct
  span : look fault.span = look fault'.span

theorem SyntaxFault.Alike.eq {fault fault' : SyntaxFault} (alike : fault.Alike id fault') :
    fault = fault' := by
  obtain ⟨cause, span, construct⟩ := fault
  obtain ⟨cause', span', construct'⟩ := fault'
  obtain ⟨rfl, rfl, rfl⟩ := alike
  rfl

namespace Rule

variable {α β γ δ : Type}

/-- The cursor behind a reading. -/
def behind : EStateM.Result SyntaxFault Cursor α → Cursor
  | .ok _ c | .error _ c => c

/-- Both readings succeed or both fail, in ways that look alike, unless the first has gone beyond
    the tokens that agree. -/
inductive Outcome (look : Span → Span) (floor : Nat) (view : α → γ) :
    (result result' : EStateM.Result SyntaxFault Cursor α) → Prop where
  | beyond : (behind result).ahead.length < floor → Outcome look floor view result result'
  | read : view a = view b → c.Agrees look floor d → Outcome look floor view (.ok a c) (.ok b d)
  | failed : fault.Alike look fault' → c.Agrees look floor d →
      Outcome look floor view (.error fault c) (.error fault' d)

structure Lockstep (look : Span → Span) (floor : Nat) (view : α → γ) (rule rule' : Rule α)
    (c d : Cursor) : Prop where
  closed : (behind (rule c)).Closed
  shrinks : (behind (rule c)).ahead.length ≤ c.ahead.length
  outcome : Outcome look floor view (rule c) (rule' d)
  level : c.Level floor d (behind (rule c)) (behind (rule' d))

variable {view : α → γ} {view' : β → δ} {c d : Cursor}

theorem bind_of_error {rule : Rule α} {after : α → Rule β} {fault : SyntaxFault} {c' : Cursor}
    (failed : rule c = .error fault c') : (rule >>= after) c = .error fault c' := by
  change EStateM.bind rule after c = _
  simp only [EStateM.bind, failed]

namespace Lockstep

theorem of_beyond {rule rule' : Rule α} (closed : (behind (rule c)).Closed)
    (shrinks : (behind (rule c)).ahead.length ≤ c.ahead.length)
    (few : (behind (rule c)).ahead.length < floor) : Lockstep look floor view rule rule' c d :=
  ⟨closed, shrinks, .beyond few, fun still => absurd few (Nat.not_lt_of_le still)⟩

theorem of_above {rule rule' : Rule α} (closed : (behind (rule c)).Closed)
    (shrinks : (behind (rule c)).ahead.length ≤ c.ahead.length)
    (above : floor ≤ c.ahead.length → Outcome look floor view (rule c) (rule' d) ∧
      c.Level floor d (behind (rule c)) (behind (rule' d))) :
    Lockstep look floor view rule rule' c d := by
  by_cases few : c.ahead.length < floor
  · exact .of_beyond closed shrinks (Nat.lt_of_le_of_lt shrinks few)
  · obtain ⟨outcome, level⟩ := above (Nat.le_of_not_lt few)
    exact ⟨closed, shrinks, outcome, level⟩

theorem bind {first first' : Rule α} {next next' : α → Rule β}
    (begins : Lockstep look floor view first first' c d)
    (goesOn : ∀ a b mid mid', first c = .ok a mid → mid.ahead.length ≤ c.ahead.length →
      view a = view b → mid.Agrees look floor mid' →
      Lockstep look floor view' (next a) (next' b) mid mid') :
    Lockstep look floor view' (first >>= next) (first' >>= next') c d := by
  obtain ⟨closed, shrinks, outcome, level⟩ := begins
  cases ran : first c with
  | error fault mid =>
      have joined : (first >>= next) c = .error fault mid := bind_of_error ran
      have stops : behind ((first >>= next) c) = mid := congrArg behind joined
      rw [ran] at closed shrinks outcome level
      rw [behind, ← stops] at closed shrinks
      cases ran' : first' d with
      | ok b mid' =>
          rw [ran'] at outcome
          cases outcome with
          | beyond few => exact .of_beyond closed shrinks (by rwa [stops])
      | error fault' mid' =>
          have joined' : (first' >>= next') d = .error fault' mid' := bind_of_error ran'
          rw [ran'] at outcome level
          cases outcome with
          | beyond few => exact .of_beyond closed shrinks (by rwa [stops])
          | failed alike agrees =>
              refine ⟨closed, shrinks, ?_, ?_⟩
              · rw [joined, joined']
                exact .failed alike agrees
              · rw [joined, joined']
                exact level
  | ok a mid =>
      rw [ran] at closed shrinks outcome level
      rw [behind] at closed shrinks
      -- Beyond the tokens that agree, the first rule is its own companion.
      have alone : mid.ahead.length < floor →
          Lockstep look floor view' (next a) (next' a) mid mid :=
        fun few => goesOn a a mid mid ran shrinks rfl ⟨closed, .few few⟩
      have joined : (first >>= next) c = next a mid := bind_of_ok ran
      by_cases few : mid.ahead.length < floor
      · obtain ⟨closedLater, shrinksLater, _, _⟩ := alone few
        rw [← joined] at closedLater shrinksLater
        exact .of_beyond closedLater (Nat.le_trans shrinksLater shrinks)
          (Nat.lt_of_le_of_lt shrinksLater few)
      · cases ran' : first' d with
        | error fault' mid' =>
            rw [ran'] at outcome
            cases outcome with
            | beyond few' => exact absurd few' few
        | ok b mid' =>
            rw [ran'] at outcome level
            cases outcome with
            | beyond few' => exact absurd few' few
            | read same agrees =>
                obtain ⟨closedLater, shrinksLater, outcome, levelLater⟩ :=
                  goesOn a b mid mid' ran shrinks same agrees
                have levels := Cursor.Level.trans shrinksLater level levelLater
                have joined' : (first' >>= next') d = next' b mid' := bind_of_ok ran'
                rw [← joined] at closedLater shrinksLater outcome levels
                rw [← joined'] at outcome levels
                exact ⟨closedLater, Nat.le_trans shrinksLater shrinks, outcome, levels⟩

end Lockstep

section Steps

variable (agrees : c.Agrees look floor d)

include agrees

theorem lockstep_stays {rule rule' : Rule α} {a : α} (ran : rule c = .ok a c)
    (ran' : floor ≤ c.ahead.length → ∃ b, rule' d = .ok b d ∧ view a = view b) :
    Lockstep look floor view rule rule' c d := by
  refine .of_above (by rw [ran]; exact agrees.closed) (by rw [ran]; exact Nat.le_refl _) ?_
  intro above
  obtain ⟨b, ran', same⟩ := ran' above
  rw [ran, ran']
  exact ⟨.read same agrees, fun _ => rfl⟩

theorem lockstep_moves {rule rule' : Rule α} {a : α} (ran : rule c = .ok a c.advance)
    (ran' : floor ≤ c.ahead.length → ∃ b, rule' d = .ok b d.advance ∧ view a = view b) :
    Lockstep look floor view rule rule' c d := by
  refine .of_above (by rw [ran]; exact agrees.closed.step)
    (by rw [ran]; exact agrees.closed.shrinks) ?_
  intro above
  obtain ⟨b, ran', same⟩ := ran' above
  rw [ran, ran']
  exact ⟨.read same agrees.advance, agrees.level_advance⟩

theorem lockstep_fails {rule rule' : Rule α} (cause : TokenKind → SyntaxCause)
    (construct : Option Construct)
    (ran : rule c = .error ⟨cause c.current.kind, c.current.span, construct⟩ c)
    (ran' : floor ≤ c.ahead.length →
      rule' d = .error ⟨cause d.current.kind, d.current.span, construct⟩ d) :
    Lockstep look floor view rule rule' c d := by
  refine .of_above (by rw [ran]; exact agrees.closed) (by rw [ran]; exact Nat.le_refl _) ?_
  intro above
  obtain ⟨kinds, spans⟩ := agrees.current above
  rw [ran, ran' above]
  exact ⟨.failed ⟨congrArg cause kinds, rfl, spans⟩ agrees, fun _ => rfl⟩

theorem lockstep_pure {a b : α} (same : view a = view b) :
    Lockstep look floor view (pure a) (pure b) c d :=
  lockstep_stays agrees rfl fun _ => ⟨b, rfl, same⟩

theorem lockstep_previous : Lockstep look floor (fun _ => ()) previous previous c d :=
  lockstep_stays agrees rfl fun _ => ⟨_, rfl, rfl⟩

theorem lockstep_advance : Lockstep look floor (fun _ => ()) advance advance c d :=
  lockstep_moves agrees rfl fun _ => ⟨_, rfl, rfl⟩

theorem lockstep_noExpression : Lockstep look floor view noExpression noExpression c d :=
  lockstep_fails agrees .expectedExpression none rfl fun _ => rfl

theorem check_eq (kind : TokenKind) (above : floor ≤ c.ahead.length) :
    d.check kind = c.check kind := by
  simp only [Cursor.check, (agrees.current above).1]

theorem lockstep_eat (kind : TokenKind) : Lockstep look floor id (eat kind) (eat kind) c d := by
  by_cases here : c.check kind = true
  · refine lockstep_moves agrees (a := true) (by simp [eat, Cursor.eat, here]) fun above => ?_
    exact ⟨true, by simp [eat, Cursor.eat, check_eq agrees kind above, here], rfl⟩
  · refine lockstep_stays agrees (a := false) (by simp [eat, Cursor.eat, here]) fun above => ?_
    exact ⟨false, by simp [eat, Cursor.eat, check_eq agrees kind above, here], rfl⟩

theorem lockstep_expect (kind : TokenKind) (construct : Construct) :
    Lockstep look floor (fun _ => ()) (expect kind construct) (expect kind construct) c d := by
  by_cases here : c.check kind = true
  · refine lockstep_moves agrees (a := c.current.span) (by simp [expect, Cursor.expect, here]) ?_
    intro above
    exact ⟨_, by simp [expect, Cursor.expect, check_eq agrees kind above, here]; rfl, rfl⟩
  · refine lockstep_fails agrees (.unexpectedToken (.token kind)) (some construct)
      (by simp [expect, Cursor.expect, here, SyntaxFault.unexpected]) ?_
    intro above
    simp [expect, Cursor.expect, check_eq agrees kind above, here, SyntaxFault.unexpected]

theorem lockstep_expectName (construct : Construct) :
    Lockstep look floor id (expectName construct) (expectName construct) c d := by
  cases here : c.current.kind with
  | ident name =>
      refine lockstep_moves agrees (a := name) (by simp [expectName, Cursor.expectName, here]) ?_
      intro above
      have same := (agrees.current above).1
      exact ⟨name, by simp [expectName, Cursor.expectName, ← same, here], rfl⟩
  | _ =>
      refine lockstep_fails agrees (.unexpectedToken .name) (some construct)
        (by simp [expectName, Cursor.expectName, here, SyntaxFault.unexpected]) ?_
      intro above
      have same := (agrees.current above).1
      simp [expectName, Cursor.expectName, ← same, here, SyntaxFault.unexpected]

omit agrees in
theorem lockstep_within (construct : Construct) {rule rule' : Rule α}
    (inner : Lockstep look floor view rule rule' c d) :
    Lockstep look floor view (within construct rule) (within construct rule') c d := by
  have same (rule : Rule α) (c : Cursor) : behind (within construct rule c) = behind (rule c) := by
    unfold within
    cases rule c <;> rfl
  refine ⟨by rw [same]; exact inner.closed, by rw [same]; exact inner.shrinks, ?_,
    by rw [same, same]; exact inner.level⟩
  have outcome := inner.outcome
  unfold within
  cases ran : rule c with
  | ok a mid =>
      cases ran' : rule' d with
      | ok b mid' => rwa [ran, ran'] at outcome
      | error fault' mid' =>
          rw [ran, ran'] at outcome
          cases outcome with
          | beyond few => exact .beyond few
  | error fault mid =>
      cases ran' : rule' d with
      | ok b mid' =>
          rw [ran, ran'] at outcome
          cases outcome with
          | beyond few => exact .beyond few
      | error fault' mid' =>
          rw [ran, ran'] at outcome
          cases outcome with
          | beyond few => exact .beyond few
          | failed alike agrees =>
              have claimed := congrArg (·.or (some construct)) alike.construct
              exact .failed ⟨alike.cause, claimed, alike.span⟩ agrees

theorem lockstep_current {next next' : Token → Rule α}
    (goesOn : ∀ t : Token, t.kind = c.current.kind →
      Lockstep look floor view (next c.current) (next' t) c d) :
    Lockstep look floor view (current >>= next) (current >>= next') c d := by
  have alone := goesOn c.current rfl
  refine .of_above ?_ ?_ fun above => ?_
  · rw [bind_of_ok current_ok]
    exact alone.closed
  · rw [bind_of_ok current_ok]
    exact alone.shrinks
  · rw [bind_of_ok current_ok, bind_of_ok current_ok]
    obtain ⟨_, _, outcome, level⟩ := goesOn d.current (agrees.current above).1.symm
    exact ⟨outcome, level⟩

end Steps

def Later (look : Span → Span) (floor : Nat) (view : α → γ) (c : Cursor) (rule rule' : Rule α) :
    Prop :=
  ∀ ⦃mid mid'⦄, mid.ahead.length < c.ahead.length → mid.Agrees look floor mid' →
    Lockstep look floor view rule rule' mid mid'

section Forms

variable (agrees : c.Agrees look floor d)

include agrees

theorem lockstep_listed {items items' : Rule (List α)} {view : List α → γ}
    (list : ∀ {mid mid'}, mid.ahead.length ≤ c.ahead.length → mid.Agrees look floor mid' →
      Lockstep look floor view items items' mid mid') :
    Lockstep look floor view (listed items) (listed items') c d := by
  unfold listed
  refine (lockstep_eat agrees _).bind fun ate ate' c₁ d₁ _ shrinks same agrees₁ => ?_
  obtain rfl : ate = ate' := same
  cases ate with
  | true => exact lockstep_pure agrees₁ rfl
  | false => exact list shrinks agrees₁

variable (notEnd : c.current.kind ≠ .endOfInput)

include notEnd

theorem lockstep_advancing {next next' : Span → Rule α}
    (goesOn : ∀ span span' mid mid', mid.ahead.length < c.ahead.length →
      mid.Agrees look floor mid' → Lockstep look floor view (next span) (next' span') mid mid') :
    Lockstep look floor view (advance >>= next) (advance >>= next') c d := by
  refine (lockstep_advance agrees).bind fun span span' c₁ d₁ moved _ _ agrees₁ => ?_
  obtain ⟨-, rfl⟩ := advance_eq_ok.mp moved
  exact goesOn span span' c.advance d₁ (Cursor.length_advance_lt agrees.closed notEnd) agrees₁

theorem lockstep_binding {value value' : Rule Expr}
    (inner : Later look floor Expr.bare c value value') :
    Lockstep look floor Stmt.bare (binding value) (binding value') c d := by
  refine lockstep_advancing agrees notEnd fun _ _ c₁ d₁ less agrees₁ => ?_
  refine (lockstep_expectName agrees₁ _).bind fun name name' c₂ d₂ _ shrinks₂ same agrees₂ => ?_
  obtain rfl : name = name' := same
  refine (lockstep_expect agrees₂ _ _).bind fun _ _ c₃ d₃ _ shrinks₃ _ agrees₃ => ?_
  refine (lockstep_within _ (inner (by omega) agrees₃)).bind fun e e' c₄ d₄ _ _ bare agrees₄ => ?_
  refine (lockstep_eat agrees₄ _).bind fun _ _ c₅ d₅ _ _ _ agrees₅ => ?_
  refine (lockstep_previous agrees₅).bind fun _ _ c₆ d₆ _ _ _ agrees₆ => ?_
  exact lockstep_pure agrees₆ (by simp only [Stmt.bare, Stmt.mapSpans, bare])

theorem lockstep_returning {value value' : Rule (Option Expr)}
    (inner : Later look floor (Option.map Expr.bare) c value value') :
    Lockstep look floor Stmt.bare (returning value) (returning value') c d := by
  refine lockstep_advancing agrees notEnd fun _ _ c₁ d₁ less agrees₁ => ?_
  refine (inner less agrees₁).bind fun e e' c₂ d₂ _ _ bare agrees₂ => ?_
  refine (lockstep_eat agrees₂ _).bind fun _ _ c₃ d₃ _ _ _ agrees₃ => ?_
  refine (lockstep_previous agrees₃).bind fun _ _ c₄ d₄ _ _ _ agrees₄ => ?_
  refine lockstep_pure agrees₄ ?_
  rw [Stmt.bare, Stmt.bare, Stmt.mapSpans_ret, Stmt.mapSpans_ret, bare]

omit agrees notEnd in
theorem lockstep_standing {value value' : Rule Expr}
    (inner : Lockstep look floor Expr.bare value value' c d) :
    Lockstep look floor Stmt.bare (standing value) (standing value') c d := by
  refine inner.bind fun e e' c₁ d₁ _ _ bare agrees₁ => ?_
  refine (lockstep_eat agrees₁ _).bind fun ate ate' c₂ d₂ _ _ same agrees₂ => ?_
  obtain rfl : ate = ate' := same
  have bares (span span' : Span) : (Stmt.expr span e).bare = (Stmt.expr span' e').bare := by
    simp only [Stmt.bare, Stmt.mapSpans, bare]
  cases ate with
  | true =>
      refine (lockstep_previous agrees₂).bind fun _ _ c₃ d₃ _ _ _ agrees₃ => ?_
      exact lockstep_pure agrees₃ (bares _ _)
  | false => exact lockstep_pure agrees₂ (bares _ _)

theorem lockstep_grouping {inner inner' : Rule Expr}
    (held : Later look floor Expr.bare c inner inner') :
    Lockstep look floor Expr.bare (grouping inner) (grouping inner') c d := by
  refine lockstep_advancing agrees notEnd fun _ _ c₁ d₁ less agrees₁ => ?_
  refine (lockstep_within _ (held less agrees₁)).bind fun e e' c₂ d₂ _ _ bare agrees₂ => ?_
  refine (lockstep_expect agrees₂ _ _).bind fun _ _ c₃ d₃ _ _ _ agrees₃ => ?_
  exact lockstep_pure agrees₃ (by rw [Expr.bare_withSpan, Expr.bare_withSpan, bare])

theorem lockstep_conditional {condition condition' : Rule Expr} {branch branch' : Rule Block}
    (test : Later look floor Expr.bare c condition condition')
    (braced : Later look floor Block.bare c branch branch') :
    Lockstep look floor Expr.bare (conditional condition branch) (conditional condition' branch')
      c d := by
  refine lockstep_advancing agrees notEnd fun _ _ c₁ d₁ less agrees₁ => ?_
  refine (lockstep_expect agrees₁ _ _).bind fun _ _ c₂ d₂ _ shrinks₂ _ agrees₂ => ?_
  refine (lockstep_within _ (test (by omega) agrees₂)).bind
    fun e e' c₃ d₃ _ shrinks₃ bare agrees₃ => ?_
  refine (lockstep_expect agrees₃ _ _).bind fun _ _ c₄ d₄ _ shrinks₄ _ agrees₄ => ?_
  refine (braced (by omega) agrees₄).bind fun b b' c₅ d₅ _ shrinks₅ bareThen agrees₅ => ?_
  refine (lockstep_eat agrees₅ _).bind fun ate ate' c₆ d₆ _ shrinks₆ same agrees₆ => ?_
  obtain rfl : ate = ate' := same
  cases ate with
  | true =>
      refine (braced (by omega) agrees₆).bind fun x x' c₇ d₇ _ _ bareElse agrees₇ => ?_
      refine (lockstep_previous agrees₇).bind fun _ _ c₈ d₈ _ _ _ agrees₈ => ?_
      refine lockstep_pure agrees₈ ?_
      simp only [Expr.bare, Expr.mapSpans, bare, bareThen, bareElse]
  | false =>
      refine (lockstep_previous agrees₆).bind fun _ _ c₇ d₇ _ _ _ agrees₇ => ?_
      exact lockstep_pure agrees₇ (by simp only [Expr.bare, Expr.mapSpans, bare, bareThen])

theorem lockstep_function {names names' : Rule (List String)} {body body' : Rule Block}
    (named : Later look floor id c names names')
    (braced : Later look floor Block.bare c body body') :
    Lockstep look floor Expr.bare (function names body) (function names' body') c d := by
  refine lockstep_advancing agrees notEnd fun _ _ c₁ d₁ less agrees₁ => ?_
  refine (lockstep_expect agrees₁ _ _).bind fun _ _ c₂ d₂ _ shrinks₂ _ agrees₂ => ?_
  refine (lockstep_listed agrees₂ fun shorter => named (by omega)).bind
    fun params params' c₃ d₃ _ shrinks₃ same agrees₃ => ?_
  obtain rfl : params = params' := same
  refine (braced (by omega) agrees₃).bind fun b b' c₄ d₄ _ _ bare agrees₄ => ?_
  refine (lockstep_previous agrees₄).bind fun _ _ c₅ d₅ _ _ _ agrees₅ => ?_
  exact lockstep_pure agrees₅ (by simp only [Expr.bare, Expr.mapSpans, bare])

theorem lockstep_unary (op : UnaryOp) {operand operand' : Rule Expr}
    (inner : Later look floor Expr.bare c operand operand') :
    Lockstep look floor Expr.bare (unary op operand) (unary op operand') c d := by
  refine lockstep_advancing agrees notEnd fun _ _ c₁ d₁ less agrees₁ => ?_
  refine (inner less agrees₁).bind fun e e' c₂ d₂ _ _ bare agrees₂ => ?_
  exact lockstep_pure agrees₂ (by simp only [Expr.bare, Expr.mapSpans, bare])

theorem lockstep_literal {node : Span → Expr}
    (bares : ∀ span span', (node span).bare = (node span').bare) :
    Lockstep look floor Expr.bare (do return node (← advance)) (do return node (← advance)) c d :=
  lockstep_advancing agrees notEnd fun span span' _ _ _ agrees₁ =>
    lockstep_pure agrees₁ (bares span span')

end Forms

/-- The families of rules are in lockstep, the first one with the allowance `n`, wherever both
    allowances suffice. -/
def InLockstep (look : Span → Span) (floor slack n : Nat) (view : α → γ)
    (rules rules' : Nat → Rule α) : Prop :=
  ∀ ⦃n' c d⦄, c.Agrees look floor d → c.need floor slack ≤ n → c.need floor slack ≤ n' →
    Lockstep look floor view (rules n) (rules' n') c d

namespace InLockstep

variable {slack n : Nat} {rules rules' : Nat → Rule α}

theorem few_of_need (small : slack < 5) (none : c.need floor slack ≤ 0) :
    c.ahead.length < floor := by
  unfold Cursor.need at none
  omega

theorem zero (small : slack < 5) (nothing : rules 0 = noExpression) :
    InLockstep look floor slack 0 view rules rules' := by
  intro n' c d agrees enough _
  rw [nothing]
  exact .of_above agrees.closed (Nat.le_refl _)
    fun above => absurd (few_of_need small enough) (Nat.not_lt_of_le above)

theorem step {body body' : Nat → Rule α} (small : slack < 5)
    (unfolds : ∀ n, rules (n + 1) = body n) (unfolds' : ∀ n, rules' (n + 1) = body' n)
    (inner : ∀ {n' c d}, c.Agrees look floor d → c.need floor slack ≤ n + 1 →
      c.need floor slack ≤ n' + 1 → Lockstep look floor view (body n) (body' n') c d) :
    InLockstep look floor slack (n + 1) view rules rules' := by
  intro n' c d agrees enough enough'
  rw [unfolds]
  cases n' with
  | zero =>
      -- Without an allowance for the second rule no tokens agree.
      have alone := inner agrees enough enough
      exact .of_above alone.closed alone.shrinks
        fun above => absurd (few_of_need small enough') (Nat.not_lt_of_le above)
  | succ n' =>
      rw [unfolds']
      exact inner agrees enough enough'

theorem later (inStep : InLockstep look floor slack n view rules rules') {slack' n' : Nat}
    (less : slack' < 5) (enough : c.need floor slack' ≤ n + 1)
    (enough' : c.need floor slack' ≤ n' + 1) :
    Later look floor view c (rules n) (rules' n') := by
  intro mid mid' shorter agrees
  unfold Cursor.need at enough enough'
  exact inStep agrees (by unfold Cursor.need; omega) (by unfold Cursor.need; omega)

theorem same (inStep : InLockstep look floor slack n view rules rules') {slack' n' : Nat}
    (more : slack' < slack) (agrees : c.Agrees look floor d)
    (enough : c.need floor slack' ≤ n + 1) (enough' : c.need floor slack' ≤ n' + 1) :
    Lockstep look floor view (rules n) (rules' n') c d := by
  unfold Cursor.need at enough enough'
  exact inStep agrees (by unfold Cursor.need; omega) (by unfold Cursor.need; omega)

end InLockstep

theorem inLockstep_params (n : Nat) (read : List String) :
    InLockstep look floor 4 n id (params · read) (params · read) := by
  induction n generalizing read with
  | zero => exact InLockstep.zero (by decide) rfl
  | succ n ih =>
      refine InLockstep.step (by decide) (fun _ => by rw [params]) (fun _ => by rw [params]) ?_
      intro n' c d agrees enough enough'
      refine (lockstep_expectName agrees _).bind fun name name' c₁ d₁ named _ same agrees₁ => ?_
      obtain rfl : name = name' := same
      obtain ⟨here, rfl⟩ := expectName_eq_ok.mp named
      have less := Cursor.length_advance_lt agrees.closed (by simp [here])
      refine (lockstep_eat agrees₁ _).bind fun ate ate' c₂ d₂ _ shrinks₂ same agrees₂ => ?_
      obtain rfl : ate = ate' := same
      cases ate with
      | true => exact (ih (name :: read)).later (by decide) enough enough' (by omega) agrees₂
      | false =>
          refine (lockstep_expect agrees₂ _ _).bind fun _ _ c₃ d₃ _ _ _ agrees₃ => ?_
          exact lockstep_pure agrees₃ rfl

structure LockstepAt (look : Span → Span) (floor n : Nat) : Prop where
  statement : InLockstep look floor 1 n Stmt.bare statement statement
  returned : InLockstep look floor 1 n (Option.map Expr.bare) returned returned
  block : ∀ construct, InLockstep look floor 4 n Block.bare (block · construct) (block · construct)
  statements : ∀ {read read'}, Stmt.bareAll read = Stmt.bareAll read' →
    InLockstep look floor 0 n Stmt.bareAll (statements · read) (statements · read')
  expression : ∀ least,
    InLockstep look floor 2 n Expr.bare (expression · least) (expression · least)
  continued : ∀ least {left left' : Expr}, left.bare = left'.bare →
    InLockstep look floor 4 n Expr.bare (continued · least left) (continued · least left')
  arguments : ∀ {read read'}, Expr.bareAll read = Expr.bareAll read' →
    InLockstep look floor 1 n Expr.bareAll (arguments · read) (arguments · read')
  operand : InLockstep look floor 3 n Expr.bare operand operand

namespace LockstepAt

variable {n : Nat}

theorem zero : LockstepAt look floor 0 where
  statement := InLockstep.zero (by decide) rfl
  returned := InLockstep.zero (by decide) rfl
  block _ := InLockstep.zero (by decide) rfl
  statements _ := InLockstep.zero (by decide) rfl
  expression _ := InLockstep.zero (by decide) rfl
  continued _ _ _ _ := InLockstep.zero (by decide) rfl
  arguments _ := InLockstep.zero (by decide) rfl
  operand := InLockstep.zero (by decide) rfl

theorem statement_succ (all : LockstepAt look floor n) :
    InLockstep look floor 1 (n + 1) Stmt.bare Rule.statement Rule.statement := by
  refine InLockstep.step (by decide) (fun _ => by rw [Rule.statement])
    (fun _ => by rw [Rule.statement]) ?_
  intro n' c d agrees enough enough'
  refine lockstep_current agrees fun t same => ?_
  rw [same]
  cases here : c.current.kind with
  | letKeyword =>
      exact lockstep_binding agrees (by simp [here])
        ((all.expression .lowest).later (by decide) enough enough')
  | returnKeyword =>
      exact lockstep_returning agrees (by simp [here])
        (all.returned.later (by decide) enough enough')
  | _ => exact lockstep_standing ((all.expression .lowest).same (by decide) agrees enough enough')

theorem returned_succ (all : LockstepAt look floor n) :
    InLockstep look floor 1 (n + 1) (Option.map Expr.bare) Rule.returned Rule.returned := by
  refine InLockstep.step (by decide) (fun _ => by rw [Rule.returned])
    (fun _ => by rw [Rule.returned]) ?_
  intro n' c d agrees enough enough'
  refine lockstep_current agrees fun t same => ?_
  rw [same]
  cases c.current.kind with
  | semicolon | rightBrace | endOfInput => exact lockstep_pure agrees rfl
  | _ =>
      have inner := (all.expression .lowest).same (by decide) agrees enough enough'
      refine (lockstep_within _ inner).bind fun e e' c₁ d₁ _ _ bare agrees₁ => ?_
      exact lockstep_pure agrees₁ (congrArg some bare)

theorem block_succ (all : LockstepAt look floor n) (construct : Construct) :
    InLockstep look floor 4 (n + 1) Block.bare (Rule.block · construct)
      (Rule.block · construct) := by
  refine InLockstep.step (by decide) (fun _ => by rw [Rule.block]) (fun _ => by rw [Rule.block]) ?_
  intro n' c d agrees enough enough'
  refine (lockstep_expect agrees _ _).bind fun _ _ c₁ d₁ opened _ _ agrees₁ => ?_
  obtain ⟨⟨here, -⟩, rfl⟩ := (expect_eq_ok rfl).mp opened
  have less := Cursor.length_advance_lt agrees.closed (by simp [here])
  have inner : Later look floor Stmt.bareAll c (Rule.statements n []) (Rule.statements n' []) :=
    (all.statements rfl).later (by decide) enough enough'
  refine (inner less agrees₁).bind fun ts ts' c₂ d₂ _ _ bare agrees₂ => ?_
  refine (lockstep_expect agrees₂ _ _).bind fun _ _ c₃ d₃ _ _ _ agrees₃ => ?_
  exact lockstep_pure agrees₃ (by simp only [Block.bare, Block.mapSpans, bare])

theorem statements_succ (all : LockstepAt look floor n) {read read' : List Stmt}
    (bares : Stmt.bareAll read = Stmt.bareAll read') :
    InLockstep look floor 0 (n + 1) Stmt.bareAll (Rule.statements · read)
      (Rule.statements · read') := by
  refine InLockstep.step (by decide) (fun _ => by rw [Rule.statements])
    (fun _ => by rw [Rule.statements]) ?_
  intro n' c d agrees enough enough'
  have goesOn : Lockstep look floor Stmt.bareAll
      (Rule.statement n >>= fun t => Rule.statements n (t :: read))
      (Rule.statement n' >>= fun t => Rule.statements n' (t :: read')) c d := by
    have first := all.statement.same (by decide) agrees enough enough'
    refine first.bind fun t t' c₁ d₁ ran _ bare agrees₁ => ?_
    obtain ⟨u, passes, ⟨nonempty, _⟩, _⟩ := (repeatsAt n).statement False c agrees.closed ran
    refine (all.statements ?_).later (by decide) enough enough' (passes.length_lt nonempty) agrees₁
    simp only [Stmt.bareAll, Stmt.mapSpansAll, bare, bares]
  refine lockstep_current agrees fun t same => ?_
  rw [same]
  cases c.current.kind with
  | rightBrace | endOfInput =>
      exact lockstep_pure agrees (Stmt.bareAll_reverse bares)
  | _ => exact goesOn

theorem expression_succ (all : LockstepAt look floor n) (least : Precedence) :
    InLockstep look floor 2 (n + 1) Expr.bare (Rule.expression · least)
      (Rule.expression · least) := by
  refine InLockstep.step (by decide) (fun _ => by rw [Rule.expression])
    (fun _ => by rw [Rule.expression]) ?_
  intro n' c d agrees enough enough'
  have first := all.operand.same (by decide) agrees enough enough'
  refine first.bind fun e e' c₁ d₁ ran _ bare agrees₁ => ?_
  obtain ⟨u, passes, formed, _⟩ := (repeatsAt n).operand False c agrees.closed ran
  exact (all.continued least bare).later (by decide) enough enough'
    (passes.length_lt formed.nonempty) agrees₁

theorem continued_succ (all : LockstepAt look floor n) (least : Precedence) {left left' : Expr}
    (bares : left.bare = left'.bare) :
    InLockstep look floor 4 (n + 1) Expr.bare (Rule.continued · least left)
      (Rule.continued · least left') := by
  refine InLockstep.step (by decide) (fun _ => by rw [Rule.continued])
    (fun _ => by rw [Rule.continued]) ?_
  intro n' c d agrees enough enough'
  refine lockstep_current agrees fun t same => ?_
  rw [same]
  by_cases binds : least < c.current.kind.precedence
  · have notEnd := TokenKind.ne_end_of_binds binds
    simp only [binds, if_true]
    cases c.current.kind.binaryOp? with
    | none =>
        refine lockstep_advancing agrees notEnd fun _ _ c₁ d₁ less agrees₁ => ?_
        have args : Later look floor Expr.bareAll c (Rule.arguments n []) (Rule.arguments n' []) :=
          (all.arguments rfl).later (by decide) enough enough'
        refine (lockstep_listed agrees₁ fun shorter => args (by omega)).bind
          fun args args' c₂ d₂ _ shrinks₂ bare agrees₂ => ?_
        refine (lockstep_previous agrees₂).bind fun _ _ c₃ d₃ _ shrinks₃ _ agrees₃ => ?_
        refine (all.continued least ?_).later (by decide) enough enough' (by omega) agrees₃
        simp only [Expr.bare, Expr.mapSpans, bares, bare]
    | some op =>
        refine lockstep_advancing agrees notEnd fun _ _ c₁ d₁ less agrees₁ => ?_
        have inner : Later look floor Expr.bare c (Rule.expression n op.precedence)
            (Rule.expression n' op.precedence) :=
          (all.expression op.precedence).later (by decide) enough enough'
        refine (inner less agrees₁).bind fun e e' c₂ d₂ _ shrinks₂ bare agrees₂ => ?_
        refine (all.continued least ?_).later (by decide) enough enough' (by omega) agrees₂
        simp only [Expr.bare, Expr.mapSpans, bares, bare]
  · simp only [binds, if_false]
    exact lockstep_pure agrees bares

theorem arguments_succ (all : LockstepAt look floor n) {read read' : List Expr}
    (bares : Expr.bareAll read = Expr.bareAll read') :
    InLockstep look floor 1 (n + 1) Expr.bareAll (Rule.arguments · read)
      (Rule.arguments · read') := by
  refine InLockstep.step (by decide) (fun _ => by rw [Rule.arguments])
    (fun _ => by rw [Rule.arguments]) ?_
  intro n' c d agrees enough enough'
  have item := (all.expression .lowest).same (by decide) agrees enough enough'
  refine (lockstep_within _ item).bind fun e e' c₁ d₁ ran _ bare agrees₁ => ?_
  obtain ⟨u, passes, shaped, _⟩ :=
    (repeatsAt n).expression False .lowest c agrees.closed (within_eq_ok.mp ran)
  have less := passes.length_lt shaped.nonempty
  have both : Expr.bareAll (e :: read) = Expr.bareAll (e' :: read') := by
    simp only [Expr.bareAll, Expr.mapSpansAll, bare, bares]
  refine (lockstep_eat agrees₁ _).bind fun ate ate' c₂ d₂ _ shrinks₂ same agrees₂ => ?_
  obtain rfl : ate = ate' := same
  cases ate with
  | true => exact (all.arguments both).later (by decide) enough enough' (by omega) agrees₂
  | false =>
      refine (lockstep_expect agrees₂ _ _).bind fun _ _ c₃ d₃ _ _ _ agrees₃ => ?_
      exact lockstep_pure agrees₃ (Expr.bareAll_reverse both)

theorem operand_succ (all : LockstepAt look floor n) :
    InLockstep look floor 3 (n + 1) Expr.bare Rule.operand Rule.operand := by
  refine InLockstep.step (by decide) (fun _ => rfl) (fun _ => rfl) ?_
  intro n' c d agrees enough enough'
  have whole : Later look floor Expr.bare c (Rule.expression n .lowest)
      (Rule.expression n' .lowest) := (all.expression .lowest).later (by decide) enough enough'
  have tight : Later look floor Expr.bare c (Rule.expression n .unary)
      (Rule.expression n' .unary) := (all.expression .unary).later (by decide) enough enough'
  have braced construct : Later look floor Block.bare c (Rule.block n construct)
      (Rule.block n' construct) := (all.block construct).later (by decide) enough enough'
  have named : Later look floor id c (params n []) (params n' []) :=
    (inLockstep_params n []).later (by decide) enough enough'
  refine lockstep_current agrees fun t same => ?_
  rw [same]
  cases here : c.current.kind with
  | ident name => exact lockstep_literal agrees (by simp [here]) fun _ _ => rfl
  | int value => exact lockstep_literal agrees (by simp [here]) fun _ _ => rfl
  | trueKeyword => exact lockstep_literal agrees (by simp [here]) fun _ _ => rfl
  | falseKeyword => exact lockstep_literal agrees (by simp [here]) fun _ _ => rfl
  | bang => exact lockstep_unary agrees (by simp [here]) .not tight
  | minus => exact lockstep_unary agrees (by simp [here]) .neg tight
  | leftParen => exact lockstep_grouping agrees (by simp [here]) whole
  | ifKeyword =>
      exact lockstep_conditional agrees (by simp [here]) whole (braced .ifExpression)
  | fnKeyword =>
      exact lockstep_function agrees (by simp [here]) named (braced .functionLiteral)
  | _ => exact lockstep_noExpression agrees

theorem succ (all : LockstepAt look floor n) : LockstepAt look floor (n + 1) where
  statement := all.statement_succ
  returned := all.returned_succ
  block := all.block_succ
  statements := all.statements_succ
  expression := all.expression_succ
  continued least _ _ := all.continued_succ least
  arguments := all.arguments_succ
  operand := all.operand_succ

end LockstepAt

theorem lockstepAt (look : Span → Span) (floor n : Nat) : LockstepAt look floor n := by
  induction n with
  | zero => exact .zero
  | succ n ih => exact ih.succ

end Rule

namespace Cursor

variable {c d : Cursor}

theorem need_mono {slack : Nat} (less : d.ahead.length ≤ c.ahead.length) :
    d.need floor slack ≤ c.need floor slack := by
  unfold need
  omega

theorem recover_of_end (ended : c.current.kind = .endOfInput) : c.recover = c := by
  obtain ⟨position, previous, current, rest⟩ := c
  cases rest with
  | nil => rfl
  | cons t ts => simp [recover, recoverFrom, Token.isEnd, show current.kind = _ from ended]

theorem recover_eq (notEnd : c.current.kind ≠ .endOfInput) (more : c.rest ≠ []) :
    c.recover = if c.current.kind = .semicolon then c.advance else c.advance.recover := by
  obtain ⟨t, ts, rest⟩ := List.exists_cons_of_ne_nil more
  rw [advance_eq notEnd rest]
  simp only [recover, rest, recoverFrom, Token.isEnd, beq_iff_eq, notEnd, if_false]

theorem ahead_start (ts : List Token) (stop : Span) :
    (start ts stop).ahead = ts ++ [⟨.endOfInput, stop⟩] := by
  cases ts <;> rfl

end Cursor

end TreeWalk
