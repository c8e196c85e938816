import TreeWalk.Proofs.Reading

/-! # Reading the same tokens again

A rule that has read some tokens at one cursor reads them in the same way, spans included, at any
other cursor with the same tokens ahead. Two things must agree besides: the span in front of the
cursor, if the rule asks for it before it has consumed a token, and the token behind, which a rule
may look at without consuming it. An end marker behind is as good as the token itself.

`Repeats` says this of a rule at a cursor, together with what holds of the tokens that it consumes.
It is closed under sequencing, so that each rule is described step by step as it is written.
-/

namespace TreeWalk

namespace Cursor

/-- The tokens stand between the two cursors, and none of them is an end marker. -/
inductive Passes : Cursor → List Token → Cursor → Prop where
  | nil {c : Cursor} : Passes c [] c
  | cons {c c' : Cursor} {t : Token} {u : List Token} : c.current = t → t.kind ≠ .endOfInput →
      c.rest ≠ [] → Passes c.advance u c' → Passes c (t :: u) c'

/-- There is an end marker ahead. -/
def Closed (c : Cursor) : Prop := ∃ kinds, c.Shows kinds

/-- The second cursor stands before a token of the same kind or at the end. -/
def Meets (c d : Cursor) : Prop :=
  d.current.kind = c.current.kind ∨ d.current.kind = .endOfInput

variable {c c' c'' d d' : Cursor} {u v : List Token}

theorem advance_eq {t : Token} {ts : List Token} (notEnd : c.current.kind ≠ .endOfInput)
    (rest : c.rest = t :: ts) : c.advance = ⟨c.position + 1, c.current.span, t, ts⟩ := by
  simp [advance, rest, atEnd, Token.isEnd, notEnd]

theorem previous_advance (notEnd : c.current.kind ≠ .endOfInput) (more : c.rest ≠ []) :
    c.advance.previous = c.current.span := by
  obtain ⟨t, ts, rest⟩ := List.exists_cons_of_ne_nil more
  rw [advance_eq notEnd rest]

theorem Closed.rest_ne_nil (closed : c.Closed) (notEnd : c.current.kind ≠ .endOfInput) :
    c.rest ≠ [] := by
  intro last
  have stuck : c.advance = c := by simp [advance, last]
  obtain ⟨kinds, shows⟩ := closed
  induction kinds with
  | nil => exact notEnd shows
  | cons kind kinds ih => exact ih (stuck ▸ shows.advance)

theorem Closed.advance (closed : c.Closed) (notEnd : c.current.kind ≠ .endOfInput) :
    c.advance.Closed := by
  obtain ⟨kinds, shows⟩ := closed
  obtain ⟨rest, _, behind⟩ := shows.exists_cons rfl notEnd
  exact ⟨rest, behind⟩

namespace Passes

theorem one (closed : c.Closed) (notEnd : c.current.kind ≠ .endOfInput) :
    c.Passes [c.current] c.advance :=
  .cons rfl notEnd (closed.rest_ne_nil notEnd) .nil

theorem eq_of_nil (passes : c.Passes [] c') : c = c' := by
  cases passes
  rfl

theorem current {t : Token} (passes : c.Passes (t :: u) c') : c.current = t := by
  cases passes with
  | cons here _ _ _ => exact here

theorem advance {t : Token} (passes : c.Passes (t :: u) c') : c.advance.Passes u c' := by
  cases passes with
  | cons _ _ _ behind => exact behind

theorem append (first : c.Passes u c') (second : c'.Passes v c'') : c.Passes (u ++ v) c'' := by
  induction first with
  | nil => exact second
  | cons here notEnd more _ ih => exact .cons here notEnd more (ih second)

theorem split (passes : c.Passes (u ++ v) c'') : ∃ c', c.Passes u c' ∧ c'.Passes v c'' := by
  induction u generalizing c with
  | nil => exact ⟨c, .nil, passes⟩
  | cons t u ih =>
      cases passes with
      | cons here notEnd more behind =>
          obtain ⟨c', first, second⟩ := ih behind
          exact ⟨c', .cons here notEnd more first, second⟩

theorem closed (passes : c.Passes u c') (closed : c.Closed) : c'.Closed := by
  induction passes with
  | nil => exact closed
  | cons here notEnd _ _ ih => exact ih (closed.advance (here ▸ notEnd))

/-- What a cursor shows that passes these tokens. -/
theorem shows {kinds : List TokenKind} (passes : c.Passes u c') (behind : c'.Shows kinds) :
    c.Shows (u.map Token.kind ++ kinds) := by
  induction passes with
  | nil => exact behind
  | cons here notEnd _ _ ih => exact ⟨congrArg Token.kind here, notEnd, ih behind⟩

theorem noEnd (passes : c.Passes u c') : ∀ t ∈ u, t.kind ≠ .endOfInput := by
  induction passes with
  | nil => simp
  | cons _ notEnd _ _ ih => exact List.forall_mem_cons.mpr ⟨notEnd, ih⟩

theorem previous (passes : c.Passes u c') : ∀ t ∈ u.getLast?, c'.previous = t.span := by
  induction passes with
  | nil => simp
  | @cons c c' t u here notEnd more behind ih =>
      cases u with
      | nil =>
          subst here
          rw [← behind.eq_of_nil, previous_advance notEnd more]
          simp
      | cons s u => simpa [List.getLast?_cons] using ih

/-- Behind a token, what stands before it no longer matters. -/
theorem previous_eq (passes : c.Passes u c') (again : d.Passes u d')
    (same : u = [] → d.previous = c.previous) : d'.previous = c'.previous := by
  cases last : u.getLast? with
  | none =>
      obtain rfl := List.getLast?_eq_none_iff.mp last
      rw [← passes.eq_of_nil, ← again.eq_of_nil]
      exact same rfl
  | some t => rw [passes.previous t last, again.previous t last]

/-- Two cursors that pass the same tokens from here on meet now, or pass none of them. -/
theorem meets (passes : c.Passes u c') (again : d.Passes u d')
    (meet : u = [] → c'.Meets d') : c.Meets d := by
  cases u with
  | nil =>
      rw [passes.eq_of_nil, again.eq_of_nil]
      exact meet rfl
  | cons t u => exact .inl (by rw [passes.current, again.current])

end Passes

end Cursor

namespace Rule

variable {α β : Type} {known : Prop} {looks : List Token → Prop} {allowance : Nat} {c : Cursor}

/-- The rules read `a` from the tokens `u` between two other cursors as well, with any larger
    allowance. They may use the span in front of the first cursor if it is known, and the token
    behind the last one if they look at it. -/
def Replays (known : Prop) (looks : List Token → Prop) (allowance : Nat) (rules : Nat → Rule α)
    (c : Cursor) (u : List Token) (a : α) (c' : Cursor) : Prop :=
  ∀ ⦃larger d d'⦄, allowance ≤ larger → (known → d.previous = c.previous) → d.Passes u d' →
    (looks u → c'.Meets d') → rules larger d = .ok a d'

/-- Whatever the rules read at the cursor, they read again, and `holds` relates it to the tokens
    that it is read from and to the cursor behind them. -/
def Repeats (known : Prop) (looks : List Token → Prop) (allowance : Nat) (rules : Nat → Rule α)
    (c : Cursor) (holds : List Token → α → Cursor → Prop) : Prop :=
  ∀ ⦃a c'⦄, c.Closed → rules allowance c = .ok a c' →
    ∃ u, c.Passes u c' ∧ holds u a c' ∧ Replays known looks allowance rules c u a c'

abbrev Looks : List Token → Prop := fun _ => True

namespace Repeats

variable {rules : Nat → Rule α} {holds holds' : List Token → α → Cursor → Prop}

theorem imp (repeats : Repeats known looks allowance rules c holds)
    (weaker : ∀ u a c', c.Passes u c' → Replays known looks allowance rules c u a c' →
      holds u a c' → holds' u a c') : Repeats known looks allowance rules c holds' := by
  intro a c' closed read
  obtain ⟨u, passes, held, replays⟩ := repeats closed read
  exact ⟨u, passes, weaker u a c' passes replays held, replays⟩

theorem looking (repeats : Repeats known looks allowance rules c holds) :
    Repeats known Looks allowance rules c holds := by
  intro a c' closed read
  obtain ⟨u, passes, held, replays⟩ := repeats closed read
  exact ⟨u, passes, held, fun _ _ _ larger same again meet =>
    replays larger same again fun _ => meet trivial⟩

theorem fresh (repeats : Repeats False looks allowance rules c holds) :
    Repeats known looks allowance rules c holds := by
  intro a c' closed read
  obtain ⟨u, passes, held, replays⟩ := repeats closed read
  exact ⟨u, passes, held, fun _ _ _ larger _ again meet => replays larger nofun again meet⟩

theorem step {body : Nat → Rule α} (repeats : Repeats known looks allowance body c holds)
    (unfolds : ∀ n, rules (n + 1) = body n) :
    Repeats known looks (allowance + 1) rules c holds := by
  intro a c' closed read
  rw [unfolds] at read
  obtain ⟨u, passes, held, replays⟩ := repeats closed read
  refine ⟨u, passes, held, ?_⟩
  intro larger d d' enough same again meet
  obtain ⟨spared, rfl⟩ := Nat.exists_eq_add_of_le' (Nat.le_of_add_left_le enough)
  rw [unfolds]
  exact replays (Nat.le_of_succ_le_succ enough) same again meet

/-- One rule after another. Where the second one consumes nothing, the token behind the first one is
    behind both, so it may be looked at only if it is in the end. -/
theorem bind_looking {looksFirst : List Token → Prop} {first : Nat → Rule α}
    {after : Nat → α → Rule β} {holdsBoth : List Token → β → Cursor → Prop}
    (begins : Repeats known looksFirst allowance first c holds)
    (next : ∀ u a mid, c.Passes u mid → holds u a mid → (looksFirst u → looks u) ∧
      Repeats (known ∨ u ≠ []) (fun v => looks (u ++ v)) allowance (fun n => after n a) mid
        fun v => holdsBoth (u ++ v)) :
    Repeats known looks allowance (fun n => first n >>= after n) c holdsBoth := by
  intro b c' closed read
  obtain ⟨a, mid, begun, read⟩ := bind_eq_ok.mp read
  obtain ⟨u, passes, held, replays⟩ := begins closed begun
  obtain ⟨needs, later⟩ := next u a mid passes held
  obtain ⟨v, passesLater, heldLater, replaysLater⟩ := later (passes.closed closed) read
  refine ⟨u ++ v, passes.append passesLater, heldLater, ?_⟩
  intro larger d d' enough same again meet
  obtain ⟨mid', again, againLater⟩ := again.split
  have meets : looksFirst u → mid.Meets mid' := by
    intro looked
    refine passesLater.meets againLater ?_
    rintro rfl
    exact meet (by simpa using needs looked)
  have sameLater : known ∨ u ≠ [] → mid'.previous = mid.previous := by
    intro either
    refine passes.previous_eq again ?_
    intro none
    exact same (either.resolve_right fun some => some none)
  exact (bind_of_ok (replays enough same again meets)).trans
    (replaysLater enough sameLater againLater meet)

theorem bind {first : Nat → Rule α} {after : Nat → α → Rule β}
    {holdsBoth : List Token → β → Cursor → Prop}
    (begins : Repeats known Looks allowance first c holds)
    (next : ∀ u a mid, c.Passes u mid → holds u a mid → looks u ∧
      Repeats (known ∨ u ≠ []) (fun v => looks (u ++ v)) allowance (fun n => after n a) mid
        fun v => holdsBoth (u ++ v)) :
    Repeats known looks allowance (fun n => first n >>= after n) c holdsBoth :=
  begins.bind_looking fun u a mid passes held =>
    ⟨fun _ => (next u a mid passes held).1, (next u a mid passes held).2⟩

end Repeats

theorem repeats_pure {a : α} {holds : List Token → α → Cursor → Prop} (held : holds [] a c) :
    Repeats known looks allowance (fun _ => pure a) c holds := by
  intro b c' _ read
  obtain ⟨rfl, rfl⟩ := pure_eq_ok.mp read
  refine ⟨[], .nil, held, ?_⟩
  intro larger d d' _ _ again _
  exact pure_eq_ok.mpr ⟨rfl, again.eq_of_nil⟩

theorem repeats_nothing {rules : Nat → Rule α} {holds : List Token → α → Cursor → Prop}
    (none : rules allowance = noExpression) : Repeats known looks allowance rules c holds := by
  intro a c' _ read
  rw [none] at read
  exact absurd read noExpression_ne_ok

theorem repeats_within {rules : Nat → Rule α} {holds : List Token → α → Cursor → Prop}
    (construct : Construct) (repeats : Repeats known looks allowance rules c holds) :
    Repeats known looks allowance (fun n => within construct (rules n)) c holds := by
  intro a c' closed read
  obtain ⟨u, passes, held, replays⟩ := repeats closed (within_eq_ok.mp read)
  exact ⟨u, passes, held, fun _ _ _ larger same again meet =>
    within_eq_ok.mpr (replays larger same again meet)⟩

theorem repeats_previous (here : known) :
    Repeats known (fun _ => False) allowance (fun _ => previous) c fun u span c' =>
      u = [] ∧ c' = c ∧ span = c.previous := by
  intro span c' _ read
  obtain ⟨rfl, rfl⟩ := previous_eq_ok.mp read
  refine ⟨[], .nil, ⟨rfl, rfl, rfl⟩, ?_⟩
  intro larger d d' _ same again _
  exact previous_eq_ok.mpr ⟨same here, again.eq_of_nil⟩

theorem expect_eq_ok {kind : TokenKind} {construct : Construct} {span : Span} {d d' : Cursor}
    (fixed : kind.spelling?.isSome) : expect kind construct d = .ok span d' ↔
      (d.current.kind = kind ∧ d.current.span = span) ∧ d.advance = d' := by
  rw [← TokenKind.sameClass_iff fixed]
  unfold expect Cursor.expect Cursor.check
  cases d.current.kind.sameClass kind <;> simp

theorem expectName_eq_ok {construct : Construct} {name : String} {d d' : Cursor} :
    expectName construct d = .ok name d' ↔ d.current.kind = .ident name ∧ d.advance = d' := by
  unfold expectName Cursor.expectName
  cases d.current.kind <;> simp

theorem eat_eq_ok {kind : TokenKind} {ate : Bool} {d d' : Cursor} (fixed : kind.spelling?.isSome) :
    eat kind d = .ok ate d' ↔ (d.current.kind = kind ∧ ate = true ∧ d.advance = d') ∨
      (d.current.kind ≠ kind ∧ ate = false ∧ d = d') := by
  rw [Ne, ← TokenKind.sameClass_iff fixed]
  unfold eat Cursor.eat Cursor.check
  cases d.current.kind.sameClass kind <;> simp [eq_comm]

theorem ne_end_of_fixed {kind : TokenKind} (fixed : kind.spelling?.isSome) :
    kind ≠ .endOfInput := by
  rintro rfl
  cases fixed

theorem repeats_token {rule : Rule α} (accepts : Token → α → Prop)
    (reads : ∀ {d a d'}, rule d = .ok a d' ↔ accepts d.current a ∧ d.advance = d')
    (notEnd : ∀ a, accepts c.current a → c.current.kind ≠ .endOfInput) :
    Repeats known looks allowance (fun _ => rule) c fun u a _ =>
      u = [c.current] ∧ accepts c.current a := by
  intro a c' closed read
  obtain ⟨accepted, rfl⟩ := reads.mp read
  refine ⟨[c.current], .one closed (notEnd a accepted), ⟨rfl, accepted⟩, ?_⟩
  intro larger d d' _ _ again _
  exact reads.mpr ⟨by rwa [again.current], again.advance.eq_of_nil⟩

theorem repeats_advance (notEnd : c.current.kind ≠ .endOfInput) :
    Repeats known looks allowance (fun _ => advance) c fun u span _ =>
      u = [c.current] ∧ c.current.span = span :=
  repeats_token (fun t span => t.span = span) advance_eq_ok fun _ _ => notEnd

theorem repeats_expect {kind : TokenKind} (construct : Construct) (fixed : kind.spelling?.isSome) :
    Repeats known looks allowance (fun _ => expect kind construct) c fun u span _ =>
      u = [c.current] ∧ c.current.kind = kind ∧ c.current.span = span :=
  repeats_token (fun t span => t.kind = kind ∧ t.span = span) (expect_eq_ok fixed)
    fun _ here => here.1 ▸ ne_end_of_fixed fixed

theorem repeats_expectName (construct : Construct) :
    Repeats known looks allowance (fun _ => expectName construct) c fun u name _ =>
      u = [c.current] ∧ c.current.kind = .ident name :=
  repeats_token (fun t name => t.kind = .ident name) expectName_eq_ok fun _ here => by simp [here]

theorem repeats_eat {kind : TokenKind} (fixed : kind.spelling?.isSome) :
    Repeats known (· = []) allowance (fun _ => eat kind) c fun u ate c' =>
      (ate = true ∧ u = [c.current] ∧ c.current.kind = kind) ∨ (ate = false ∧ u = [] ∧ c' = c) := by
  intro ate c' closed read
  rcases (eat_eq_ok fixed).mp read with ⟨here, rfl, rfl⟩ | ⟨other, rfl, rfl⟩
  · refine ⟨[c.current], .one closed (here ▸ ne_end_of_fixed fixed), .inl ⟨rfl, rfl, here⟩, ?_⟩
    intro larger d d' _ _ again _
    exact (eat_eq_ok fixed).mpr (.inl ⟨by rwa [again.current], rfl, again.advance.eq_of_nil⟩)
  · refine ⟨[], .nil, .inr ⟨rfl, rfl, rfl⟩, ?_⟩
    intro larger d d' _ _ again meet
    obtain rfl := again.eq_of_nil
    refine (eat_eq_ok fixed).mpr (.inr ⟨?_, rfl, rfl⟩)
    rcases meet rfl with same | ended
    · rwa [same]
    · rw [ended]
      exact (ne_end_of_fixed fixed).symm

theorem repeats_current {after : Nat → Token → Rule α} {holds : List Token → α → Cursor → Prop}
    (consumes : ∀ u a c', holds u a c' → u ≠ [])
    (repeats : Repeats known looks allowance (fun n => after n c.current) c holds) :
    Repeats known looks allowance (fun n => current >>= after n) c holds := by
  intro a c' closed read
  obtain ⟨u, passes, held, replays⟩ := repeats closed ((bind_of_ok current_ok).symm.trans read)
  refine ⟨u, passes, held, ?_⟩
  intro larger d d' enough same again meet
  obtain ⟨t, u, rfl⟩ := List.exists_cons_of_ne_nil (consumes u a c' held)
  refine (bind_of_ok current_ok).trans ?_
  rw [again.current, ← passes.current]
  exact replays enough same again meet

theorem repeats_consuming {after : Nat → Token → Rule α} {holds : List Token → α → Cursor → Prop}
    (repeats : Repeats known looks allowance (fun n => after n c.current) c fun u a c' =>
      u ≠ [] ∧ holds u a c') :
    Repeats known looks allowance (fun n => current >>= after n) c holds :=
  (repeats_current (fun _ _ _ held => held.1) repeats).imp fun _ _ _ _ _ held => held.2

theorem repeats_stay {rules : Nat → Rule α} {holds : List Token → α → Cursor → Prop} {a : α}
    (held : holds [] a c) (stays : ∀ n d, c.Meets d → rules n d = .ok a d) :
    Repeats known Looks allowance rules c holds := by
  intro b c' _ read
  rw [stays allowance c (.inl rfl)] at read
  cases read
  refine ⟨[], .nil, held, ?_⟩
  intro larger d d' _ _ again meet
  obtain rfl := again.eq_of_nil
  exact stays larger d (meet trivial)

end Rule

end TreeWalk
