import TreeWalk.Proofs.Recovery

/-! # Cursors on a token sequence

A cursor counts the tokens that it has consumed, but it carries its tokens along and never looks
anything up by that number. `Cursor.On` says that the two agree: the number is a place in the
sequence, not behind the first end marker, and the cursor holds what stands there. All operations
keep this, in whatever order they come.
-/

namespace TreeWalk

/-- Where the first end marker stands. -/
def firstEnd (tokens : List Token) : Nat := tokens.findIdx Token.isEnd

/-- The first semicolon at `start` or behind it stands at `k`, in front of the first end marker. -/
structure NextSemicolon (tokens : List Token) (start k : Nat) : Prop where
  reached : start ≤ k
  inside : k < firstEnd tokens
  semicolon : tokens[k]?.map Token.kind = some .semicolon
  first : ∀ j, start ≤ j → j < k → tokens[j]?.map Token.kind ≠ some .semicolon

/-- The place directly behind the first semicolon at `start` or behind it, or that of the first end
    marker if no semicolon stands in between. -/
inductive Recovered (tokens : List Token) (start : Nat) : Nat → Prop where
  | behind {k : Nat} : NextSemicolon tokens start k → Recovered tokens start (k + 1)
  | ended : (∀ k, ¬ NextSemicolon tokens start k) → Recovered tokens start (firstEnd tokens)

section Places

variable {tokens : List Token} {start place k : Nat} {t : Token}

theorem firstEnd_lt (ts : List Token) (stop : Span) :
    firstEnd (ts ++ [⟨.endOfInput, stop⟩]) < (ts ++ [(⟨.endOfInput, stop⟩ : Token)]).length := by
  have last : (⟨.endOfInput, stop⟩ : Token) ∈ ts ++ [⟨.endOfInput, stop⟩] := by simp
  exact List.findIdx_lt_length_of_exists ⟨_, last, rfl⟩

/-- Up to the first end marker, that is the only one. -/
theorem end_iff_firstEnd (inside : place ≤ firstEnd tokens) (here : tokens[place]? = some t) :
    t.kind = .endOfInput ↔ place = firstEnd tokens := by
  obtain ⟨bounded, rfl⟩ := List.getElem?_eq_some_iff.mp here
  constructor
  · intro ended
    by_contra other
    have before : place < firstEnd tokens := Nat.lt_of_le_of_ne inside other
    have none : tokens[place].isEnd = false := List.not_of_lt_findIdx before
    simp [Token.isEnd, ended] at none
  · rintro rfl
    have found : tokens[firstEnd tokens].isEnd = true := List.findIdx_getElem
    exact beq_iff_eq.mp found

theorem NextSemicolon.of_here (inside : place < firstEnd tokens) (here : tokens[place]? = some t)
    (semicolon : t.kind = .semicolon) : NextSemicolon tokens place place where
  reached := Nat.le_refl _
  inside := inside
  semicolon := by rw [here, Option.map_some, semicolon]
  first j reached before := absurd before (Nat.not_lt_of_le reached)

/-- A token that is no semicolon is passed over. -/
theorem nextSemicolon_succ (here : tokens[place]? = some t) (other : t.kind ≠ .semicolon) :
    NextSemicolon tokens (place + 1) k ↔ NextSemicolon tokens place k := by
  have passed : tokens[place]?.map Token.kind ≠ some .semicolon := by simpa [here] using other
  constructor
  · intro next
    refine ⟨Nat.le_of_succ_le next.reached, next.inside, next.semicolon, ?_⟩
    intro j reached before
    rcases Nat.eq_or_lt_of_le reached with rfl | later
    · exact passed
    · exact next.first j later before
  · intro next
    refine ⟨?_, next.inside, next.semicolon, ?_⟩
    · refine Nat.lt_of_le_of_ne next.reached ?_
      rintro rfl
      exact passed next.semicolon
    · exact fun j reached before => next.first j (Nat.le_of_succ_le reached) before

theorem Recovered.of_succ (here : tokens[place]? = some t) (other : t.kind ≠ .semicolon)
    (recovered : Recovered tokens (place + 1) k) : Recovered tokens place k := by
  cases recovered with
  | behind next => exact .behind ((nextSemicolon_succ here other).mp next)
  | ended none => exact .ended fun k next => none k ((nextSemicolon_succ here other).mpr next)

theorem Recovered.lt (recovered : Recovered tokens start place) (inside : start < firstEnd tokens) :
    start < place := by
  cases recovered with
  | behind next => exact Nat.lt_succ_of_le next.reached
  | ended _ => exact inside

theorem Recovered.le (recovered : Recovered tokens start place)
    (inside : start ≤ firstEnd tokens) : start ≤ place := by
  rcases Nat.eq_or_lt_of_le inside with rfl | before
  · cases recovered with
    | behind next => exact Nat.le_succ_of_le next.reached
    | ended _ => exact inside
  · exact Nat.le_of_lt (recovered.lt before)

theorem recovered_of_end : Recovered tokens (firstEnd tokens) (firstEnd tokens) :=
  .ended fun _ next => Nat.not_lt_of_le next.reached next.inside

end Places

namespace Cursor

/-- The cursor stands at a place in these tokens, at most at their first end marker. -/
structure On (c : Cursor) (tokens : List Token) : Prop where
  within : c.position ≤ firstEnd tokens
  current : tokens[c.position]? = some c.current
  rest : c.rest = tokens.drop (c.position + 1)
  start : c.position = 0 → c.previous = .zero
  previous : ∀ k, c.position = k + 1 → tokens[k]?.map Token.span = some c.previous

theorem position_advance {c : Cursor} (notEnd : c.current.kind ≠ .endOfInput) (more : c.rest ≠ []) :
    c.advance.position = c.position + 1 := by
  obtain ⟨t, ts, rest⟩ := List.exists_cons_of_ne_nil more
  rw [advance_eq notEnd rest]

theorem Passes.position_eq {c c' : Cursor} {u : List Token} (passes : c.Passes u c') :
    c'.position = c.position + u.length := by
  induction passes with
  | nil => rfl
  | cons here notEnd more _ ih =>
      rw [ih, position_advance (here ▸ notEnd) more, List.length_cons, Nat.add_assoc,
        Nat.add_comm 1]

theorem ahead_of_ofTokens? {c : Cursor} {tokens : List Token}
    (started : ofTokens? tokens = some c) : c.ahead = tokens := by
  cases tokens <;> cases started
  rfl

theorem on_of_ofTokens? {c : Cursor} {tokens : List Token} (started : ofTokens? tokens = some c) :
    c.On tokens := by
  cases tokens with
  | nil => cases started
  | cons t ts =>
      cases started
      exact ⟨Nat.zero_le _, rfl, rfl, fun _ => rfl, nofun⟩

namespace On

variable {c c' : Cursor} {tokens u : List Token}

theorem end_iff (on : c.On tokens) :
    c.current.kind = .endOfInput ↔ c.position = firstEnd tokens :=
  end_iff_firstEnd on.within on.current

theorem atEnd_iff (on : c.On tokens) : c.atEnd = true ↔ c.position = firstEnd tokens := by
  rw [atEnd_iff_kind, on.end_iff]

theorem before_end (on : c.On tokens) (notEnd : c.current.kind ≠ .endOfInput) :
    c.position < firstEnd tokens :=
  Nat.lt_of_le_of_ne on.within fun same => notEnd (on.end_iff.mpr same)

theorem ahead (on : c.On tokens) : c.ahead = tokens.drop c.position := by
  obtain ⟨bounded, here⟩ := List.getElem?_eq_some_iff.mp on.current
  rw [Cursor.ahead, on.rest, List.drop_eq_getElem_cons bounded, here]

theorem step (on : c.On tokens) (notEnd : c.current.kind ≠ .endOfInput) (more : c.rest ≠ []) :
    c.advance.On tokens := by
  obtain ⟨t, ts, rest⟩ := List.exists_cons_of_ne_nil more
  rw [advance_eq notEnd rest]
  have behind : t :: ts = tokens.drop (c.position + 1) := rest.symm.trans on.rest
  have bounded : c.position + 1 < tokens.length := by
    by_contra outside
    rw [List.drop_eq_nil_of_le (Nat.le_of_not_lt outside)] at behind
    cases behind
  rw [List.drop_eq_getElem_cons bounded] at behind
  obtain ⟨rfl, rfl⟩ := List.cons.inj behind
  refine ⟨on.before_end notEnd, List.getElem?_eq_getElem bounded, rfl, nofun, ?_⟩
  rintro k ⟨⟩
  rw [on.current, Option.map_some]

theorem passes (on : c.On tokens) (passes : c.Passes u c') : c'.On tokens := by
  induction passes with
  | nil => exact on
  | cons here notEnd more _ ih => exact ih (on.step (here ▸ notEnd) more)

section Ended

variable (ended : firstEnd tokens < tokens.length)

include ended

theorem rest_ne_nil (on : c.On tokens) (notEnd : c.current.kind ≠ .endOfInput) : c.rest ≠ [] := by
  have before := on.before_end notEnd
  rw [on.rest, Ne, List.drop_eq_nil_iff]
  omega

theorem advance (on : c.On tokens) : c.advance.On tokens := by
  by_cases here : c.current.kind = .endOfInput
  · rwa [advance_of_end here]
  · exact on.step here (on.rest_ne_nil ended here)

theorem induction {motive : Cursor → Prop}
    (last : ∀ {c}, c.On tokens → c.current.kind = .endOfInput → motive c)
    (back : ∀ {c}, c.On tokens → c.current.kind ≠ .endOfInput → c.rest ≠ [] → motive c.advance →
      motive c)
    (on : c.On tokens) : motive c := by
  induction left : firstEnd tokens - c.position generalizing c with
  | zero =>
      have inside := on.within
      exact last on (on.end_iff.mpr (by omega))
  | succ left ih =>
      have notEnd : c.current.kind ≠ .endOfInput := by
        rw [Ne, on.end_iff]
        omega
      have more := on.rest_ne_nil ended notEnd
      have one := position_advance notEnd more
      exact back on notEnd more (ih (on.step notEnd more) (by omega))

theorem closed (on : c.On tokens) : c.Closed := by
  refine on.induction ended (fun _ here => ⟨[], here⟩) ?_
  rintro c - notEnd - ⟨kinds, shows⟩
  exact ⟨c.current.kind :: kinds, rfl, notEnd, shows⟩

/-- Recovery ends directly behind the next semicolon, or at the end. -/
theorem recover (on : c.On tokens) :
    c.recover.On tokens ∧ Recovered tokens c.position c.recover.position := by
  refine on.induction ended (motive := fun c => c.recover.On tokens ∧
    Recovered tokens c.position c.recover.position) ?_ ?_
  · intro c on here
    rw [recover_of_end here, on.end_iff.mp here]
    exact ⟨on, recovered_of_end⟩
  · rintro c on notEnd more ⟨later, recovered⟩
    rw [recover_eq notEnd more]
    rw [position_advance notEnd more] at recovered
    split
    case isTrue semicolon =>
      rw [position_advance notEnd more]
      exact ⟨on.step notEnd more, .behind (.of_here (on.before_end notEnd) on.current semicolon)⟩
    case isFalse other => exact ⟨later, recovered.of_succ on.current other⟩

end Ended

end On

inductive Action where
  | current
  | previous
  | check (kind : TokenKind)
  | advance
  | eat (kind : TokenKind)
  | expect (kind : TokenKind) (construct : Construct)
  | expectName (construct : Construct)
  | recover

/-- Does the reading succeed, and where is the cursor behind it? -/
def outcome {α : Type} : EStateM.Result SyntaxFault Cursor α → Bool × Cursor
  | .ok _ c => (true, c)
  | .error _ c => (false, c)

def perform (c : Cursor) : Action → Bool × Cursor
  | .current => outcome (Rule.current c)
  | .previous => outcome (Rule.previous c)
  | .check kind => (c.check kind, c)
  | .advance => outcome (Rule.advance c)
  | .eat kind => c.eat kind
  | .expect kind construct => outcome (Rule.expect kind construct c)
  | .expectName construct => outcome (Rule.expectName construct c)
  | .recover => (true, c.recover)

/-- The cursor behind these operations, one after another. -/
def after (c : Cursor) (actions : List Action) : Cursor :=
  actions.foldl (fun c action => (c.perform action).2) c

namespace Action

/-- The operation is only about the place where the cursor is. -/
def Looks : Action → Prop
  | .current | .previous | .check _ => True
  | _ => False

def Consumes : Action → Prop
  | .eat kind | .expect kind _ => kind ≠ .endOfInput
  | .expectName _ => True
  | _ => False

theorem Looks.not_consumes {action : Action} (looks : action.Looks) : ¬ action.Consumes := by
  cases action <;> simp_all [Looks, Consumes]

end Action

/-- What an operation can do: look, fail where the cursor is, consume the current token, or recover.
    A token of a class other than that of the end marker is no end marker. -/
inductive Effect (c : Cursor) (action : Action) : (success : Bool) → Cursor → Prop where
  | looks {success : Bool} : action.Looks → Effect c action success c
  | fails : ¬ action.Looks → action ≠ .advance → action ≠ .recover → Effect c action false c
  | consumes : ¬ action.Looks → action ≠ .recover →
      (action.Consumes → c.current.kind ≠ .endOfInput) → Effect c action true c.advance
  | recovers : action = .recover → Effect c action true c.recover

/-- What an operation does at a cursor on its tokens: whether it succeeds, and where it ends. -/
structure Moves (tokens : List Token) (c : Cursor) (action : Action) (success : Bool)
    (c' : Cursor) : Prop where
  on : c'.On tokens
  forward : c.position ≤ c'.position
  looked : action.Looks → c' = c
  failed : success = false → c' = c
  advanced : action = .advance → c'.position = min (c.position + 1) (firstEnd tokens)
  consumed : action.Consumes → success = true → c'.position = c.position + 1
  recovered : action = .recover → Recovered tokens c.position c'.position

section Operations

variable {tokens : List Token} {c c' : Cursor} {action : Action}

theorem not_end_of_check {kind : TokenKind} (here : c.check kind = true)
    (notEnd : kind ≠ .endOfInput) : c.current.kind ≠ .endOfInput := by
  intro ended
  rw [check, ended] at here
  cases kind <;> first | exact notEnd rfl | cases here

theorem effect (c : Cursor) (action : Action) :
    c.Effect action (c.perform action).1 (c.perform action).2 := by
  cases action with
  | current | previous | check => exact .looks trivial
  | advance => exact .consumes id (by simp) False.elim
  | recover => exact .recovers rfl
  | eat kind =>
      by_cases here : c.check kind = true
      · rw [perform, eat, if_pos here]
        exact .consumes id (by simp) (not_end_of_check here)
      · rw [perform, eat, if_neg here]
        exact .fails id (by simp) (by simp)
  | expect kind construct =>
      by_cases here : c.check kind = true
      · rw [perform, Rule.expect, expect, if_pos here]
        exact .consumes id (by simp) (not_end_of_check here)
      · rw [perform, Rule.expect, expect, if_neg here]
        exact .fails id (by simp) (by simp)
  | expectName construct =>
      cases here : c.current.kind with
      | ident name =>
          rw [perform, Rule.expectName_eq_ok.mpr ⟨here, rfl⟩]
          exact .consumes id (by simp) fun _ => by simp [here]
      | _ =>
          rw [perform]
          simp only [Rule.expectName, expectName, here]
          exact .fails id (by simp) (by simp)

theorem On.advance_position (on : c.On tokens) (ended : firstEnd tokens < tokens.length) :
    c.advance.position = min (c.position + 1) (firstEnd tokens) := by
  by_cases here : c.current.kind = .endOfInput
  · rw [advance_of_end here, on.end_iff.mp here, Nat.min_eq_right (Nat.le_succ _)]
  · rw [position_advance here (on.rest_ne_nil ended here),
      Nat.min_eq_left (on.before_end here)]

theorem On.moves {success : Bool} (on : c.On tokens) (ended : firstEnd tokens < tokens.length)
    (effect : c.Effect action success c') : c.Moves tokens action success c' := by
  cases effect with
  | looks looks =>
      exact {
        on := on
        forward := Nat.le_refl _
        looked := fun _ => rfl
        failed := fun _ => rfl
        advanced := by
          rintro rfl
          cases looks
        consumed := fun consumes => absurd consumes looks.not_consumes
        recovered := by
          rintro rfl
          cases looks }
  | fails active still other =>
      exact {
        on := on
        forward := Nat.le_refl _
        looked := fun looks => absurd looks active
        failed := fun _ => rfl
        advanced := fun advances => absurd advances still
        consumed := fun _ => nofun
        recovered := fun recovers => absurd recovers other }
  | consumes active other notEnd =>
      have moved := on.advance_position ended
      exact {
        on := on.advance ended
        forward := by
          rw [moved]
          exact Nat.le_min.mpr ⟨Nat.le_succ _, on.within⟩
        looked := fun looks => absurd looks active
        failed := nofun
        advanced := fun _ => moved
        consumed := fun consumes _ =>
          position_advance (notEnd consumes) (on.rest_ne_nil ended (notEnd consumes))
        recovered := fun recovers => absurd recovers other }
  | recovers recovers =>
      obtain ⟨later, recovered⟩ := on.recover ended
      subst recovers
      exact {
        on := later
        forward := recovered.le on.within
        looked := nofun
        failed := nofun
        advanced := nofun
        consumed := nofun
        recovered := fun _ => recovered }

theorem On.after (on : c.On tokens) (ended : firstEnd tokens < tokens.length)
    (actions : List Action) : (c.after actions).On tokens := by
  induction actions generalizing c with
  | nil => exact on
  | cons action actions ih => exact ih (on.moves ended (c.effect action)).on

end Operations

end Cursor

end TreeWalk
