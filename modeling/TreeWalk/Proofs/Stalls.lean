import TreeWalk.Proofs.Lockstep
import TreeWalk.Proofs.Viability

/-! # Where rules fail

A rule fails at the token that it looks at, behind tokens that can be completed. The rules call each
other, so this is one induction on the allowance over all of them; a rule without an allowance fails
where it starts, and the part that it was to read has a shortest form there.

What a rule has read by then is derived from the tokens before, whatever follows them, so that the
completion may replace the token that was wrong.
-/

namespace TreeWalk

open Grammar

/-- The kind of the token that was found in place of what could have stood there. -/
def SyntaxCause.found? : SyntaxCause → Option TokenKind
  | .unexpectedToken _ found | .expectedExpression found => some found
  | .lexical _ => none

/-- The fault is about this token. -/
structure SyntaxFault.PointsAt (fault : SyntaxFault) (t : Token) : Prop where
  span : fault.span = t.span
  found : fault.cause.found? = some t.kind

namespace Cursor

variable {c c' : Cursor} {u : List Token} {kinds rest : List TokenKind}

theorem Shows.unique (shows : c.Shows kinds) (again : c.Shows rest) : kinds = rest := by
  induction kinds generalizing c rest with
  | nil => exact (again.eq_nil (again.current.symm.trans shows)).symm
  | cons kind kinds ih =>
      obtain ⟨here, notEnd, behind⟩ := shows
      obtain ⟨rest, rfl, behind'⟩ := again.exists_cons here notEnd
      rw [ih behind behind']

theorem Passes.cut (passes : c.Passes u c') (shows : c.Shows kinds) :
    ∃ rest, kinds = u.map Token.kind ++ rest ∧ c'.Shows rest := by
  induction passes generalizing kinds with
  | nil => exact ⟨kinds, rfl, shows⟩
  | cons here notEnd _ _ ih =>
      obtain ⟨rest, rfl, behind⟩ := shows.exists_cons (congrArg Token.kind here) notEnd
      obtain ⟨rest, rfl, last⟩ := ih behind
      exact ⟨rest, rfl, last⟩

theorem Passes.eq_of_shows {v : List TokenKind} (passes : c.Passes u c')
    (shows : c.Shows (v ++ rest)) (behind : c'.Shows rest) : v = u.map Token.kind := by
  obtain ⟨rest', cut, behind'⟩ := passes.cut shows
  rw [behind.unique behind'] at cut
  exact List.append_cancel_right cut

end Cursor

namespace Rule

variable {α β : Type} {c : Cursor} {holds : List TokenKind → α → Cursor → Prop}
  {viable weaker : List TokenKind → Prop}

/-- If the rule fails at the cursor, its fault is about the token where it stops, and the tokens
    before that one are viable. -/
def Stalls (rule : Rule α) (c : Cursor) (viable : List TokenKind → Prop) : Prop :=
  ∀ ⦃fault c'⦄, rule c = .error fault c' →
    fault.PointsAt c'.current ∧ ∃ u, c.Passes u c' ∧ viable (u.map Token.kind)

/-- What the rule does at the cursor: it reads something that `holds` of the tokens that it
    consumes, or it fails behind viable ones. -/
structure Tries (rule : Rule α) (c : Cursor) (holds : List TokenKind → α → Cursor → Prop)
    (viable : List TokenKind → Prop) : Prop where
  reads : ∀ {a c'}, rule c = .ok a c' → ∃ u, c.Passes u c' ∧ holds (u.map Token.kind) a c'
  stalls : Stalls rule c viable

theorem Stalls.imp {rule : Rule α} (stalls : Stalls rule c viable)
    (weaken : ∀ {u c'}, c.Passes u c' → viable (u.map Token.kind) → weaker (u.map Token.kind)) :
    Stalls rule c weaker := by
  intro fault c' failed
  obtain ⟨points, u, passes, held⟩ := stalls failed
  exact ⟨points, u, passes, weaken passes held⟩

theorem stalls_within {rule : Rule α} (construct : Construct) (stalls : Stalls rule c viable) :
    Stalls (within construct rule) c viable := by
  intro fault c' failed
  unfold within at failed
  cases ran : rule c with
  | ok a mid =>
      rw [ran] at failed
      cases failed
  | error inner mid =>
      rw [ran] at failed
      cases failed
      obtain ⟨points, before⟩ := stalls ran
      exact ⟨⟨points.span, points.found⟩, before⟩

theorem stalls_of_ok {rule : Rule α} {a : α} {mid : Cursor} (read : rule c = .ok a mid) :
    Stalls rule c viable := by
  intro fault c' failed
  cases read.symm.trans failed

theorem stalls_here {rule : Rule α}
    (stays : ∀ {fault c'}, rule c = .error fault c' → fault.PointsAt c.current ∧ c' = c)
    (held : viable []) : Stalls rule c viable := by
  intro fault c' failed
  obtain ⟨points, rfl⟩ := stays failed
  exact ⟨points, [], .nil, held⟩

theorem stalls_noExpression (held : viable []) : Stalls (noExpression : Rule α) c viable := by
  refine stalls_here ?_ held
  rintro fault c' ⟨⟩
  exact ⟨⟨rfl, rfl⟩, rfl⟩

theorem Stalls.last {rule : Rule α} {next : α → Rule β} (stalls : Stalls rule c viable)
    (never : ∀ a mid fault c', next a mid ≠ .error fault c') : Stalls (rule >>= next) c viable := by
  intro fault c' failed
  cases ran : rule c with
  | ok a mid =>
      rw [bind_of_ok ran] at failed
      exact absurd failed (never a mid fault c')
  | error inner mid =>
      rw [bind_of_error ran] at failed
      cases failed
      exact stalls ran

theorem Stalls.map {rule : Rule α} {f : α → β} (stalls : Stalls rule c viable) :
    Stalls (rule >>= fun a => pure (f a)) c viable :=
  stalls.last fun _ _ _ _ => nofun

namespace Tries

theorem bind {rule : Rule α} {next : α → Rule β} (tries : Tries rule c holds viable)
    (closed : c.Closed)
    (later : ∀ u a mid, mid.Closed → holds u a mid →
      Stalls (next a) mid fun v => viable (u ++ v)) : Stalls (rule >>= next) c viable := by
  intro fault c' failed
  cases ran : rule c with
  | error inner mid =>
      rw [bind_of_error ran] at failed
      cases failed
      exact tries.stalls ran
  | ok a mid =>
      rw [bind_of_ok ran] at failed
      obtain ⟨u, passes, held⟩ := tries.reads ran
      obtain ⟨points, v, passesLater, viable⟩ := later _ a mid (passes.closed closed) held failed
      refine ⟨points, u ++ v, passes.append passesLater, ?_⟩
      rwa [List.map_append]

theorem imp {rule : Rule α} (tries : Tries rule c holds viable)
    (weaken : ∀ {u}, viable u → weaker u) : Tries rule c holds weaker :=
  ⟨tries.reads, tries.stalls.imp fun _ => weaken⟩

end Tries

theorem tries_within {rule : Rule α} (construct : Construct) (tries : Tries rule c holds viable) :
    Tries (within construct rule) c holds viable :=
  ⟨fun read => tries.reads (within_eq_ok.mp read), stalls_within construct tries.stalls⟩

section Steps

variable {kind : TokenKind}

theorem tries_advance (closed : c.Closed) (here : c.current.kind = kind)
    (notEnd : kind ≠ .endOfInput) :
    Tries advance c (fun u _ _ => u = [kind]) viable where
  reads read := by
    obtain ⟨-, rfl⟩ := advance_eq_ok.mp read
    exact ⟨[c.current], .one closed (here ▸ notEnd), congrArg (fun kind => [kind]) here⟩
  stalls := stalls_of_ok advance_ok

theorem tries_expect (construct : Construct) (fixed : kind.spelling?.isSome) (closed : c.Closed)
    (held : viable []) : Tries (expect kind construct) c (fun u _ _ => u = [kind]) viable where
  reads read := by
    obtain ⟨⟨here, _⟩, rfl⟩ := (expect_eq_ok fixed).mp read
    exact ⟨[c.current], .one closed (here ▸ ne_end_of_fixed fixed),
      congrArg (fun kind => [kind]) here⟩
  stalls := by
    by_cases here : c.check kind = true
    · exact stalls_of_ok (show expect kind construct c = .ok c.current.span c.advance by
        simp [expect, Cursor.expect, here])
    · refine stalls_here ?_ held
      intro fault c' failed
      simp only [expect, Cursor.expect, here, Bool.false_eq_true, if_false] at failed
      cases failed
      exact ⟨⟨rfl, rfl⟩, rfl⟩

theorem tries_expectName (construct : Construct) (closed : c.Closed) (held : viable []) :
    Tries (expectName construct) c (fun u name _ => u = [.ident name]) viable where
  reads read := by
    obtain ⟨here, rfl⟩ := expectName_eq_ok.mp read
    exact ⟨[c.current], .one closed (here ▸ nofun), congrArg (fun kind => [kind]) here⟩
  stalls := by
    cases here : c.current.kind with
    | ident name => exact stalls_of_ok (expectName_eq_ok.mpr ⟨here, rfl⟩)
    | _ =>
        refine stalls_here ?_ held
        intro fault c' failed
        simp only [expectName, Cursor.expectName, here] at failed
        cases failed
        exact ⟨⟨rfl, rfl⟩, rfl⟩

theorem tries_eat (fixed : kind.spelling?.isSome) (closed : c.Closed) :
    Tries (eat kind) c (fun u ate c' => (ate = true ∧ u = [kind]) ∨ (ate = false ∧ u = [] ∧ c' = c))
      viable where
  reads read := by
    rcases (eat_eq_ok fixed).mp read with ⟨here, rfl, rfl⟩ | ⟨_, rfl, rfl⟩
    · exact ⟨[c.current], .one closed (here ▸ ne_end_of_fixed fixed),
        .inl ⟨rfl, congrArg (fun kind => [kind]) here⟩⟩
    · exact ⟨[], .nil, .inr ⟨rfl, rfl, rfl⟩⟩
  stalls := stalls_of_ok (show eat kind c = .ok (c.eat kind).1 (c.eat kind).2 from rfl)

end Steps

theorem tries_listed {items : Rule (List α)} {forms : List TokenKind → List α → Prop}
    (closed : c.Closed) (empty : forms [.rightParen] [])
    (list : Tries items c (fun u as _ => forms u as) viable) :
    Tries (listed items) c (fun u as _ => forms u as) viable where
  reads read := by
    unfold listed at read
    obtain ⟨ate, mid, eaten, read⟩ := bind_eq_ok.mp read
    rcases (eat_eq_ok rfl).mp eaten with ⟨here, rfl, rfl⟩ | ⟨_, rfl, rfl⟩
    · obtain ⟨rfl, rfl⟩ := pure_eq_ok.mp read
      refine ⟨[c.current], .one closed (here ▸ nofun), ?_⟩
      rwa [List.map_singleton, here]
    · exact list.reads read
  stalls := by
    refine (tries_eat rfl closed).bind closed ?_
    rintro _ _ mid _ (⟨rfl, rfl⟩ | ⟨rfl, rfl, rfl⟩)
    · exact stalls_of_ok rfl
    · exact list.stalls

section Forms

theorem eat_bind (kind : TokenKind) (next : Bool → Rule α) (c : Cursor) :
    (eat kind >>= next) c = next (c.eat kind).1 (c.eat kind).2 := rfl

theorem previous_bind (next : Span → Rule α) (c : Cursor) :
    (previous >>= next) c = next c.previous c := rfl

def TriesExpression (layer : Precedence) (rule : Rule Expr) : Prop :=
  ∀ {c : Cursor}, c.Closed →
    Tries rule c (fun u e _ => Free (Expression layer) u e) (Viable (Expression layer))

def TriesBlock (rule : Rule Block) : Prop :=
  ∀ {c : Cursor}, c.Closed → Tries rule c (fun u b _ => Free Braced u b) (Viable Braced)

theorem stalls_binding {value : Rule Expr} (inner : TriesExpression .lowest value)
    (closed : c.Closed) (here : c.current.kind = .letKeyword) :
    Stalls (binding value) c (Viable Statement) := by
  unfold binding
  refine (tries_advance closed here nofun).bind closed ?_
  rintro _ _ c₁ closed₁ rfl
  have afterLet : Viable Statement [.letKeyword] :=
    Viable.before (v := [.ident "x", .assign]) (viable_bind "x" viable_expression)
  refine (tries_expectName _ closed₁ afterLet).bind closed₁ ?_
  rintro _ name c₂ closed₂ rfl
  have afterName : Viable Statement [.letKeyword, .ident name] :=
    Viable.before (v := [.assign]) (viable_bind name viable_expression)
  refine (tries_expect _ rfl closed₂ afterName).bind closed₂ ?_
  rintro _ _ c₃ closed₃ rfl
  refine Stalls.last (stalls_within _ ((inner closed₃).stalls.imp fun _ => viable_bind name)) ?_
  intro e mid fault c' failed
  rw [eat_bind, previous_bind] at failed
  cases failed

theorem stalls_returning {value : Rule (Option Expr)}
    (inner : ∀ {c : Cursor}, c.Closed → Stalls value c (Viable (Expression .lowest)))
    (closed : c.Closed) (here : c.current.kind = .returnKeyword) :
    Stalls (returning value) c (Viable Statement) := by
  unfold returning
  refine (tries_advance closed here nofun).bind closed ?_
  rintro _ _ c₁ closed₁ rfl
  refine Stalls.last ((inner closed₁).imp fun _ => viable_ret) ?_
  intro e mid fault c' failed
  rw [eat_bind, previous_bind] at failed
  cases failed

theorem stalls_standing {value : Rule Expr} (inner : Stalls value c (Viable (Expression .lowest))) :
    Stalls (standing value) c (Viable Statement) := by
  unfold standing
  refine Stalls.last (inner.imp fun _ => viable_expr) ?_
  intro e mid fault c' failed
  rw [eat_bind] at failed
  split at failed <;> cases failed

theorem stalls_grouping {inner : Rule Expr} (held : TriesExpression .lowest inner)
    (closed : c.Closed) (here : c.current.kind = .leftParen) :
    Stalls (grouping inner) c (Viable (Expression .call)) := by
  unfold grouping
  refine (tries_advance closed here nofun).bind closed ?_
  rintro _ _ c₁ closed₁ rfl
  refine ((tries_within _ (held closed₁)).imp viable_group).bind closed₁ ?_
  intro u e c₂ closed₂ free
  refine (tries_expect _ rfl closed₂ ?_).stalls.map
  simpa using viable_group free.viable

theorem stalls_unary (op : UnaryOp) {operand : Rule Expr} (inner : TriesExpression .unary operand)
    (closed : c.Closed) (here : c.current.kind = op.token) :
    Stalls (unary op operand) c (Viable (Expression .unary)) := by
  unfold unary
  refine (tries_advance closed here op.token_ne_end.symm).bind closed ?_
  rintro _ _ c₁ closed₁ rfl
  exact Stalls.map ((inner closed₁).stalls.imp fun _ => viable_unary op)

theorem stalls_conditional {condition : Rule Expr} {branch : Rule Block}
    (test : TriesExpression .lowest condition) (braced : TriesBlock branch) (closed : c.Closed)
    (here : c.current.kind = .ifKeyword) :
    Stalls (conditional condition branch) c (Viable (Expression .call)) := by
  unfold conditional
  refine (tries_advance closed here nofun).bind closed ?_
  rintro _ _ c₁ closed₁ rfl
  have afterIf : Viable (Expression .call) [.ifKeyword] :=
    Viable.before (v := [.leftParen]) (viable_test viable_expression)
  refine (tries_expect _ rfl closed₁ afterIf).bind closed₁ ?_
  rintro _ _ c₂ closed₂ rfl
  refine ((tries_within _ (test closed₂)).imp viable_test).bind closed₂ ?_
  intro u e c₃ closed₃ freeTest
  refine (tries_expect _ rfl closed₃ ?_).bind closed₃ ?_
  · simpa using viable_test freeTest.viable
  rintro _ _ c₄ closed₄ rfl
  refine ((braced closed₄).imp (viable_branch freeTest)).bind closed₄ ?_
  intro v b c₅ closed₅ freeBranch
  refine (tries_eat rfl closed₅).bind closed₅ ?_
  rintro _ _ c₆ closed₆ (⟨rfl, rfl⟩ | ⟨rfl, rfl, rfl⟩)
  · refine Stalls.last ((braced closed₆).stalls.imp fun _ => viable_other freeTest freeBranch) ?_
    intro b' mid fault c' failed
    rw [previous_bind] at failed
    cases failed
  · exact stalls_of_ok rfl

theorem stalls_function {names : Rule (List String)} {code : Rule Block}
    (named : ∀ {c : Cursor}, c.Closed →
      Tries names c (fun u params _ => Free Names u params) (Viable Names))
    (braced : TriesBlock code) (closed : c.Closed) (here : c.current.kind = .fnKeyword) :
    Stalls (function names code) c (Viable (Expression .call)) := by
  unfold function
  refine (tries_advance closed here nofun).bind closed ?_
  rintro _ _ c₁ closed₁ rfl
  have afterFn : Viable (Expression .call) [.fnKeyword] :=
    Viable.before (v := [.leftParen]) (viable_function (viable_params viable_names))
  refine (tries_expect _ rfl closed₁ afterFn).bind closed₁ ?_
  rintro _ _ c₂ closed₂ rfl
  have list : Tries names c₂ (fun u params _ => Free Params u params) (Viable Params) := by
    constructor
    · intro params c' read
      obtain ⟨u, passes, free⟩ := (named closed₂).reads read
      exact ⟨u, passes, fun rest => .items (free rest)⟩
    · exact (named closed₂).stalls.imp fun _ => viable_params
  refine ((tries_listed closed₂ (fun _ => .empty) list).imp viable_function).bind closed₂ ?_
  intro u params c₃ closed₃ freeParams
  refine Stalls.last ((braced closed₃).stalls.imp fun _ => viable_body freeParams) ?_
  intro b mid fault c' failed
  rw [previous_bind] at failed
  cases failed

end Forms

theorem free_of_consumes {derives : List TokenKind → α → List TokenKind → Prop} {a : α}
    {c c' : Cursor} {u : List Token} {kinds rest : List TokenKind} (shows : c.Shows kinds)
    (passes : c.Passes u c') (behind : c'.Shows rest) (consumes : Consumes derives kinds a rest) :
    Free derives (u.map Token.kind) a := by
  obtain ⟨v, rfl, _, free⟩ := consumes
  rwa [← passes.eq_of_shows shows behind]

section Reading

variable {n : Nat} {c' : Cursor} (closed : c.Closed)

include closed

theorem reads_expression {least : Precedence} {e : Expr} (loose : least < .call)
    (read : expression n least c = .ok e c') :
    ∃ u, c.Passes u c' ∧ ∃ layer, Allowed least layer ∧
      Free (Expression layer) (u.map Token.kind) e ∧ ¬ least < c'.current.kind.precedence := by
  obtain ⟨u, passes, _⟩ := (repeatsAt n).expression False least c closed read
  obtain ⟨kinds, shows⟩ := closed
  obtain ⟨rest, behind, layer, allowed, derived, stops⟩ :=
    (soundAt n).expression least loose shows read
  refine ⟨u, passes, layer, allowed, free_of_consumes shows passes behind derived.consumes, ?_⟩
  rwa [behind.current]

theorem reads_operand {e : Expr} (read : operand n c = .ok e c') :
    ∃ u, c.Passes u c' ∧ ∃ layer, ¬ layer < .unary ∧
      Free (Expression layer) (u.map Token.kind) e ∧ ¬ layer < c'.current.kind.precedence := by
  obtain ⟨u, passes, _⟩ := (repeatsAt n).operand False c closed read
  obtain ⟨kinds, shows⟩ := closed
  obtain ⟨rest, behind, layer, tight, derived, stops⟩ := (soundAt n).operand shows read
  refine ⟨u, passes, layer, tight, free_of_consumes shows passes behind derived.consumes, ?_⟩
  rwa [behind.current]

theorem reads_block {construct : Construct} {b : Block} (read : block n construct c = .ok b c') :
    ∃ u, c.Passes u c' ∧ Free Braced (u.map Token.kind) b := by
  obtain ⟨u, passes, _⟩ := (repeatsAt n).block False construct c closed read
  obtain ⟨kinds, shows⟩ := closed
  obtain ⟨rest, behind, derived⟩ := (soundAt n).block construct shows read
  exact ⟨u, passes, free_of_consumes shows passes behind derived.consumes⟩

theorem reads_arguments {args : List Expr} (read : arguments n [] c = .ok args c') :
    ∃ u, c.Passes u c' ∧ Free Items (u.map Token.kind) args := by
  obtain ⟨u, passes, _⟩ := (repeatsAt n).arguments False [] c closed read
  obtain ⟨kinds, shows⟩ := closed
  obtain ⟨rest, behind, _, rfl, derived⟩ := (soundAt n).arguments [] shows read
  exact ⟨u, passes, free_of_consumes shows passes behind derived.consumes⟩

theorem reads_params {names : List String} (read : params n [] c = .ok names c') :
    ∃ u, c.Passes u c' ∧ Free Names (u.map Token.kind) names := by
  have repeats : Repeats False Looks n (params · []) c _ := repeats_params []
  obtain ⟨u, passes, _⟩ := repeats closed read
  obtain ⟨kinds, shows⟩ := closed
  obtain ⟨rest, behind, derived⟩ := sound_names n shows read
  exact ⟨u, passes, free_of_consumes shows passes behind derived.consumes⟩

theorem reads_statement {t : Stmt} (read : statement n c = .ok t c') :
    ∃ u, c.Passes u c' ∧ ∃ rest, c'.Shows rest ∧
      ∀ rest', Fits rest rest' → Statement (u.map Token.kind ++ rest') t rest' := by
  obtain ⟨u, passes, _⟩ := (repeatsAt n).statement False c closed read
  obtain ⟨kinds, shows⟩ := closed
  obtain ⟨rest, behind, derived⟩ := (soundAt n).statement shows read
  obtain ⟨v, rfl, _, before⟩ := derived.consumes
  rw [passes.eq_of_shows shows behind] at before
  exact ⟨u, passes, rest, behind, before⟩

theorem reads_statements {ts : List Stmt} (read : statements n [] c = .ok ts c') :
    ∃ u, c.Passes u c' ∧ ViableStatements (u.map Token.kind) := by
  obtain ⟨u, passes, _⟩ := (repeatsAt n).statements False [] c closed read
  obtain ⟨kinds, shows⟩ := closed
  obtain ⟨rest, behind, _, rfl, derived⟩ := (soundAt n).statements [] shows read
  obtain ⟨v, rfl, _, before⟩ := derived.consumes
  rw [passes.eq_of_shows shows behind] at before
  exact ⟨u, passes, [], ts, fun _ => rfl, fun rest' closes => before rest' (.inl closes)⟩

end Reading

/-- The tokens can be completed to an expression that may stand behind an operator of precedence
    `least`. -/
def ViableAbove (least : Precedence) (u : List TokenKind) : Prop :=
  ∃ layer, Allowed least layer ∧ Viable (Expression layer) u

def ViableOpening (u : List TokenKind) : Prop :=
  ∃ layer, ¬ layer < .unary ∧ Viable (Expression layer) u

theorem ViableAbove.lowest {u : List TokenKind} (viable : ViableAbove .lowest u) :
    Viable (Expression .lowest) u := by
  obtain ⟨layer, _, viable⟩ := viable
  exact viable.down (by simp [Precedence.lt_iff, Precedence.level])

theorem ViableAbove.unary {u : List TokenKind} (viable : ViableAbove .unary u) :
    Viable (Expression .unary) u := by
  obtain ⟨layer, above | rfl, viable⟩ := viable
  · exact viable.down fun below => Nat.lt_asymm above below
  · exact viable

theorem ViableAbove.opening {least : Precedence} {u : List TokenKind} (loose : least < .call)
    (viable : ViableOpening u) : ViableAbove least u := by
  obtain ⟨layer, tight, viable⟩ := viable
  exact ⟨layer, .of_tight loose tight, viable⟩

structure StallsAt (n : Nat) : Prop where
  statement : ∀ {c}, c.Closed → Stalls (statement n) c (Viable Statement)
  returned : ∀ {c}, c.Closed → Stalls (returned n) c (Viable (Expression .lowest))
  block : ∀ construct {c}, c.Closed → Stalls (block n construct) c (Viable Braced)
  statements : ∀ read {c}, c.Closed → Stalls (statements n read) c ViableStatements
  expression : ∀ {least}, least < .call → ∀ {c}, c.Closed →
    Stalls (expression n least) c (ViableAbove least)
  continued : ∀ {least layer left u c}, c.Closed → Allowed least layer →
    Free (Expression layer) u left → ¬ layer < c.current.kind.precedence →
    Stalls (continued n least left) c fun v => ViableAbove least (u ++ v)
  arguments : ∀ read {c}, c.Closed → Stalls (arguments n read) c (Viable Items)
  operand : ∀ {c}, c.Closed → Stalls (operand n) c ViableOpening

theorem stalls_params (n : Nat) (read : List String) (closed : c.Closed) :
    Stalls (params n read) c (Viable Names) := by
  induction n generalizing read c with
  | zero => exact stalls_noExpression viable_names
  | succ n ih =>
      unfold params
      refine (tries_expectName _ closed viable_names).bind closed ?_
      rintro _ name c₁ closed₁ rfl
      refine (tries_eat rfl closed₁).bind closed₁ ?_
      rintro _ _ c₂ closed₂ (⟨rfl, rfl⟩ | ⟨rfl, rfl, rfl⟩)
      · exact (ih (name :: read) closed₂).imp fun _ => viable_more_names name
      · refine (tries_expect _ rfl closed₂ ?_).stalls.map
        exact Viable.before (v := [.comma]) (viable_more_names name viable_names)

namespace StallsAt

variable {n : Nat}

theorem zero : StallsAt 0 where
  statement _ := stalls_noExpression (viable_expr viable_expression)
  returned _ := stalls_noExpression viable_expression
  block _ _ _ := stalls_noExpression viable_block
  statements _ _ _ := stalls_noExpression viable_statements
  expression loose _ _ := stalls_noExpression ⟨.call, .inl loose, viable_operand⟩
  continued _ allowed free _ := stalls_noExpression (by simpa using ⟨_, allowed, free.viable⟩)
  arguments _ _ _ := stalls_noExpression (viable_items viable_expression)
  operand _ := stalls_noExpression ⟨.call, by decide, viable_operand⟩

section Parts

variable (all : StallsAt n)

include all

theorem whole : TriesExpression .lowest (Rule.expression n .lowest) := fun closed =>
  { reads := fun read => by
      obtain ⟨u, passes, layer, _, free, _⟩ := reads_expression closed (by decide) read
      exact ⟨u, passes, free.down (by simp [Precedence.lt_iff, Precedence.level])⟩
    stalls := (all.expression (by decide) closed).imp fun _ => ViableAbove.lowest }

theorem tight : TriesExpression .unary (Rule.expression n .unary) := fun closed =>
  { reads := fun read => by
      obtain ⟨u, passes, layer, above | rfl, free, _⟩ := reads_expression closed (by decide) read
      · exact ⟨u, passes, free.down fun below => Nat.lt_asymm above below⟩
      · exact ⟨u, passes, free⟩
    stalls := (all.expression (by decide) closed).imp fun _ => ViableAbove.unary }

theorem braced (construct : Construct) : TriesBlock (Rule.block n construct) := fun closed =>
  ⟨reads_block closed, all.block construct closed⟩

theorem statement_succ (closed : c.Closed) :
    Stalls (Rule.statement (n + 1)) c (Viable Statement) := by
  rw [Rule.statement]
  intro fault c' failed
  rw [bind_of_ok current_ok] at failed
  cases here : c.current.kind with
  | letKeyword =>
      simp only [here] at failed
      exact stalls_binding all.whole closed here failed
  | returnKeyword =>
      simp only [here] at failed
      exact stalls_returning all.returned closed here failed
  | _ =>
      simp only [here] at failed
      exact stalls_standing (all.whole closed).stalls failed

theorem returned_succ (closed : c.Closed) :
    Stalls (Rule.returned (n + 1)) c (Viable (Expression .lowest)) := by
  rw [Rule.returned]
  intro fault c' failed
  rw [bind_of_ok current_ok] at failed
  have inner : Stalls (do return some (← within .returnStatement (Rule.expression n .lowest))) c
      (Viable (Expression .lowest)) :=
    (stalls_within _ (all.whole closed).stalls).map
  cases here : c.current.kind with
  | semicolon | rightBrace | endOfInput =>
      simp only [here] at failed
      cases failed
  | _ =>
      simp only [here] at failed
      exact inner failed

theorem block_succ (construct : Construct) (closed : c.Closed) :
    Stalls (Rule.block (n + 1) construct) c (Viable Braced) := by
  rw [Rule.block]
  refine (tries_expect _ rfl closed viable_block).bind closed ?_
  rintro _ _ c₁ closed₁ rfl
  have inner : Tries (Rule.statements n []) c₁ (fun u _ _ => ViableStatements u)
      fun v => Viable Braced (.leftBrace :: v) :=
    ⟨reads_statements closed₁, (all.statements [] closed₁).imp fun _ => viable_braced⟩
  refine inner.bind closed₁ ?_
  intro u ts c₂ closed₂ viable
  refine (tries_expect _ rfl closed₂ ?_).stalls.map
  simpa using viable_braced viable

theorem statements_succ (before : List Stmt) (closed : c.Closed) :
    Stalls (Rule.statements (n + 1) before) c ViableStatements := by
  rw [Rule.statements]
  intro fault c' failed
  rw [bind_of_ok current_ok] at failed
  have first : Tries (Rule.statement n) c (fun u t mid => ∃ rest, mid.Shows rest ∧
      ∀ rest', Fits rest rest' → Statement (u ++ rest') t rest') ViableStatements :=
    ⟨reads_statement closed, (all.statement closed).imp fun _ => Viable.statements⟩
  have goesOn : Stalls (Rule.statement n >>= fun t => Rule.statements n (t :: before)) c
      ViableStatements := by
    refine first.bind closed ?_
    rintro u t mid closedMid ⟨rest, shows, head⟩
    refine (all.statements (t :: before) closedMid).imp fun passes tail => ?_
    obtain ⟨rest, rfl, _⟩ := passes.cut shows
    exact viable_more_statements head tail
  cases here : c.current.kind with
  | rightBrace | endOfInput =>
      simp only [here] at failed
      cases failed
  | _ =>
      simp only [here] at failed
      exact goesOn failed

theorem expression_succ {least : Precedence} (loose : least < .call) (closed : c.Closed) :
    Stalls (Rule.expression (n + 1) least) c (ViableAbove least) := by
  rw [Rule.expression]
  have first : Tries (Rule.operand n) c (fun u e mid => ∃ layer, ¬ layer < .unary ∧
      Free (Expression layer) u e ∧ ¬ layer < mid.current.kind.precedence) (ViableAbove least) :=
    ⟨reads_operand closed, (all.operand closed).imp fun _ => ViableAbove.opening loose⟩
  refine first.bind closed ?_
  rintro u e mid closedMid ⟨layer, isTight, free, stops⟩
  exact all.continued closedMid (.of_tight loose isTight) free stops

theorem binary_round {least layer : Precedence} {left : Expr} {op : BinaryOp} {u : List TokenKind}
    (closed : c.Closed) (here : c.current.kind = op.token) (binds : least < op.precedence)
    (free : Free (Expression layer) u left) (notBelow : ¬ layer < op.precedence) :
    Stalls (do
      let _ ← advance
      let right ← Rule.expression n op.precedence
      Rule.continued n least (.binary (left.span.merge right.span) op left right)) c
        fun v => ViableAbove least (u ++ v) := by
  have first : Free (Expression op.precedence) u left := free.down notBelow
  have above : ∀ {tighter}, Allowed op.precedence tighter → op.precedence < tighter := by
    rintro tighter (above | rfl)
    · exact above
    · exact op.precedence_level.2
  refine (tries_advance closed here op.token_ne_end.symm).bind closed ?_
  rintro _ _ c₁ closed₁ rfl
  have second : Tries (Rule.expression n op.precedence) c₁ (fun v e mid => ∃ tighter,
      Allowed op.precedence tighter ∧ Free (Expression tighter) v e ∧
        ¬ op.precedence < mid.current.kind.precedence)
      fun v => ViableAbove least (u ++ op.token :: v) := by
    refine ⟨reads_expression closed₁ op.precedence_lt_call, ?_⟩
    refine (all.expression op.precedence_lt_call closed₁).imp ?_
    rintro v c' _ ⟨tighter, allowed, viable⟩
    exact ⟨op.precedence, .inl binds, viable_binary op first viable (above allowed)⟩
  refine second.bind closed₁ ?_
  rintro v right mid closedMid ⟨tighter, allowed, freeRight, stops⟩
  have both : Free (Expression op.precedence) (u ++ op.token :: v)
      (.binary (left.span.merge right.span) op left right) := by
    intro rest
    simpa using Expression.binary op (first (op.token :: (v ++ rest))) (freeRight rest)
      (above allowed)
  refine (all.continued closedMid (.inl binds) both stops).imp fun _ viable => ?_
  simpa using viable

theorem call_round {least layer : Precedence} {left : Expr} {u : List TokenKind}
    (closed : c.Closed) (here : c.current.kind = .leftParen) (binds : least < .call)
    (free : Free (Expression layer) u left) (notBelow : ¬ layer < .call) :
    Stalls (do
      let _ ← advance
      let args ← listed (Rule.arguments n [])
      let span ← previous
      Rule.continued n least (.call (left.span.merge span) left args)) c
        fun v => ViableAbove least (u ++ v) := by
  have head : Free (Expression .call) u left := free.down notBelow
  refine (tries_advance closed here nofun).bind closed ?_
  rintro _ _ c₁ closed₁ rfl
  have items : Tries (Rule.arguments n []) c₁ (fun v args _ => Free Arguments v args)
      fun v => ViableAbove least (u ++ .leftParen :: v) := by
    constructor
    · intro args c' read
      obtain ⟨v, passes, list⟩ := reads_arguments closed₁ read
      exact ⟨v, passes, fun rest => .items (list rest)⟩
    · refine (all.arguments [] closed₁).imp fun _ viable => ?_
      exact ⟨.call, .inl binds, viable_call head (viable_arguments viable)⟩
  refine (tries_listed closed₁ (fun _ => .empty) items).bind closed₁ ?_
  intro v args mid closedMid list
  have both (span : Span) : Free (Expression .call) (u ++ .leftParen :: v)
      (.call (left.span.merge span) left args) := by
    intro rest
    simpa using Expression.call (head (.leftParen :: (v ++ rest))) (list rest)
  have later (span : Span) :
      Stalls (Rule.continued n least (.call (left.span.merge span) left args)) mid fun w =>
        ViableAbove least (u ++ .leftParen :: (v ++ w)) := by
    refine (all.continued closedMid (.inl binds) (both span) (Precedence.not_call_lt _)).imp ?_
    intro w c' _ viable
    simpa using viable
  intro fault c' failed
  rw [previous_bind] at failed
  exact later _ failed

theorem continued_succ {least layer : Precedence} {left : Expr} {u : List TokenKind}
    (closed : c.Closed) (_ : Allowed least layer) (free : Free (Expression layer) u left)
    (notBelow : ¬ layer < c.current.kind.precedence) :
    Stalls (Rule.continued (n + 1) least left) c fun v => ViableAbove least (u ++ v) := by
  rw [Rule.continued]
  intro fault c' failed
  rw [bind_of_ok current_ok] at failed
  by_cases binds : least < c.current.kind.precedence
  · simp only [binds, if_true] at failed
    cases operator : c.current.kind.binaryOp? with
    | none =>
        simp only [operator] at failed
        have here := TokenKind.eq_leftParen (Precedence.lowest_lt binds) operator
        rw [here] at binds notBelow
        exact all.call_round closed here binds free notBelow failed
    | some op =>
        simp only [operator] at failed
        have here := BinaryOp.eq_token operator
        rw [here, op.precedence_token] at binds notBelow
        exact all.binary_round closed here binds free notBelow failed
  · simp only [binds, if_false] at failed
    cases failed

theorem arguments_succ (before : List Expr) (closed : c.Closed) :
    Stalls (Rule.arguments (n + 1) before) c (Viable Items) := by
  rw [Rule.arguments]
  refine ((tries_within _ (all.whole closed)).imp viable_items).bind closed ?_
  intro u e c₁ closed₁ item
  have more : Viable Items (u ++ [.comma]) :=
    viable_more_items item (viable_items viable_expression)
  refine (tries_eat rfl closed₁).bind closed₁ ?_
  rintro _ _ c₂ closed₂ (⟨rfl, rfl⟩ | ⟨rfl, rfl, rfl⟩)
  · exact (all.arguments (e :: before) closed₂).imp fun _ => viable_more_items item
  · refine (tries_expect _ rfl closed₂ ?_).stalls.map
    simpa using more.before

theorem operand_succ (closed : c.Closed) : Stalls (Rule.operand (n + 1)) c ViableOpening := by
  intro fault c' failed
  replace failed := (bind_of_ok current_ok).symm.trans failed
  have form {rule : Rule Expr} (stalls : Stalls rule c (Viable (Expression .call))) :
      Stalls rule c ViableOpening := stalls.imp fun _ viable => ⟨.call, by decide, viable⟩
  have unary {rule : Rule Expr} (stalls : Stalls rule c (Viable (Expression .unary))) :
      Stalls rule c ViableOpening := stalls.imp fun _ viable => ⟨.unary, by decide, viable⟩
  have named {c : Cursor} (closed : c.Closed) :
      Tries (params n []) c (fun u names _ => Free Names u names) (Viable Names) :=
    ⟨reads_params closed, stalls_params n [] closed⟩
  cases here : c.current.kind with
  | ident | int | trueKeyword | falseKeyword =>
      simp only [here] at failed
      cases failed
  | bang =>
      simp only [here] at failed
      exact unary (stalls_unary .not all.tight closed here) failed
  | minus =>
      simp only [here] at failed
      exact unary (stalls_unary .neg all.tight closed here) failed
  | leftParen =>
      simp only [here] at failed
      exact form (stalls_grouping all.whole closed here) failed
  | ifKeyword =>
      simp only [here] at failed
      exact form (stalls_conditional all.whole (all.braced _) closed here) failed
  | fnKeyword =>
      simp only [here] at failed
      exact form (stalls_function named (all.braced _) closed here) failed
  | _ =>
      simp only [here] at failed
      exact stalls_noExpression ⟨.call, by decide, viable_operand⟩ failed

end Parts

theorem succ (all : StallsAt n) : StallsAt (n + 1) where
  statement := all.statement_succ
  returned := all.returned_succ
  block construct _ := all.block_succ construct
  statements read _ := all.statements_succ read
  expression loose _ := all.expression_succ loose
  continued := all.continued_succ
  arguments read _ := all.arguments_succ read
  operand := all.operand_succ

end StallsAt

theorem stallsAt (n : Nat) : StallsAt n := by
  induction n with
  | zero => exact .zero
  | succ n ih => exact ih.succ

end Rule

end TreeWalk
