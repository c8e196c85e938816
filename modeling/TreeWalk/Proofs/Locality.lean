import TreeWalk.Proofs.Layout

/-! # The parser is local

All rules repeat what they have read, and lay it out over the tokens they consumed. The rules call
each other, so this is one induction on the allowance over all of them.
-/

namespace TreeWalk

open Node (Laid laid_of_children)

namespace Rule

structure RepeatsAt (allowance : Nat) : Prop where
  statement : ∀ known c, Repeats known Ended allowance Rule.statement c fun u t _ =>
    u ≠ [] ∧ Laid u (.statement t)
  returned : ∀ known c, Repeats known Looks allowance Rule.returned c fun u value c' =>
    (u = [] ∧ value = none) ∨ ∃ e, value = some e ∧ Shaped u e c'
  block : ∀ known construct c,
    Repeats known Looks allowance (Rule.block · construct) c fun u b _ => Bracketed u b
  statements : ∀ known read c,
    Repeats known Looks allowance (Rule.statements · read) c fun u ts _ =>
      ∃ more, ts = read.reverse ++ more ∧ ∀ t ∈ more, Laid u (.statement t)
  expression : ∀ known least c, Repeats known Looks allowance (Rule.expression · least) c Shaped
  continued : ∀ known least left c,
    Repeats known Looks allowance (Rule.continued · least left) c fun u e c' =>
      ∀ w, Shaped w left c → Shaped (w ++ u) e c'
  arguments : ∀ known read c,
    Repeats known Looks allowance (Rule.arguments · read) c fun u args _ =>
      (u ≠ [] ∧ Ended u) ∧ ∃ more, args = read.reverse ++ more ∧ ∀ e ∈ more, Laid u (.expression e)
  operand : ∀ known c, Repeats known Looks allowance Rule.operand c fun u e _ => Formed u e

namespace RepeatsAt

variable {allowance : Nat}

theorem zero : RepeatsAt 0 where
  statement _ _ := repeats_nothing rfl
  returned _ _ := repeats_nothing rfl
  block _ _ _ := repeats_nothing rfl
  statements _ _ _ := repeats_nothing rfl
  expression _ _ _ := repeats_nothing rfl
  continued _ _ _ _ := repeats_nothing rfl
  arguments _ _ _ := repeats_nothing rfl
  operand _ _ := repeats_nothing rfl

theorem statement_succ (all : RepeatsAt allowance) (known : Prop) (c : Cursor) :
    Repeats known Ended (allowance + 1) Rule.statement c fun u t _ =>
      u ≠ [] ∧ Laid u (.statement t) := by
  have stated : Repeats False Ended (allowance + 1) Rule.statement c fun u t _ => Stated u t := by
    refine Repeats.step ?_ fun n => by rw [Rule.statement]
    refine repeats_current (fun _ _ _ stated => stated.nonempty) ?_
    cases here : c.current.kind with
    | letKeyword => exact repeats_binding here fun known mid => all.expression known .lowest mid
    | returnKeyword => exact repeats_returning here all.returned
    | _ => exact repeats_standing (all.expression _ .lowest c)
  refine (stated.imp ?_).fresh
  intro u t c' _ replays stated
  refine ⟨stated.nonempty, laid_of_children ?_ stated.below⟩
  rintro _ ⟨⟩
  refine ⟨stated.nonempty, stated.spanned, allowance + 1, ?_⟩
  intro n d d' enough passes ended
  exact replays enough False.elim passes fun _ => .inr ended

theorem returned_succ (all : RepeatsAt allowance) (known : Prop) (c : Cursor) :
    Repeats known Looks (allowance + 1) Rule.returned c fun u value c' =>
      (u = [] ∧ value = none) ∨ ∃ e, value = some e ∧ Shaped u e c' := by
  refine Repeats.step ?_ fun n => by rw [Rule.returned]
  cases here : c.current.kind with
  | semicolon | rightBrace | endOfInput =>
      refine repeats_stay (.inl ⟨rfl, rfl⟩) ?_
      intro n d meets
      rcases meets with same | ended
      · rw [bind_of_ok current_ok, same, here]
        rfl
      · rw [bind_of_ok current_ok, ended]
        rfl
  | _ =>
      refine repeats_consuming ?_
      rw [here]
      refine (repeats_within _ (all.expression _ .lowest c)).bind ?_
      intro u e c' _ shaped
      refine ⟨trivial, repeats_pure ?_⟩
      rw [List.append_nil]
      exact ⟨shaped.nonempty, .inr ⟨e, rfl, shaped⟩⟩

theorem block_succ (all : RepeatsAt allowance) (known : Prop) (construct : Construct) (c : Cursor) :
    Repeats known Looks (allowance + 1) (Rule.block · construct) c fun u b _ => Bracketed u b := by
  refine Repeats.step ?_ fun n => by rw [Rule.block]
  refine (repeats_expect _ rfl).bind ?_
  rintro _ _ mid _ ⟨rfl, _⟩
  refine ⟨trivial, (all.statements _ [] mid).bind ?_⟩
  rintro v ts close _ ⟨more, rfl : ts = more, laid⟩
  refine ⟨trivial, (repeats_expect _ rfl).bind ?_⟩
  rintro _ _ c' _ ⟨rfl, here, _⟩
  refine ⟨trivial, repeats_pure ?_⟩
  rw [List.append_nil]
  refine ⟨by simp, ended_append (by simp) (ended_append (by simp) (ended_one (by simp [here]))), ?_⟩
  refine laid_of_children nofun ?_
  intro child member
  obtain ⟨t, held, rfl⟩ := List.mem_map.mp member
  exact (laid t held).widen ⟨[c.current], [close.current], by simp⟩

theorem statements_succ (all : RepeatsAt allowance) (known : Prop) (read : List Stmt) (c : Cursor) :
    Repeats known Looks (allowance + 1) (Rule.statements · read) c fun u ts _ =>
      ∃ more, ts = read.reverse ++ more ∧ ∀ t ∈ more, Laid u (.statement t) := by
  refine Repeats.step ?_ fun n => by rw [Rule.statements]
  cases here : c.current.kind with
  | rightBrace | endOfInput =>
      refine repeats_stay (a := read.reverse) ⟨[], by simp, nofun⟩ ?_
      intro n d meets
      rcases meets with same | ended
      · rw [bind_of_ok current_ok, same, here]
        rfl
      · rw [bind_of_ok current_ok, ended]
        rfl
  | _ =>
      refine repeats_consuming ?_
      rw [here]
      refine (all.statement _ c).looking.bind ?_
      rintro u t mid _ ⟨nonempty, first⟩
      refine ⟨trivial, (all.statements _ (t :: read) mid).imp ?_⟩
      rintro v _ c' _ _ ⟨more, rfl, laid⟩
      refine ⟨by simp [nonempty], t :: more, by simp, ?_⟩
      refine List.forall_mem_cons.mpr ⟨first.widen (List.prefix_append _ _).isInfix, ?_⟩
      exact fun s member => (laid s member).widen (List.suffix_append _ _).isInfix

theorem expression_succ (all : RepeatsAt allowance) (known : Prop) (least : Precedence)
    (c : Cursor) : Repeats known Looks (allowance + 1) (Rule.expression · least) c Shaped := by
  -- The operand is climbed by the operand rule alone.
  have first : Repeats False Looks allowance Rule.operand c Shaped := by
    refine (all.operand False c).imp ?_
    intro u e c' _ replays formed
    refine ⟨formed, fun spare => ⟨max allowance spare + 1, ?_⟩⟩
    intro n d d' enough _ again meets
    obtain ⟨n, rfl, left⟩ := exists_step enough
    refine ⟨n, by omega, ?_⟩
    rw [Rule.expression, bind_of_ok (replays (by omega) False.elim again fun _ => meets)]
  refine Repeats.step ?_ fun n => by rw [Rule.expression]
  refine first.fresh.bind ?_
  intro u e mid _ shaped
  exact ⟨trivial, (all.continued _ least e mid).imp fun _ _ _ _ _ goesOn => goesOn u shaped⟩

theorem binary_round {c mid c' : Cursor} {op : BinaryOp} {left right : Expr} {v w : List Token}
    (here : c.current.kind = op.token) (shapedLeft : Shaped w left c) (shaped : Shaped v right c')
    (replays : Replays False Looks allowance (Rule.expression · op.precedence) mid v right c') :
    Shaped (w ++ ([c.current] ++ v)) (.binary (left.span.merge right.span) op left right) c' := by
  have first : w <+: w ++ ([c.current] ++ v) := List.prefix_append _ _
  have last : v <:+ w ++ ([c.current] ++ v) :=
    (List.suffix_append _ _).trans (List.suffix_append _ _)
  refine ⟨⟨by simp, ?_, ?_, ?_⟩, ?_⟩
  · exact ended_append (by simp) (ended_append shaped.nonempty shaped.ended)
  · intro ordered
    rw [← merge_cover ordered first last shapedLeft.nonempty shaped.nonempty,
      ← shapedLeft.spanned (ordered.within first.isInfix),
      ← shaped.spanned (ordered.within last.isInfix)]
    rfl
  · simp only [Node.children, List.forall_mem_cons]
    exact ⟨shapedLeft.laid.widen first.isInfix, shaped.laid.widen last.isInfix,
      List.forall_mem_nil _⟩
  · refine shapedLeft.climbs.round allowance here (by cases op <;> decide) ?_
    intro spared d d' rest enough shows again meets
    have readRight := replays enough False.elim again.advance fun _ => meets
    exact continued_binary shows op.precedence_level.1 readRight

theorem call_round {c mid c' : Cursor} {left : Expr} {args : List Expr} {v w : List Token}
    (here : c.current.kind = .leftParen) (passes : c.Passes ([c.current] ++ v) c')
    (shapedLeft : Shaped w left c) (nonempty : v ≠ []) (ended : Ended v)
    (laid : ∀ e ∈ args, Laid v (.expression e))
    (replays :
      Replays False Looks allowance (fun n => listed (Rule.arguments n [])) mid v args c') :
    Shaped (w ++ ([c.current] ++ v)) (.call (left.span.merge c'.previous) left args) c' := by
  have first : w <+: w ++ ([c.current] ++ v) := List.prefix_append _ _
  have last : v <:+ w ++ ([c.current] ++ v) :=
    (List.suffix_append _ _).trans (List.suffix_append _ _)
  refine ⟨⟨by simp, ?_, ?_, ?_⟩, ?_⟩
  · exact ended_append (by simp) (ended_append nonempty ended)
  · intro ordered
    obtain ⟨t, closing⟩ := Option.isSome_iff_exists.mp (List.getLast?_isSome.mpr nonempty)
    obtain ⟨before, split⟩ := List.getLast?_eq_some_iff.mp closing
    have ends : [t] <:+ v := ⟨before, split.symm⟩
    rw [passes.previous t (by rw [List.getLast?_append, closing]; rfl), ← cover_one t,
      ← merge_cover ordered first (ends.trans last) shapedLeft.nonempty (by simp),
      ← shapedLeft.spanned (ordered.within first.isInfix)]
    rfl
  · simp only [Node.children, List.forall_mem_cons]
    refine ⟨shapedLeft.laid.widen first.isInfix, ?_⟩
    intro child member
    obtain ⟨e, held, rfl⟩ := List.mem_map.mp member
    exact (laid e held).widen last.isInfix
  · refine shapedLeft.climbs.round allowance here (by decide) ?_
    intro spared d d' rest enough shows again meets
    have readArgs := replays enough False.elim again.advance fun _ => meets
    rw [continued_call shows (by decide) readArgs, passes.previous_eq again (by simp)]

theorem continued_succ (all : RepeatsAt allowance) (known : Prop) (least : Precedence) (left : Expr)
    (c : Cursor) : Repeats known Looks (allowance + 1) (Rule.continued · least left) c fun u e c' =>
      ∀ w, Shaped w left c → Shaped (w ++ u) e c' := by
  refine Repeats.step ?_ fun n => by rw [Rule.continued]
  by_cases binds : least < c.current.kind.precedence
  · have notEnd := TokenKind.ne_end_of_binds binds
    refine repeats_consuming ?_
    simp only [binds, if_true]
    cases operator : c.current.kind.binaryOp? with
    | none =>
        have here := TokenKind.eq_leftParen (Precedence.lowest_lt binds) operator
        refine (repeats_advance notEnd).bind ?_
        rintro _ _ mid begun ⟨rfl, _⟩
        have list : Repeats False Looks allowance (fun n => listed (Rule.arguments n [])) mid
            fun v args c' => ((v ≠ [] ∧ Ended v) ∧ ∀ e ∈ args, Laid v (.expression e)) ∧
              Replays False Looks allowance (fun n => listed (Rule.arguments n [])) mid v args
                c' := by
          refine Repeats.imp (repeats_listed ?_ fun known => (all.arguments known [] mid).imp ?_)
            fun _ _ _ _ replays held => ⟨held, replays⟩
          · intro t closing
            exact ⟨⟨by simp, ended_one (by simp [closing])⟩, List.forall_mem_nil _⟩
          · rintro v _ _ _ _ ⟨some, more, rfl, laid⟩
            exact ⟨some, laid⟩
        refine ⟨trivial, list.fresh.bind ?_⟩
        rintro v args afterArgs passes ⟨⟨⟨nonempty, ended⟩, laid⟩, replays⟩
        refine ⟨trivial, (repeats_previous (by simp)).looking.bind ?_⟩
        rintro _ _ _ _ ⟨rfl, rfl, rfl⟩
        refine ⟨trivial, (all.continued _ least _ _).imp ?_⟩
        intro x e c' _ _ goesOn
        refine ⟨by simp, fun w shapedLeft => ?_⟩
        have round := call_round here (begun.append passes) shapedLeft nonempty ended laid replays
        simpa using goesOn _ round
    | some op =>
        have here := BinaryOp.eq_token operator
        refine (repeats_advance notEnd).bind ?_
        rintro _ _ mid _ ⟨rfl, _⟩
        have second : Repeats False Looks allowance (Rule.expression · op.precedence) mid
            fun v right c' => Shaped v right c' ∧
              Replays False Looks allowance (Rule.expression · op.precedence) mid v right c' :=
          (all.expression False op.precedence mid).imp
            fun _ _ _ _ replays shaped => ⟨shaped, replays⟩
        refine ⟨trivial, second.fresh.bind ?_⟩
        rintro v right afterRight _ ⟨shaped, replays⟩
        refine ⟨trivial, (all.continued _ least _ afterRight).imp ?_⟩
        intro x e c' _ _ goesOn
        refine ⟨by simp, fun w shapedLeft => ?_⟩
        simpa using goesOn _ (binary_round here shapedLeft shaped replays)
  · refine repeats_stay (a := left) (fun w shaped => ?_) ?_
    · rwa [List.append_nil]
    · intro n d meets
      rw [bind_of_ok current_ok, if_neg]
      · rfl
      · rcases meets with same | ended
        · rwa [same]
        · rw [ended]
          cases least <;> decide

theorem arguments_succ (all : RepeatsAt allowance) (known : Prop) (read : List Expr) (c : Cursor) :
    Repeats known Looks (allowance + 1) (Rule.arguments · read) c fun u args _ =>
      (u ≠ [] ∧ Ended u) ∧
        ∃ more, args = read.reverse ++ more ∧ ∀ e ∈ more, Laid u (.expression e) := by
  refine Repeats.step ?_ fun n => by rw [Rule.arguments]
  refine (repeats_within _ (all.expression _ .lowest c)).bind ?_
  intro u arg mid _ shaped
  refine ⟨trivial, (repeats_eat rfl).looking.bind ?_⟩
  rintro _ _ afterArg _ (⟨rfl, rfl, _⟩ | ⟨rfl, rfl, rfl⟩)
  · refine ⟨trivial, (all.arguments _ (arg :: read) afterArg).imp ?_⟩
    rintro v _ c' _ _ ⟨⟨nonempty, ended⟩, more, rfl, laid⟩
    refine ⟨⟨by simp, ?_⟩, arg :: more, by simp, ?_⟩
    · exact ended_append (by simp) (ended_append nonempty ended)
    · refine List.forall_mem_cons.mpr ⟨shaped.laid.widen (List.prefix_append _ _).isInfix, ?_⟩
      intro e member
      exact (laid e member).widen ((List.suffix_append _ _).trans (List.suffix_append _ _)).isInfix
  · refine ⟨trivial, (repeats_expect _ rfl).bind ?_⟩
    rintro _ _ c' _ ⟨rfl, closing, _⟩
    refine ⟨trivial, repeats_pure ⟨⟨by simp, ?_⟩, [arg], by simp, ?_⟩⟩
    · exact ended_append (by simp) (ended_one (by simp [closing]))
    · simp only [List.forall_mem_cons]
      exact ⟨shaped.laid.widen (List.prefix_append _ _).isInfix, nofun⟩

theorem operand_succ (all : RepeatsAt allowance) (known : Prop) (c : Cursor) :
    Repeats known Looks (allowance + 1) Rule.operand c fun u e _ => Formed u e := by
  refine Repeats.step ?_ fun n => rfl
  refine repeats_current (fun _ _ _ formed => formed.nonempty) ?_
  have expression (least : Precedence) (known : Prop) (mid : Cursor) :=
    all.expression known least mid
  cases here : c.current.kind with
  | ident name => exact repeats_literal (by rw [here]; rfl) (fun _ => rfl) fun _ => rfl
  | int value => exact repeats_literal (by rw [here]; rfl) (fun _ => rfl) fun _ => rfl
  | trueKeyword => exact repeats_literal (by rw [here]; rfl) (fun _ => rfl) fun _ => rfl
  | falseKeyword => exact repeats_literal (by rw [here]; rfl) (fun _ => rfl) fun _ => rfl
  | bang => exact repeats_unary .not (by simp [here]) (expression .unary)
  | minus => exact repeats_unary .neg (by simp [here]) (expression .unary)
  | leftParen => exact repeats_grouping (by simp [here]) (expression .lowest)
  | ifKeyword =>
      exact repeats_conditional (by simp [here]) (expression .lowest)
        fun known mid => all.block known _ mid
  | fnKeyword =>
      exact repeats_function (by simp [here]) (fun _ _ => repeats_params [])
        fun known mid => all.block known _ mid
  | _ => exact repeats_nothing rfl

theorem succ (all : RepeatsAt allowance) : RepeatsAt (allowance + 1) where
  statement := all.statement_succ
  returned := all.returned_succ
  block := all.block_succ
  statements := all.statements_succ
  expression := all.expression_succ
  continued := all.continued_succ
  arguments := all.arguments_succ
  operand := all.operand_succ

end RepeatsAt

/-- Whatever the allowance, the rules repeat what they read. -/
theorem repeatsAt (allowance : Nat) : RepeatsAt allowance := by
  induction allowance with
  | zero => exact .zero
  | succ allowance ih => exact ih.succ

end Rule

end TreeWalk
