import TreeWalk.Proofs.Forest
import TreeWalk.Proofs.Sessions

/-! # The number of running calls

A machine counts the calls that are running. The count goes up when a call starts and down when its
body has ended, however it ended, and nothing else touches it.

Logged evaluation does what evaluation does and lists every step on the way with the machine before
and behind it. The steps are linked: each starts on the machine that the one before it left behind,
so no machine that is ever passed is missing. What is balanced about the steps of the parts is
balanced about those of the whole, and a call puts one step up in front of its body and one step down
behind it.
-/

namespace TreeWalk

/-- What a step does to the running calls. -/
inductive Change where
  | stays
  | starts
  | ends
deriving DecidableEq

structure Passage where
  before : Machine
  change : Change
  after : Machine

/-- The steps of a computation and what it ends with, unless its budget is spent. -/
structure Log where
  passages : List Passage
  result : Option (Value × Machine)

abbrev Logged := Machine → Log

abbrev LoggedCall := Value → List Value → Span → Logged

namespace Logged

/-- A single step that starts no call. -/
def step (run : Run Value) : Logged := fun m =>
  { passages := (run m).toList.map fun result => ⟨m, .stays, result.2⟩
    result := run m }

/-- Go on with the value of a computation, unless it is a signal. -/
def andThen (first : Logged) (next : Value → Logged) : Logged := fun m =>
  match (first m).result with
  | none => first m
  | some (value, mid) =>
      if value.isSignal then first m
      else ⟨(first m).passages ++ (next value mid).passages, (next value mid).result⟩

def settle (logged : Logged) : Logged := fun m =>
  { logged m with
    result := (logged m).result.map fun result => (result.1.unwrapReturn, result.2) }

def called (body : Logged) (m entered : Machine) : Log :=
  { passages := ⟨m, .starts, entered⟩ :: (body entered).passages ++
      (body entered).result.toList.map fun result => ⟨result.2, .ends, result.2.leave⟩
    result := (body entered).result.map leaveCall }

/-- The computation without its log. -/
def erase (logged : Logged) : Run Value := fun m => (logged m).result

end Logged

def logSteps (call : LoggedCall) (scope : ScopeId) : Steps Logged :=
  let steps := runSteps (fun function args span => (call function args span).erase) scope
  { value := fun v => .step (steps.value v)
    andThen := Logged.andThen
    ident := fun name span => .step (steps.ident name span)
    unary := fun op v span => .step (steps.unary op v span)
    binary := fun op v w span => .step (steps.binary op v w span)
    closure := fun literal => .step (steps.closure literal)
    call := call
    bind := fun name v => .step (steps.bind name v)
    ret := fun v => .step (steps.ret v)
    settle := Logged.settle }

/-- Apply a function and log. A call that is refused is a single step. -/
def logWithin (limit : Option Nat) : (budget : Nat) → LoggedCall
  | budget + 1, .closure cell literal captured, args, span => fun m =>
      if literal.params.length = args.length ∧ ∀ most ∈ limit, m.depth < most then
        Logged.called (literal.body.walk (logSteps (logWithin limit budget) m.scopes.size)) m
          (m.enter captured (literal.params.zip args))
      else Logged.step (applyWithin limit (budget + 1) (.closure cell literal captured) args span) m
  | budget, callee, args, span => .step (applyWithin limit budget callee args span)

def Operation.log (op : Operation) : Logged :=
  match op with
  | .evaluate limit node scope => node.walk (logSteps (logWithin limit (callBudget limit)) scope)
  | .apply limit function args span => logWithin limit (callBudget limit) function args span

section Equations

variable {limit : Option Nat} {budget : Nat} {cell : CellId} {literal : FunctionLiteral}
  {captured : ScopeId} {args : List Value} {span : Span} {m mid : Machine}

theorem logWithin_enter (count : literal.params.length = args.length)
    (below : ∀ most ∈ limit, m.depth < most) :
    logWithin limit (budget + 1) (.closure cell literal captured) args span m =
      Logged.called (literal.body.walk (logSteps (logWithin limit budget) m.scopes.size)) m
        (m.enter captured (literal.params.zip args)) :=
  if_pos ⟨count, below⟩

theorem logWithin_zero (callee : Value) :
    logWithin limit 0 callee args span = .step (applyWithin limit 0 callee args span) := by
  cases callee <;> rfl

theorem logWithin_refused {callee : Value} (refused : ¬ Enters limit m args callee) :
    logWithin limit budget callee args span m =
      Logged.step (applyWithin limit budget callee args span) m := by
  cases budget with
  | zero => rw [logWithin_zero]
  | succ budget =>
      cases callee with
      | closure cell literal captured =>
          refine if_neg ?_
          rintro ⟨count, below⟩
          exact refused ⟨cell, literal, captured, rfl, count, below⟩
      | _ => rfl

variable {first : Logged} {next : Value → Logged} {v : Value}

theorem Logged.andThen_none (spent : (first m).result = none) : first.andThen next m = first m := by
  simp only [Logged.andThen, spent]

theorem Logged.andThen_signal (ran : (first m).result = some (v, mid))
    (signal : v.isSignal = true) : first.andThen next m = first m := by
  simp only [Logged.andThen, ran, signal, if_true]

theorem Logged.andThen_plain (ran : (first m).result = some (v, mid))
    (plain : v.isSignal = false) :
    first.andThen next m =
      ⟨(first m).passages ++ (next v mid).passages, (next v mid).result⟩ := by
  simp only [Logged.andThen, ran, plain, Bool.false_eq_true, if_false]

end Equations

theorem Logged.erase_andThen {first : Logged} {run : Run Value} {f : Value → Logged}
    {g : Value → Run Value} (same : first.erase = run)
    (next : ∀ v, v.isSignal = false → (f v).erase = g v) :
    (first.andThen f).erase = Run.plainly run g := by
  subst same
  funext m
  cases ran : (first m).result with
  | none => rw [Run.plainly_none ran, Logged.erase, Logged.andThen_none ran, ran]
  | some result =>
      obtain ⟨v, mid⟩ := result
      cases kind : v.isSignal with
      | true => rw [Run.plainly_signal ran kind, Logged.erase, Logged.andThen_signal ran kind, ran]
      | false =>
          rw [Run.plainly_plain ran kind, Logged.erase, Logged.andThen_plain ran kind,
            ← next v kind]
          rfl

theorem logs_steps (call : LoggedCall) (scope : ScopeId) :
    Steps.Related (fun logged run => logged.erase = run) (logSteps call scope)
      (runSteps (fun function args span => (call function args span).erase) scope) where
  value _ := rfl
  andThen := Logged.erase_andThen
  ident _ _ := rfl
  unary _ _ _ _ := rfl
  binary _ _ _ _ _ _ := rfl
  closure _ := rfl
  call _ _ _ _ _ := rfl
  bind _ _ _ := rfl
  ret _ := rfl
  settle same := by
    subst same
    funext m
    rw [runSteps_settle]
    rfl

theorem erase_logWithin (limit : Option Nat) (budget : Nat) :
    (fun function args span => (logWithin limit budget function args span).erase) =
      applyWithin limit budget := by
  suffices same : (fun budget function args span =>
      (logWithin limit budget function args span).erase) = applyWithin limit from
    congrFun same budget
  refine eq_applyWithin ?refused ?spent ?entered
  case refused =>
    intro budget function args span m refused
    rw [Logged.erase, logWithin_refused refused]
    rfl
  case spent =>
    intro function args span
    rw [logWithin_zero]
    rfl
  case entered =>
    intro budget cell literal captured args span m count below
    rw [← literal.body.walk_related (logs_steps (logWithin limit budget) m.scopes.size),
      Logged.erase, logWithin_enter count below]
    rfl

theorem Operation.erase_log (op : Operation) : op.log.erase = op.run (callBudget op.limit) := by
  cases op with
  | evaluate limit node scope =>
      have erased := node.walk_related (logs_steps (logWithin limit (callBudget limit)) scope)
      rw [erase_logWithin, ← Node.eval_eq_walk] at erased
      exact erased
  | apply limit function args span =>
      exact congrFun (congrFun (congrFun (erase_logWithin limit _) function) args) span

/-- The steps lead from one machine to another without a gap. -/
def Leads (m : Machine) : List Passage → Machine → Prop
  | [], last => m = last
  | passage :: rest, last => passage.before = m ∧ Leads passage.after rest last

/-- The number of running calls before and behind a step that counts exactly. -/
def Change.Counts : (change : Change) → (before after : Nat) → Prop
  | .stays, before, after => after = before
  | .starts, before, after => after = before + 1
  | .ends, before, after => after + 1 = before

/-- The step keeps within the limit and counts exactly. -/
structure Passage.Counted (limit : Option Nat) (passage : Passage) : Prop where
  before : ∀ most ∈ limit, passage.before.depth ≤ most
  after : ∀ most ∈ limit, passage.after.depth ≤ most
  exact : passage.change.Counts passage.before.depth passage.after.depth

/-- The log of a computation on a machine: all steps count, they lead to the machine at the end, and
    as many calls are running there as before. There is an end if the budget covers what the limit
    leaves. -/
structure Log.Balanced (limit : Option Nat) (budget : Nat) (m : Machine) (log : Log) : Prop where
  counted : ∀ passage ∈ log.passages, passage.Counted limit
  leads : ∀ v m', log.result = some (v, m') → Leads m log.passages m'
  depth : ∀ v m', log.result = some (v, m') → m'.depth = m.depth
  finishes : ∀ most ∈ limit, most ≤ m.depth + budget → ∃ v m', log.result = some (v, m')

/-- The computation is balanced on every machine within the limit. -/
def Balances (limit : Option Nat) (budget : Nat) (logged : Logged) : Prop :=
  ∀ m : Machine, (∀ most ∈ limit, m.depth ≤ most) → (logged m).Balanced limit budget m

theorem Leads.append {m mid last : Machine} {passages more : List Passage}
    (first : Leads m passages mid) (second : Leads mid more last) :
    Leads m (passages ++ more) last := by
  induction passages generalizing m with
  | nil =>
      cases first
      exact second
  | cons passage rest ih => exact ⟨first.1, ih first.2⟩

section Balanced

variable {limit : Option Nat} {budget : Nat}

theorem Log.Balanced.still {run : Run Value} {m m' : Machine} {v : Value}
    (within : ∀ most ∈ limit, m.depth ≤ most) (ran : run m = some (v, m'))
    (same : m'.depth = m.depth) : (Logged.step run m).Balanced limit budget m := by
  have step : Logged.step run m = ⟨[⟨m, .stays, m'⟩], some (v, m')⟩ := by
    simp only [Logged.step, ran, Option.toList_some, List.map_cons, List.map_nil]
  rw [step]
  constructor
  case counted =>
    rintro passage member
    cases List.mem_singleton.mp member
    exact ⟨within, by rwa [same], same⟩
  case leads =>
    rintro _ _ ⟨⟩
    exact ⟨rfl, rfl⟩
  case depth =>
    rintro _ _ ⟨⟩
    exact same
  case finishes => exact fun _ _ _ => ⟨v, m', rfl⟩

theorem balances_step {run : Run Value} (still : Still run) :
    Balances limit budget (.step run) := by
  intro m within
  obtain ⟨v, m', ran, same⟩ := still m
  exact .still within ran same

theorem balances_andThen {first : Logged} {next : Value → Logged}
    (begins : Balances limit budget first) (later : ∀ v, Balances limit budget (next v)) :
    Balances limit budget (first.andThen next) := by
  intro m within
  have balanced := begins m within
  cases ran : (first m).result with
  | none =>
      rw [Logged.andThen_none ran]
      exact balanced
  | some result =>
      obtain ⟨v, mid⟩ := result
      cases kind : v.isSignal with
      | true =>
          rw [Logged.andThen_signal ran kind]
          exact balanced
      | false =>
          have same := balanced.depth v mid ran
          have rest := later v mid (by rwa [same])
          rw [Logged.andThen_plain ran kind]
          constructor
          case counted => exact List.forall_mem_append.mpr ⟨balanced.counted, rest.counted⟩
          case leads =>
            intro w m' ended
            exact (balanced.leads v mid ran).append (rest.leads w m' ended)
          case depth =>
            intro w m' ended
            exact (rest.depth w m' ended).trans same
          case finishes =>
            intro most chosen enough
            exact rest.finishes most chosen (by rwa [same])

theorem balances_settle {logged : Logged} (body : Balances limit budget logged) :
    Balances limit budget logged.settle := by
  intro m within
  have balanced := body m within
  constructor
  case counted => exact balanced.counted
  case leads =>
    intro v m' ended
    obtain ⟨result, ran, same⟩ := Option.map_eq_some_iff.mp ended
    cases same
    exact balanced.leads result.1 result.2 ran
  case depth =>
    intro v m' ended
    obtain ⟨result, ran, same⟩ := Option.map_eq_some_iff.mp ended
    cases same
    exact balanced.depth result.1 result.2 ran
  case finishes =>
    intro most chosen enough
    obtain ⟨v, m', ran⟩ := balanced.finishes most chosen enough
    exact ⟨v.unwrapReturn, m', by rw [Logged.settle, ran]; rfl⟩

theorem keeps_balances {call : LoggedCall} (scope : ScopeId)
    (calls : ∀ function args span, Balances limit budget (call function args span)) :
    (logSteps call scope).Keeps (Balances limit budget) (fun _ => True) (fun _ => True) where
  scalar _ _ := trivial
  value _ := balances_step (still_value _)
  andThen begins later := balances_andThen begins fun v => later v trivial
  ident _ := balances_step (still_ident _ scope _ _)
  unary _ _ := balances_step (still_operator _ _)
  binary _ _ _ := balances_step (still_operator _ _)
  closure _ := balances_step (still_closure _ scope)
  call _ _ _ := calls _ _ _
  bind _ _ := balances_step (still_bind _ scope _ _)
  ret _ := balances_step (still_ret _)
  settle body := balances_settle body

/-- The step into a call and the step out of it make up for each other. -/
theorem Log.Balanced.called {body : Logged} {m entered : Machine}
    (balances : Balances limit budget body) (below : ∀ most ∈ limit, m.depth < most)
    (deeper : entered.depth = m.depth + 1) :
    (Logged.called body m entered).Balanced limit (budget + 1) m := by
  have within : ∀ most ∈ limit, entered.depth ≤ most := by
    intro most chosen
    rw [deeper]
    exact below most chosen
  have inner := balances entered within
  constructor
  case counted =>
    refine List.forall_mem_append.mpr ⟨List.forall_mem_cons.mpr ⟨?_, inner.counted⟩, ?_⟩
    · exact ⟨fun most chosen => Nat.le_of_lt (below most chosen), within, deeper⟩
    · intro passage member
      obtain ⟨⟨v, m'⟩, ended, rfl⟩ := List.mem_map.mp member
      have same := inner.depth v m' (Option.mem_toList.mp ended)
      have outer : m'.leave.depth = m.depth := by
        rw [Machine.leave, same, deeper, Nat.add_sub_cancel]
      constructor
      case before => rwa [same]
      case after =>
        rw [outer]
        exact fun most chosen => Nat.le_of_lt (below most chosen)
      case exact =>
        change m'.leave.depth + 1 = m'.depth
        rw [outer, same, deeper]
  case leads =>
    intro v m' ended
    obtain ⟨⟨w, last⟩, ran, same⟩ := Option.map_eq_some_iff.mp ended
    cases same
    have path : Leads entered (body entered).passages last := inner.leads w last ran
    refine ⟨rfl, path.append ?_⟩
    rw [ran]
    exact ⟨rfl, rfl⟩
  case depth =>
    intro v m' ended
    obtain ⟨⟨w, last⟩, ran, same⟩ := Option.map_eq_some_iff.mp ended
    cases same
    change last.depth - 1 = m.depth
    rw [inner.depth w last ran, deeper, Nat.add_sub_cancel]
  case finishes =>
    intro most chosen enough
    obtain ⟨v, m', ran⟩ := inner.finishes most chosen (by rw [deeper]; omega)
    exact ⟨v.unwrapReturn, m'.leave, by rw [Logged.called, ran]; rfl⟩

theorem balances_call (limit : Option Nat) (budget : Nat) (function : Value) (args : List Value)
    (span : Span) : Balances limit budget (logWithin limit budget function args span) := by
  induction budget generalizing function args span with
  | zero =>
      intro m within
      rcases applyWithin_refuses_or_enters limit 0 function args span m with
        ⟨cause, _, refused⟩ | ⟨cell, literal, captured, rfl, count, below⟩
      · rw [logWithin_zero]
        exact .still within refused rfl
      · have spent : Logged.step (applyWithin limit 0 (.closure cell literal captured) args span) m =
            ⟨[], none⟩ := by
          rw [Logged.step, applyWithin_spent count below]
          rfl
        rw [logWithin_zero, spent]
        refine ⟨nofun, nofun, nofun, fun most chosen enough => ?_⟩
        exact absurd (below most chosen) (Nat.not_lt_of_le enough)
  | succ budget ih =>
      intro m within
      by_cases enters : Enters limit m args function
      · obtain ⟨cell, literal, captured, rfl, count, below⟩ := enters
        rw [logWithin_enter count below]
        have body : Balances limit budget
            (literal.body.walk (logSteps (logWithin limit budget) m.scopes.size)) :=
          literal.body.walk_keeps (keeps_balances m.scopes.size ih) fun _ _ => trivial
        exact .called body below (m.depth_enter captured _)
      · rw [logWithin_refused enters]
        rcases applyWithin_refuses_or_enters limit (budget + 1) function args span m with
          ⟨cause, _, refused⟩ | starts
        · exact .still within refused rfl
        · exact absurd starts enters

end Balanced

namespace Operation

variable {op : Operation} {m : Machine}

theorem balanced_log (op : Operation) (within : ∀ most ∈ op.limit, m.depth ≤ most) :
    (op.log m).Balanced op.limit (callBudget op.limit) m := by
  cases op with
  | evaluate limit node scope =>
      have balances : Balances limit (callBudget limit)
          (node.walk (logSteps (logWithin limit (callBudget limit)) scope)) :=
        node.walk_keeps (keeps_balances scope (balances_call limit _)) fun _ _ => trivial
      exact balances m within
  | apply limit function args span => exact balances_call limit _ function args span m within

theorem perform_eq_finish_log (op : Operation) (m : Machine) :
    op.perform m = m.finish op.limit op.log.erase := by
  rw [erase_log]
  cases op <;> rfl

theorem perform_of_result {result : Value × Machine} (ended : (op.log m).result = some result) :
    op.perform m = result := by
  have ran : op.log.erase m = some result := ended
  rw [perform_eq_finish_log, Machine.finish, ran]

theorem depth_perform (op : Operation) (within : ∀ most ∈ op.limit, m.depth ≤ most) :
    (op.perform m).2.depth = m.depth := by
  cases ended : (op.log m).result with
  | some result =>
      rw [perform_of_result ended]
      exact (op.balanced_log within).depth result.1 result.2 ended
  | none =>
      have spent : op.log.erase m = none := ended
      rw [perform_eq_finish_log, Machine.finish, spent]
      rfl

end Operation

namespace Machine

variable {m : Machine}

theorem depth_answer (idle : m.depth = 0) (request : Request) :
    (request.answer m).2.depth = 0 := by
  cases request with
  | perform op =>
      have within : ∀ most ∈ op.limit, m.depth ≤ most := fun most _ => idle ▸ Nat.zero_le most
      exact (op.depth_perform within).trans idle
  | newScope | enclosed | copy | parent | bind => exact idle

theorem depth_serve (idle : m.depth = 0) (requests : List Request) :
    (m.serve requests).depth = 0 := by
  induction requests generalizing m with
  | nil => exact idle
  | cons request rest ih => exact ih (depth_answer idle request)

end Machine

theorem Session.depth_evaluate {session : Session} (idle : session.machine.depth = 0)
    (line : String) : (session.evaluate line).1.machine.depth = 0 := by
  cases parsed : parseAt line (min session.history.utf8ByteSize Span.maxOffset) with
  | error faults =>
      rw [Session.evaluate_unread parsed]
      exact idle
  | ok program =>
      rw [Session.evaluate_read parsed]
      exact Machine.depth_answer idle
        (.perform (.evaluate session.limit (.program program) session.scope))

theorem Session.depth_after {session session' : Session} {lines : List (Option String)}
    (idle : session.machine.depth = 0) (behind : session.after lines = some session') :
    session'.machine.depth = 0 := by
  induction lines generalizing session with
  | nil =>
      cases behind
      exact idle
  | cons line rest ih =>
      cases line with
      | none => cases behind
      | some line =>
          obtain ⟨answered, entered, later⟩ := Option.bind_eq_some_iff.mp behind
          rcases Session.enter_cases entered with rfl | rfl
          · exact ih idle later
          · exact ih (Session.depth_evaluate idle line) later

/-- The number of running calls is balanced and bounded on every path. Under a limit, on a machine
    within it, every evaluation and every application, with whatever value, pending `return` or
    failure it ends, leaves as many calls running as there were. Its steps lead to the end without a
    gap, at each of them the number is within the limit before and behind it, and it changes only
    where a call starts or ends: there by exactly one, so that a counter that can hold the limit and
    saturates otherwise never does.

    Hence no call is running when an evaluation starts, whatever has been asked of a new machine
    before and whatever lines have been entered in a session, with a limit or without one. -/
theorem call_depth_balanced :
    (∀ (limit : Nat) (m : Machine), m.depth ≤ limit → ∀ op : Operation, op.limit = some limit →
      (op.log m).result = some (op.perform m) ∧
      (op.perform m).2.depth = m.depth ∧
      Leads m (op.log m).passages (op.perform m).2 ∧
      ∀ passage ∈ (op.log m).passages, passage.Counted (some limit) ∧
        ∀ top, limit ≤ top → passage.change = .starts →
          passage.after.depth = min (passage.before.depth + 1) top) ∧
    (∀ requests, (Machine.serve {} requests).depth = 0) ∧
    ∀ limit lines session, (Session.start limit).after lines = some session →
      session.machine.depth = 0 := by
  refine ⟨?_, Machine.depth_serve rfl, fun _ _ _ => Session.depth_after rfl⟩
  intro limit m within op limited
  have inside : ∀ most ∈ op.limit, m.depth ≤ most := by
    rw [limited]
    rintro _ ⟨⟩
    exact within
  have balanced := op.balanced_log inside
  rw [limited] at balanced
  obtain ⟨v, m', ended⟩ := balanced.finishes limit rfl (Nat.le_add_left _ _)
  have performed := Operation.perform_of_result ended
  refine ⟨by rw [ended, performed], op.depth_perform inside, ?_, ?_⟩
  · rw [performed]
    exact balanced.leads v m' ended
  · intro passage member
    have counted := balanced.counted passage member
    refine ⟨counted, fun top room starts => ?_⟩
    have fits : passage.after.depth ≤ top := Nat.le_trans (counted.after limit rfl) room
    have up : passage.after.depth = passage.before.depth + 1 := by
      have exact := counted.exact
      rwa [starts] at exact
    rw [← up, Nat.min_eq_left fits]

/-- Behind `let f = fn(x) { f(x) };`, under a limit of two: `f(1)` starts two calls, fails where the
    third would start, and ends both. -/
theorem call_depth_balanced_exceeded :
    let body : Block := .mk .zero [.expr .zero (.call .zero (.ident .zero "f") [.ident .zero "x"])]
    let m := Machine.serve {} [.newScope none, .perform (.evaluate (some 2)
      (.statement (.bind .zero "f" (.fn .zero .zero ["x"] body))) 0)]
    let op : Operation := .evaluate (some 2)
      (.expression (.call .zero (.ident .zero "f") [.int .zero 1])) 0
    m.depth = 0 ∧ (op.perform m).2.depth = 0 ∧ (op.perform m).1.type = .error ∧
      (op.log m).passages.map (fun passage => (passage.before.depth, passage.after.depth)) =
        [(0, 0), (0, 0), (0, 1), (1, 1), (1, 1), (1, 2), (2, 2), (2, 2), (2, 2), (2, 1), (1, 0)] ∧
      ∀ passage ∈ (op.log m).passages, passage.Counted (some 2) := by
  intro body m op
  have within : m.depth ≤ 2 := by decide +kernel
  obtain ⟨ended, same, _, counted⟩ := call_depth_balanced.1 2 m within op rfl
  have idle : m.depth = 0 := call_depth_balanced.2.1 _
  refine ⟨idle, same.trans idle, by decide +kernel, by decide +kernel, ?_⟩
  exact fun passage member => (counted passage member).1

end TreeWalk
