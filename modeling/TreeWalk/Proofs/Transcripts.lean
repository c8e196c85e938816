import TreeWalk.Proofs.Concatenation
import TreeWalk.Proofs.Sessions

/-! # Sessions and files

A session that has answered some lines stands where a run of all these lines, as one text, stands
behind their statements. So the next line is answered as if the whole text had been run.
-/

namespace TreeWalk

open Lexer

namespace Session

/-- Does the line, read and evaluated as the next one, come to its end without a failure and without
    a `return` outside of functions? -/
def runsThrough (session : Session) (line : String) : Bool :=
  match parseAt line (min session.history.utf8ByteSize Span.maxOffset) with
  | .error _ => false
  | .ok p =>
      (Stmt.evalAll (applyWithin session.limit (callBudget session.limit)) session.scope .null
        p.statements session.machine).any fun result => !result.1.isSignal

def allRunThrough (session : Session) : List String → Bool
  | [] => true
  | line :: rest => session.runsThrough line && (session.evaluate line).1.allRunThrough rest

/-- The program in the history has been evaluated without a signal, and has led to the session. -/
structure Stands (session : Session) (limit : Option Nat) (p : Program) : Prop where
  limited : session.limit = limit
  inScope : session.scope = Machine.fresh.1
  line : session.history.toList ≠ [] → session.history.toList.getLast? = some '\n'
  read : ∃ ts : List Token, lexemes 0 session.history.toList = ts.map Token.lexeme ∧
    (∀ t ∈ ts.getLast?, t.kind = .semicolon) ∧
    parseTokens (ts ++ [⟨.endOfInput, endMarker 0 session.history⟩]) = .ok p
  ran : ∃ v, v.isSignal = false ∧
    Stmt.evalAll (applyWithin limit (callBudget limit)) session.scope .null p.statements
      Machine.fresh.2 = some (v, session.machine)

theorem stands_start (limit : Option Nat) : (start limit).Stands limit ⟨[]⟩ where
  limited := rfl
  inScope := rfl
  line := by
    intro nonempty
    exact absurd rfl nonempty
  read := ⟨[], rfl, nofun, rfl⟩
  ran := ⟨.null, rfl, rfl⟩

theorem eval_program (call : Call) (scope : ScopeId) (ts : List Stmt) (m : Machine) :
    (Node.program ⟨ts⟩).eval call scope m = (Stmt.evalAll call scope .null ts m).map fun result =>
      (result.1.unwrapReturn, result.2) := by
  change (Stmt.evalAll call scope .null ts m).bind _ = _
  cases Stmt.evalAll call scope .null ts m with
  | none => rfl
  | some result => rfl

/-- Statements behind others that have run through lead where they lead as a program. -/
theorem evalAll_append_plain {m m' m'' : Machine} {limit : Option Nat} {scope : ScopeId}
    {ts us : List Stmt} {v w : Value}
    (ran : Stmt.evalAll (applyWithin limit (callBudget limit)) scope .null ts m = some (v, m'))
    (plain : v.isSignal = false)
    (ranOn : Stmt.evalAll (applyWithin limit (callBudget limit)) scope .null us m' = some (w, m''))
    (plainOn : w.isSignal = false) :
    ∃ x, x.isSignal = false ∧
      Stmt.evalAll (applyWithin limit (callBudget limit)) scope .null (ts ++ us) m =
        some (x, (m'.evaluate limit (.program ⟨us⟩) scope).2) := by
  have leads : (m'.evaluate limit (.program ⟨us⟩) scope).2 = m'' := by
    simp only [Machine.evaluate, Machine.finish, eval_program, ranOn, Option.map_some]
  rw [leads, Stmt.evalAll_append ran plain]
  cases us with
  | nil =>
      cases ranOn
      exact ⟨v, plain, rfl⟩
  | cons t us => exact ⟨w, plainOn, ranOn⟩

variable {session : Session} {limit : Option Nat} {p q : Program} {line : String}

/-- The history with one more line is read as one text. -/
theorem Stands.append (stands : session.Stands limit p)
    (fits : session.history.utf8ByteSize + line.utf8ByteSize ≤ Span.maxOffset)
    (parsed : parseAt line session.history.utf8ByteSize = .ok q) :
    ∃ us vs : List Token, (∀ t ∈ us.getLast?, t.kind = .semicolon) ∧
      lexemes session.history.utf8ByteSize line.toList = vs.map Token.lexeme ∧
      lexemes 0 (session.history ++ line).toList = (us ++ vs).map Token.lexeme ∧
      parseTokens (us ++ vs ++ [⟨.endOfInput, endMarker 0 (session.history ++ line)⟩]) =
        .ok ⟨p.statements ++ q.statements⟩ := by
  obtain ⟨us, cut, closing, read⟩ := stands.read
  obtain ⟨vs, cutLine, readLine⟩ := (parseAt_eq_ok_iff fits).mp parsed
  have whole : lexemes 0 (session.history ++ line).toList = (us ++ vs).map Token.lexeme := by
    rw [String.toList_append, lexemes_append stands.line, cut, Nat.zero_add, byteSize_toList,
      cutLine, List.map_append]
  refine ⟨us, vs, closing, cutLine, whole, ?_⟩
  exact parseTokens_append (noEnd_of_lexemes whole) closing read readLine

/-- A line that ends as it should moves the session to where the longer program leads. -/
theorem Stands.evaluate (stands : session.Stands limit p)
    (fits : session.history.utf8ByteSize + line.utf8ByteSize ≤ Span.maxOffset)
    (ended : line.toList.getLast? = some '\n') (closed : closedBySemicolon line = true)
    (through : session.runsThrough line = true) :
    ∃ q, (session.evaluate line).1.Stands limit q ∧
      (session.evaluate line).1.history = session.history ++ line := by
  unfold runsThrough at through
  split at through
  · cases through
  · rename_i q parsed
    rw [evaluate_read parsed]
    rw [Nat.min_eq_left (by omega)] at parsed
    obtain ⟨us, vs, closing, cutLine, whole, read⟩ := stands.append fits parsed
    obtain ⟨v, plain, ran⟩ := stands.ran
    refine ⟨⟨p.statements ++ q.statements⟩, ⟨stands.limited, stands.inScope, ?_, ?_, ?_⟩, rfl⟩
    · intro _
      rw [String.toList_append, List.getLast?_append, ended, Option.some_or]
    · refine ⟨us ++ vs, whole, ?_, read⟩
      intro t last
      rw [List.getLast?_append] at last
      cases final : vs.getLast? with
      | none =>
          rw [final, Option.none_or] at last
          exact closing t last
      | some s =>
          rw [final, Option.some_or] at last
          exact semicolon_of_closed closed cutLine t (final.trans last)
    · rw [← stands.limited] at ran ⊢
      obtain ⟨⟨w, m⟩, ranOn, plainOn⟩ := (Option.any_eq_true _ _).mp through
      exact evalAll_append_plain ran plain ranOn (by simpa using plainOn)

/-- The run of several lines: the program grows by the statements of each. -/
theorem Stands.after {lines : List String} (stands : session.Stands limit p)
    (fits : session.history.utf8ByteSize + (String.join lines).utf8ByteSize ≤ Span.maxOffset)
    (ended : ∀ line ∈ lines, line.toList.getLast? = some '\n')
    (words : ∀ line ∈ lines, Text.trimmed line.toList ≠ [] ∧
      Text.trimmed line.toList ≠ [':', 'q', 'u', 'i', 't'])
    (closed : ∀ line ∈ lines, closedBySemicolon line = true)
    (quiet : session.allRunThrough lines = true) :
    ∃ later q, session.after (lines.map some) = some later ∧ later.Stands limit q ∧
      later.history = session.history ++ String.join lines := by
  induction lines generalizing session p with
  | nil => exact ⟨session, p, rfl, stands, String.append_empty.symm⟩
  | cons line lines ih =>
      obtain ⟨through, quiet⟩ := Bool.and_eq_true_iff.mp quiet
      obtain ⟨endedLine, ended⟩ := List.forall_mem_cons.mp ended
      obtain ⟨⟨filled, noQuit⟩, words⟩ := List.forall_mem_cons.mp words
      obtain ⟨closedLine, closed⟩ := List.forall_mem_cons.mp closed
      rw [String.join_cons, String.utf8ByteSize_append] at fits
      obtain ⟨q, standsNext, grown⟩ := stands.evaluate (by omega) endedLine closedLine through
      have fitsNext : (session.evaluate line).1.history.utf8ByteSize +
          (String.join lines).utf8ByteSize ≤ Span.maxOffset := by
        rw [grown, String.utf8ByteSize_append]
        omega
      obtain ⟨later, r, entered, standsLater, history⟩ :=
        ih standsNext fitsNext ended words closed quiet
      refine ⟨later, r, ?_, standsLater, ?_⟩
      · rw [List.map_cons, Session.after, enter_of_words noQuit filled]
        exact entered
      · rw [history, grown, String.join_cons, String.append_assoc]

theorem reportValue_finish (name source : String) {m m' : Machine} {run run' : Run Value}
    (same : run m = run' m') :
    reportValue name source (m.finish limit run).1 =
      reportValue name source (m'.finish limit run').1 := by
  unfold Machine.finish
  rw [same]
  cases run' m' with
  | none => rfl
  | some result => rfl

/-- The session answers the next line as if the whole text had been run. -/
theorem Stands.answers (stands : session.Stands limit p)
    (fits : session.history.utf8ByteSize + line.utf8ByteSize ≤ Span.maxOffset)
    (parsed : parse line = .ok q) (nonempty : q.statements ≠ []) :
    (session.evaluate line).2 = (runSource historyName (session.history ++ line) limit).2 := by
  obtain ⟨r, parsedHere, same⟩ := exists_parseAt_of_parse _ parsed
  have nonemptyHere := Program.statements_ne_nil_of_bare same nonempty
  obtain ⟨us, vs, -, -, cut, read⟩ := stands.append fits parsedHere
  have whole : parse (session.history ++ line) = .ok ⟨p.statements ++ r.statements⟩ := by
    refine parse_eq_ok_iff.mpr ⟨?_, us ++ vs, cut, read⟩
    rw [String.utf8ByteSize_append]
    exact fits
  rw [← Nat.min_eq_left (show session.history.utf8ByteSize ≤ Span.maxOffset by omega)] at parsedHere
  rw [evaluate_read parsedHere]
  simp only [runSource, whole]
  obtain ⟨v, plain, ran⟩ := stands.ran
  rw [stands.limited]
  refine congrArg Prod.snd (reportValue_finish _ _ ?_)
  -- The last value before the line is lost, so that line and file end with the same one.
  rw [← stands.inScope, eval_program, eval_program, Stmt.evalAll_append ran plain,
    Stmt.evalAll_of_ne_nil nonemptyHere v]

theorem answer_after {lines : List (Option String)} {later : Session}
    (entered : session.after lines = some later) (written : Output) :
    ∃ wrote, ∀ more, session.answer written (lines ++ more) = later.answer wrote more := by
  induction lines generalizing session written with
  | nil =>
      cases entered
      exact ⟨written, fun _ => rfl⟩
  | cons first lines ih =>
      cases first with
      | none => cases entered
      | some line =>
          obtain ⟨⟨mid, output⟩, begun, entered⟩ := Option.bind_eq_some_iff.mp entered
          obtain ⟨wrote, same⟩ := ih entered (written ++ { stdout := prompt } ++ output)
          refine ⟨wrote, fun more => ?_⟩
          rw [List.cons_append, answer, begun]
          exact same more

end Session

/-- A session and a file agree. Take lines that are typed one after another, all but the last closed
    by a semicolon and running through. What the session writes for the last line, between its
    prompt and the next, is what a run of all the lines as one file writes. -/
theorem repl_agrees_runSource {limit : Option Nat} {lines : List String} {last : String}
    {input : ByteArray} (typed : Text.lines input = (lines ++ [last]).map some)
    (small : (String.join (lines ++ [last])).utf8ByteSize < UInt32.size)
    (ended : ∀ line ∈ lines, line.toList.getLast? = some '\n')
    (words : ∀ line ∈ lines ++ [last], Text.trimmed line.toList ≠ [] ∧
      Text.trimmed line.toList ≠ [':', 'q', 'u', 'i', 't'])
    (closed : ∀ line ∈ lines, closedBySemicolon line = true)
    (stated : ∃ p, parse last = .ok p ∧ p.statements ≠ [])
    (quiet : (Session.start limit).allRunThrough lines = true) :
    ∃ written : Output,
      replLines limit (lines.map some) =
        { output := written ++ { stdout := Session.prompt ++ "\n" } } ∧
      repl limit input =
        { output := written ++ { stdout := Session.prompt } ++
            (runSource Session.historyName (String.join (lines ++ [last])) limit).2 ++
            { stdout := Session.prompt ++ "\n" } } := by
  obtain ⟨wordsLines, wordsLast⟩ := List.forall_mem_append.mp words
  obtain ⟨filled, noQuit⟩ := wordsLast last (List.mem_singleton_self last)
  obtain ⟨p, parsed, nonempty⟩ := stated
  have limit32 : Span.maxOffset = UInt32.size - 1 := rfl
  have empty : (Session.start limit).history = "" := rfl
  have whole : String.join (lines ++ [last]) = String.join lines ++ last := by
    rw [String.join_append, String.join_cons, String.join_nil, String.append_empty]
  rw [whole, String.utf8ByteSize_append] at small
  have fits : (Session.start limit).history.utf8ByteSize + (String.join lines).utf8ByteSize ≤
      Span.maxOffset := by
    rw [empty, String.utf8ByteSize_empty]
    omega
  obtain ⟨later, q, entered, stands, history⟩ :=
    (Session.stands_start limit).after fits ended wordsLines closed quiet
  rw [empty, String.empty_append] at history
  have answers := stands.answers (by rw [history]; omega) parsed nonempty
  rw [history] at answers
  obtain ⟨wrote, same⟩ := Session.answer_after entered { stdout := Session.banner }
  refine ⟨wrote, ?_, ?_⟩
  · have ends := same []
    rw [List.append_nil] at ends
    exact ends
  · rw [repl, typed, List.map_append, replLines, same, whole, ← answers]
    rw [List.map_singleton, Session.answer, Session.enter_of_words noQuit filled]
    rfl

/-- The failure of `f(f)` is reported at `-a` in the line before, as it is for the file. -/
theorem repl_agrees_runSource_earlier :
    ∃ written : Output,
      replLines (some 1) [some "let f=fn(a){-a};\n"] =
        { output := written ++ { stdout := Session.prompt ++ "\n" } } ∧
      repl (some 1) "let f=fn(a){-a};\nf(f)".toUTF8 =
        { output := written ++ { stdout := Session.prompt } ++
            { reports := [.ofFailure Session.historyName "let f=fn(a){-a};\nf(f)"
              { cause := .unknownUnary .neg .function, span := some ⟨12, 14⟩ }] } ++
            { stdout := Session.prompt ++ "\n" } } := by
  have typed : Text.lines "let f=fn(a){-a};\nf(f)".toUTF8 =
      (["let f=fn(a){-a};\n"] ++ ["f(f)"]).map some := by decide +kernel
  have last : parse "f(f)" =
      .ok ⟨[.expr ⟨0, 4⟩ (.call ⟨0, 4⟩ (.ident ⟨0, 1⟩ "f") [.ident ⟨2, 3⟩ "f"])]⟩ := by
    have lexed : lex "f(f)" = .ok [⟨.ident "f", ⟨0, 1⟩⟩, ⟨.leftParen, ⟨1, 2⟩⟩, ⟨.ident "f", ⟨2, 3⟩⟩,
        ⟨.rightParen, ⟨3, 4⟩⟩, ⟨.endOfInput, ⟨4, 4⟩⟩] := by decide +kernel
    rw [parse, lexed]
    rfl
  have reported : (runSource Session.historyName
      (String.join (["let f=fn(a){-a};\n"] ++ ["f(f)"])) (some 1)).2 =
      { reports := [.ofFailure Session.historyName "let f=fn(a){-a};\nf(f)"
        { cause := .unknownUnary .neg .function, span := some ⟨12, 14⟩ }] } := by decide +kernel
  have agree := @repl_agrees_runSource (some 1) _ _ _ typed (by decide +kernel)
    (by decide +kernel) (by decide +kernel) (by decide +kernel)
    ⟨_, last, List.cons_ne_nil _ _⟩ (by decide +kernel)
  rwa [List.map_singleton, reported] at agree

end TreeWalk
