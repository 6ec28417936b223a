import Mathlib.Data.List.Induction
import SeqCalc.Execution.Run
import SeqCalc.Proofs.Execution.Printing
import SeqCalc.Proofs.Value.Traversal

/-!
# A run stops between two statements

While a run goes on, others may set its cancellation flag at any moment.  However that falls out,
the run ends, and it ends between two statements: those before have bound their values and printed
their lines, and the one that stopped it has left no trace.

A run is followed through the moves of the run and of the others.  Its invariant splits the program
into the statements that are done, with their values, and the rest.

Main results:

- `Statement.exec_eq_ok_iff`, `Statement.exec_eq_error_iff`: what a statement does on a memory.
- `Run.Stands.advance`: one step of a run keeps the invariant.
- `Run.stands_after`: every run keeps it, whoever interferes.
- `Run.ends_between_statements`: where a run ends and what it leaves.
-/

namespace SeqCalc

/-! ## One statement -/

namespace Memory

variable {m : Memory} {v : Variable}

theorem get_eq_ok_iff {value : Value} : m.get v = .ok value ↔ m.find? v = some value := by
  unfold get
  cases m.find? v <;> simp

theorem get_eq_error_iff {e : Fault} :
    m.get v = .error e ↔ m.find? v = none ∧ e = .unbound v.name := by
  unfold get
  cases m.find? v with
  | none => simp [eq_comm]
  | some value => simp

end Memory

namespace Statement

/-- The inputs of the statement have these values. -/
def Reads (s : Statement) (m : Memory) (args : List Value) : Prop :=
  List.Forall₂ (fun v value => m.find? v = some value) s.inputs args

/-- The statement has a value and can bind it. -/
def Gives (s : Statement) (mode : Mode) (m : Memory) (value : Value) : Prop :=
  (∃ args, s.Reads m args ∧ (s.callable mode args).result = .ok value) ∧ m.find? s.output = none

/-- The first input, in the order of their declaration, that nothing is bound to. -/
def Misses (s : Statement) (m : Memory) (v : Variable) : Prop :=
  ∃ i : Nat, s.inputs[i]? = some v ∧ m.find? v = none ∧
    ∀ j < i, ∀ u, s.inputs[j]? = some u → (m.find? u).isSome

/-- The faults of a statement: its first missing input, its callable's, or a bound output. -/
inductive FailsWith (s : Statement) (mode : Mode) (m : Memory) : Fault → Prop
  | missing {v : Variable} : s.Misses m v → FailsWith s mode m (.unbound v.name)
  | refused {args : List Value} {e : Fault} : s.Reads m args →
      (s.callable mode args).result = .error e → FailsWith s mode m e
  | taken {args : List Value} {value : Value} : s.Reads m args →
      (s.callable mode args).result = .ok value → (m.find? s.output).isSome →
        FailsWith s mode m (.alreadyBound s.output.name)

variable {s : Statement} {mode : Mode} {m : Memory}

theorem arguments_eq_ok_iff {args : List Value} : s.arguments m = .ok args ↔ s.Reads m args := by
  simp only [arguments, mapM_eq_ok_iff, Memory.get_eq_ok_iff, Reads]

theorem arguments_eq_error_iff {e : Fault} :
    s.arguments m = .error e ↔ ∃ v, s.Misses m v ∧ e = .unbound v.name := by
  unfold arguments
  rw [mapM_eq_error_iff]
  constructor
  · rintro ⟨i, ⟨v, hv, hget⟩, hbefore⟩
    rcases Memory.get_eq_error_iff.1 hget with ⟨hnone, rfl⟩
    refine ⟨v, ⟨i, hv, hnone, ?_⟩, rfl⟩
    intro j hj u hu
    cases hfind : m.find? u with
    | none => exact absurd ⟨u, hu, Memory.get_eq_error_iff.2 ⟨hfind, rfl⟩⟩ (hbefore j hj _)
    | some value => rfl
  · rintro ⟨v, ⟨i, hv, hnone, hbefore⟩, rfl⟩
    refine ⟨i, ⟨v, hv, Memory.get_eq_error_iff.2 ⟨hnone, rfl⟩⟩, ?_⟩
    rintro j hj e ⟨u, hu, hget⟩
    have hsome := hbefore j hj u hu
    rw [(Memory.get_eq_error_iff.1 hget).1] at hsome
    contradiction

theorem exec_of_reads {args : List Value} (h : s.Reads m args) :
    (s.exec mode m).1 = (do
      let value ← (s.callable mode args).result
      let m' ← m.bind s.output value
      return (value, m')) := by
  rw [exec, arguments_eq_ok_iff.2 h]

/-- A statement has a value and binds it exactly if it can. -/
theorem exec_eq_ok_iff {value : Value} {m' : Memory} :
    (s.exec mode m).1 = .ok (value, m') ↔
      s.Gives mode m value ∧ m' = ⟨m.bindings ++ [(s.output, value)]⟩ := by
  constructor
  · intro h
    refine ⟨?_, memory_of_exec h⟩
    cases hargs : s.arguments m with
    | error e => simp [exec, hargs] at h
    | ok args =>
      have hreads := arguments_eq_ok_iff.1 hargs
      rw [exec_of_reads hreads] at h
      cases hresult : (s.callable mode args).result with
      | error e => simp [hresult] at h
      | ok result =>
        cases hfind : m.find? s.output with
        | some old => simp [hresult, Memory.bind, hfind] at h
        | none =>
          simp only [hresult, ok_bind, Memory.bind_of_find?_eq_none result hfind] at h
          cases h
          exact ⟨⟨args, hreads, hresult⟩, hfind⟩
  · rintro ⟨⟨⟨args, hreads, hresult⟩, hfind⟩, rfl⟩
    rw [exec_of_reads hreads, hresult, ok_bind, Memory.bind_of_find?_eq_none value hfind]
    rfl

/-- A statement fails exactly with one of its faults. -/
theorem exec_eq_error_iff {e : Fault} : (s.exec mode m).1 = .error e ↔ s.FailsWith mode m e := by
  constructor
  · intro h
    cases hargs : s.arguments m with
    | error e' =>
      rcases arguments_eq_error_iff.1 hargs with ⟨v, hmisses, rfl⟩
      simp only [exec, hargs, Except.error.injEq] at h
      subst h
      exact .missing hmisses
    | ok args =>
      have hreads := arguments_eq_ok_iff.1 hargs
      rw [exec_of_reads hreads] at h
      cases hresult : (s.callable mode args).result with
      | error e' =>
        rw [hresult, error_bind, Except.error.injEq] at h
        exact .refused hreads (h ▸ hresult)
      | ok value =>
        cases hbind : m.bind s.output value with
        | ok m' => simp [hresult, hbind, pure, Except.pure] at h
        | error e' =>
          rcases Memory.bind_eq_error_iff.1 hbind with ⟨hsome, rfl⟩
          rw [hresult, ok_bind, hbind, error_bind, Except.error.injEq] at h
          subst h
          exact .taken hreads hresult hsome
  · intro h
    cases h with
    | @missing v hmisses => simp only [exec, arguments_eq_error_iff.2 ⟨v, hmisses, rfl⟩]
    | refused hreads hresult => rw [exec_of_reads hreads, hresult, error_bind]
    | @taken args value hreads hresult hsome =>
      have hbind : m.bind s.output value = .error (.alreadyBound s.output.name) :=
        Memory.bind_eq_error_iff.2 ⟨hsome, rfl⟩
      rw [exec_of_reads hreads, hresult, ok_bind, hbind, error_bind]

end Statement

/-! ## Executed statements -/

/-- Statements that gave values in turn, each on the memory that those before it had left. -/
inductive Executes (mode : Mode) (m : Memory) : List (Statement × Value) → Memory → Prop
  | nil : Executes mode m [] m
  | snoc {done : List (Statement × Value)} {m' : Memory} {s : Statement} {value : Value} :
      Executes mode m done m' → s.Gives mode m' value →
        Executes mode m (done ++ [(s, value)]) ⟨m'.bindings ++ [(s.output, value)]⟩

namespace Executes

variable {mode : Mode} {m m' : Memory} {done : List (Statement × Value)}

/-- Exactly the outputs of the statements are added. -/
theorem bindings_eq (h : Executes mode m done m') :
    m'.bindings = m.bindings ++ done.map fun x => (x.1.output, x.2) := by
  induction h with
  | nil => simp
  | snoc _ _ ih => simp [ih]

theorem find?_snoc {s : Statement} {value : Value} (hgives : s.Gives mode m' value)
    (v : Variable) :
    (⟨m'.bindings ++ [(s.output, value)]⟩ : Memory).find? v =
      if s.output = v then some value else m'.find? v :=
  Memory.find?_bind (Memory.bind_of_find?_eq_none value hgives.2) v

/-- What was bound before stays as it was. -/
theorem find?_of_eq_some (h : Executes mode m done m') {v : Variable} {value : Value}
    (hv : m.find? v = some value) : m'.find? v = some value := by
  induction h with
  | nil => exact hv
  | @snoc done m' s new _ hgives ih =>
    have hne : s.output ≠ v := by
      rintro rfl
      rw [hgives.2] at ih
      contradiction
    rw [find?_snoc hgives, if_neg hne, ih]

/-- Each output was free, and holds the value of its statement. -/
theorem find?_output (h : Executes mode m done m') {x : Statement × Value} (hx : x ∈ done) :
    m.find? x.1.output = none ∧ m'.find? x.1.output = some x.2 := by
  induction h with
  | nil => contradiction
  | @snoc done m' s new hexecutes hgives ih =>
    rcases List.mem_append.1 hx with hx | hx
    · rcases ih hx with ⟨hfree, hbound⟩
      have hne : s.output ≠ x.1.output := by
        intro heq
        rw [← heq, hgives.2] at hbound
        contradiction
      exact ⟨hfree, by rw [find?_snoc hgives, if_neg hne, hbound]⟩
    · rw [List.mem_singleton.1 hx]
      refine ⟨?_, by rw [find?_snoc hgives, if_pos rfl]⟩
      cases hfree : m.find? s.output with
      | none => rfl
      | some old =>
        have hbound := hexecutes.find?_of_eq_some hfree
        rw [hgives.2] at hbound
        contradiction

end Executes

/-! ## Moves -/

namespace Run

/-- What can happen to a run: a step of its own, or the request of others to stop. -/
inductive Move where
  | advance
  | cancel
deriving DecidableEq, Repr

def move (r : Run) : Move → Run
  | .advance => r.advance
  | .cancel => r.cancel

/-- The run after some moves. -/
def after (r : Run) (moves : List Move) : Run :=
  moves.foldl move r

@[simp]
theorem after_nil (r : Run) : r.after [] = r :=
  rfl

@[simp]
theorem after_cons (r : Run) (move : Move) (moves : List Move) :
    r.after (move :: moves) = (r.move move).after moves :=
  rfl

theorem after_append (r : Run) (moves more : List Move) :
    r.after (moves ++ more) = (r.after moves).after more :=
  List.foldl_append

@[simp]
theorem mode_advance (r : Run) : r.advance.mode = r.mode := by
  rcases r with ⟨mode, state, phase⟩
  unfold advance
  split
  · rfl
  · split <;> rfl
  · split <;> rfl
  · rfl

@[simp]
theorem mode_after (r : Run) (moves : List Move) : (r.after moves).mode = r.mode := by
  induction moves generalizing r with
  | nil => rfl
  | cons move moves ih =>
    rw [after_cons, ih]
    cases move with
    | advance => exact r.mode_advance
    | cancel => rfl

theorem after_replicate (r : Run) (n : Nat) :
    r.after (List.replicate n .advance) = advanceBy n r := by
  induction n generalizing r with
  | zero => rfl
  | succ n ih =>
    rw [List.replicate_succ, after_cons, ih]
    rfl

/-- The run looked at the flag before the statements `rest`, and it was set. -/
def Saw (start : Run) (moves : List Move) (rest : CompiledProgram) : Prop :=
  ∃ before later, moves = before ++ .advance :: later ∧
    (start.after before).phase = .between rest ∧ (start.after before).state.cancelled = true

theorem Saw.append {start : Run} {moves : List Move} {rest : CompiledProgram}
    (h : start.Saw moves rest) (more : List Move) : start.Saw (moves ++ more) rest := by
  rcases h with ⟨before, later, rfl, hphase, hset⟩
  exact ⟨before, later ++ more, by simp, hphase, hset⟩

/-! ## Steps that are left -/

/-- The steps of its own that a run still has to take, at most. -/
def stepsLeft (r : Run) : Nat :=
  match r.phase with
  | .between rest => stepsFor rest
  | .inside _ rest => stepsFor rest + 1
  | .ended _ => 0

theorem stepsLeft_advance (r : Run) : r.advance.stepsLeft ≤ r.stepsLeft - 1 := by
  rcases r with ⟨mode, state, phase⟩
  cases phase with
  | between rest =>
    cases rest with
    | nil => simp [advance, stepsLeft]
    | cons s rest =>
      cases hset : state.cancelled with
      | true => simp [advance, stepsLeft, hset]
      | false =>
        simp [advance, stepsLeft, hset, stepsFor]
        omega
  | inside s rest =>
    rcases hstep : state.complete mode s with ⟨result, next⟩
    cases result with
    | error e => simp [advance, stepsLeft, hstep]
    | ok u => simp [advance, stepsLeft, hstep]
  | ended result => simp [advance, stepsLeft]

/-- A run has no steps left once it took as many as it had. -/
theorem stepsLeft_after (r : Run) (moves : List Move) :
    (r.after moves).stepsLeft ≤ r.stepsLeft - moves.count .advance := by
  induction moves generalizing r with
  | nil => simp
  | cons move moves ih =>
    rw [after_cons, List.count_cons]
    have hrest := ih (r.move move)
    cases move with
    | advance =>
      have hstep : (r.move .advance).stepsLeft ≤ r.stepsLeft - 1 := r.stepsLeft_advance
      simp only [beq_self_eq_true, if_true]
      omega
    | cancel =>
      have hstep : (r.move .cancel).stepsLeft = r.stepsLeft := rfl
      simp only [hstep] at hrest
      simpa using hrest

theorem exists_ended_of_stepsLeft_eq_zero {r : Run} (h : r.stepsLeft = 0) :
    ∃ result, r.phase = .ended result := by
  unfold stepsLeft at h
  split at h
  · simp [stepsFor] at h
  · simp [stepsFor] at h
  · exact ⟨_, by assumption⟩

/-! ## The invariant of a run -/

/-- The error of a run that statement `s` stopped, when the flag was seen set as `seen` tells. -/
def Stopped (seen : Prop) (mode : Mode) (m : Memory) (s : Statement) (e : ExecError) : Prop :=
  e.span = s.span ∧ (e.fault = .cancelled ∧ seen ∨ s.FailsWith mode m e.fault)

end Run

/-- How a phase fits the statements that are not done. -/
def Phase.Fits (seen : CompiledProgram → Prop) (mode : Mode) (m : Memory) (rest : CompiledProgram) :
    Phase → Prop
  | .between later => later = rest
  | .inside s later => s :: later = rest
  | .ended (.ok ()) => rest = []
  | .ended (.error e) => ∃ s later, rest = s :: later ∧ Run.Stopped (seen rest) mode m s e

namespace Run

/--
The run of a program has done some statements, with these values, and stands at the rest.  It began
on memory `m` with `lines` in its buffer.
-/
structure Stands (program : CompiledProgram) (m : Memory) (lines : List String)
    (seen : CompiledProgram → Prop) (done : List (Statement × Value)) (rest : CompiledProgram)
    (r : Run) : Prop where
  program_eq : program = done.map Prod.fst ++ rest
  executes : Executes r.mode m done r.state.memory
  sink_eq : r.state.sink = .buffer (lines ++ printedLines done)
  fits : r.phase.Fits seen r.mode r.state.memory rest

section Stands

variable {program : CompiledProgram} {m : Memory} {lines : List String}
  {seen seen' : CompiledProgram → Prop} {done : List (Statement × Value)} {rest : CompiledProgram}
  {r : Run}

theorem Stands.mono (h : Stands program m lines seen done rest r)
    (hseen : ∀ rest, seen rest → seen' rest) : Stands program m lines seen' done rest r where
  program_eq := h.program_eq
  executes := h.executes
  sink_eq := h.sink_eq
  fits := by
    have hfits := h.fits
    cases hphase : r.phase with
    | between later =>
      rw [hphase] at hfits
      exact hfits
    | inside s later =>
      rw [hphase] at hfits
      exact hfits
    | ended result =>
      rw [hphase] at hfits
      cases result with
      | ok u => exact hfits
      | error e =>
        rcases hfits with ⟨s, later, hrest, hspan, hcancelled | hfails⟩
        · exact ⟨s, later, hrest, hspan, .inl ⟨hcancelled.1, hseen rest hcancelled.2⟩⟩
        · exact ⟨s, later, hrest, hspan, .inr hfails⟩

/-- A request to stop changes nothing that the run has done. -/
theorem Stands.cancel (h : Stands program m lines seen done rest r) :
    Stands program m lines seen done rest r.cancel :=
  ⟨h.program_eq, h.executes, h.sink_eq, h.fits⟩

/-- A step looks at the flag, or does one statement whole, or ends the run. -/
theorem Stands.advance (h : Stands program m lines seen done rest r)
    (hseen : r.phase = .between rest → r.state.cancelled = true → seen rest) :
    ∃ done rest, Stands program m lines seen done rest r.advance := by
  rcases r with ⟨mode, state, phase⟩
  rcases h with ⟨hprogram, hexecutes, hsink, hfits⟩
  cases phase with
  | between later =>
    have hlater : later = rest := hfits
    subst hlater
    cases later with
    | nil => exact ⟨done, [], hprogram, hexecutes, hsink, rfl⟩
    | cons s later =>
      cases hset : state.cancelled with
      | true =>
        refine ⟨done, s :: later, ?_⟩
        simp only [Run.advance, hset, if_true]
        exact ⟨hprogram, hexecutes, hsink, s, later, rfl, rfl, .inl ⟨rfl, hseen rfl hset⟩⟩
      | false =>
        refine ⟨done, s :: later, ?_⟩
        simp only [Run.advance, hset, Bool.false_eq_true, if_false]
        exact ⟨hprogram, hexecutes, hsink, rfl⟩
  | inside s later =>
    have hrest : s :: later = rest := hfits
    subst hrest
    rcases hexec : s.exec mode state.memory with ⟨bound, cancels⟩
    cases bound with
    | error e =>
      refine ⟨done, s :: later, ?_⟩
      simp only [Run.advance, RunState.complete, hexec]
      have hfails : s.FailsWith mode state.memory e :=
        Statement.exec_eq_error_iff.1 (congrArg Prod.fst hexec)
      exact ⟨hprogram, hexecutes, hsink, s, later, rfl, rfl, .inr hfails⟩
    | ok bound =>
      rcases bound with ⟨value, next⟩
      rcases Statement.exec_eq_ok_iff.1 (congrArg Prod.fst hexec) with ⟨hgives, rfl⟩
      refine ⟨done ++ [(s, value)], later, ?_⟩
      simp only [Run.advance, RunState.complete, hexec]
      refine ⟨by simp [hprogram], hexecutes.snoc hgives, ?_, rfl⟩
      have hlines : printedLines (done ++ [(s, value)]) =
          printedLines done ++ printedLines [(s, value)] := by
        simp [printedLines]
      have hsink : state.sink = .buffer (lines ++ printedLines done) := hsink
      change (if s.prints then state.sink.printValue value else state.sink) = _
      rw [hlines, ← List.append_assoc, hsink]
      cases hprints : s.prints with
      | true => simp [Sink.printValue, Sink.print, printedLines, hprints]
      | false => simp [printedLines, hprints]
  | ended result => exact ⟨done, rest, hprogram, hexecutes, hsink, hfits⟩

end Stands

section Runs

variable (mode : Mode) (m : Memory) (lines : List String) (cancelled : Bool)
  (program : CompiledProgram)

/-- After any moves, a run stands between two statements, or in one that has left no trace yet. -/
theorem stands_after (moves : List Move) :
    ∃ done rest, Stands program m lines
      (Saw ⟨mode, ⟨m, .buffer lines, cancelled⟩, .between program⟩ moves) done rest
      (after ⟨mode, ⟨m, .buffer lines, cancelled⟩, .between program⟩ moves) := by
  induction moves using List.reverseRecOn with
  | nil => exact ⟨[], program, rfl, .nil, by simp [printedLines], rfl⟩
  | append_singleton moves move ih =>
    rcases ih with ⟨done, rest, hstands⟩
    have hmono := hstands.mono fun _ hsaw => hsaw.append [move]
    rw [after_append]
    cases move with
    | cancel => exact ⟨done, rest, hmono.cancel⟩
    | advance => exact hmono.advance fun hphase hset => ⟨moves, [], rfl, hphase, hset⟩

/-- By its own moves alone, a run comes to the end that executing its statements has. -/
theorem after_eq_execute {moves : List Move} (hcount : stepsFor program ≤ moves.count .advance)
    (hcancel : .cancel ∉ moves) (state : RunState) :
    after ⟨mode, state, .between program⟩ moves =
      ⟨mode, (execute mode state program).2, .ended (execute mode state program).1⟩ := by
  have hall : moves = List.replicate moves.length .advance := by
    refine List.eq_replicate_of_mem fun move hmove => ?_
    cases move with
    | advance => rfl
    | cancel => exact absurd hmove hcancel
  obtain ⟨extra, hlength⟩ : ∃ extra, moves.length = stepsFor program + extra :=
    ⟨moves.length - stepsFor program, by
      have := List.count_le_length (a := Move.advance) (l := moves)
      omega⟩
  rw [hall, hlength, List.replicate_add, after_append, after_replicate, after_replicate,
    iterate_advance_between, advanceBy_ended]

/--
How a run has ended that began on memory `m` with `lines` in its buffer: some statements are done,
with these values, and the rest is not.
-/
structure Ending (moves : List Move) (done : List (Statement × Value)) (rest : CompiledProgram)
    (result : Except ExecError Unit) (state : RunState) : Prop where
  after_eq : after ⟨mode, ⟨m, .buffer lines, cancelled⟩, .between program⟩ moves =
    ⟨mode, state, .ended result⟩
  program_eq : program = done.map Prod.fst ++ rest
  /-- Each value is that of its statement on the memory that the statements before it left. -/
  executes : Executes mode m done state.memory
  bindings_eq : state.memory.bindings = m.bindings ++ done.map fun x => (x.1.output, x.2)
  kept : ∀ v value, m.find? v = some value → state.memory.find? v = some value
  bound : ∀ x ∈ done, m.find? x.1.output = none ∧ state.memory.find? x.1.output = some x.2
  sink_eq : state.sink = .buffer (lines ++ printedLines done)
  success : result = .ok () → rest = []
  /-- The flag was seen set before the first statement of the rest, or that statement failed. -/
  failure : ∀ e, result = .error e → ∃ s later, rest = s :: later ∧ e.span = s.span ∧
    (e.fault = .cancelled ∧
        Saw ⟨mode, ⟨m, .buffer lines, cancelled⟩, .between program⟩ moves rest ∨
      (s.exec mode state.memory).1 = .error e.fault ∧ s.FailsWith mode state.memory e.fault)
  /-- Without interference the end is that of executing the program at once. -/
  execute_eq : .cancel ∉ moves →
    execute mode ⟨m, .buffer lines, cancelled⟩ program = (result, state)

/--
However others interfere, a run ends once it took its steps, and it ends between two statements.
The memory is as it was, with exactly the outputs of the statements done bound to their values, and
the buffer has gained the lines of those of them that print.
-/
theorem ends_between_statements {moves : List Move}
    (hcount : stepsFor program ≤ moves.count .advance) :
    ∃ done rest result state,
      Ending mode m lines cancelled program moves done rest result state := by
  rcases stands_after mode m lines cancelled program moves with ⟨done, rest, hstands⟩
  have hsteps := stepsLeft_after ⟨mode, ⟨m, .buffer lines, cancelled⟩, .between program⟩ moves
  rw [show stepsLeft ⟨mode, ⟨m, .buffer lines, cancelled⟩, .between program⟩ = stepsFor program
    from rfl, Nat.sub_eq_zero_of_le hcount, Nat.le_zero] at hsteps
  rcases exists_ended_of_stepsLeft_eq_zero hsteps with ⟨result, hphase⟩
  have hmode := (mode_after ⟨mode, ⟨m, .buffer lines, cancelled⟩, .between program⟩ moves).symm
  rcases hrun : after ⟨mode, ⟨m, .buffer lines, cancelled⟩, .between program⟩ moves with
    ⟨mode', state, phase⟩
  rw [hrun] at hstands hphase hmode
  subst hphase hmode
  rcases hstands with ⟨hprogram, hexecutes, hsink, hfits⟩
  refine ⟨done, rest, result, state, hrun, hprogram, hexecutes, hexecutes.bindings_eq,
    fun v value => hexecutes.find?_of_eq_some, fun x => hexecutes.find?_output, hsink, ?_, ?_, ?_⟩
  · rintro rfl
    exact hfits
  · rintro e rfl
    rcases hfits with ⟨s, later, hrest, hspan, hcancelled | hfails⟩
    · exact ⟨s, later, hrest, hspan, .inl hcancelled⟩
    · exact ⟨s, later, hrest, hspan, .inr ⟨Statement.exec_eq_error_iff.2 hfails, hfails⟩⟩
  · intro hcancel
    have hexecute := after_eq_execute mode program hcount hcancel ⟨m, .buffer lines, cancelled⟩
    rw [hrun, Run.mk.injEq, Phase.ended.injEq] at hexecute
    exact Prod.ext hexecute.2.2.symm hexecute.2.1.symm

end Runs

/-- A statement that prints the number `n` under a marker with that position. -/
def printing (n : Nat) : Statement where
  callable := fun _ _ => ⟨.ok (.int (.ofNat n)), false⟩
  inputs := []
  output := .printMarker n .int
  span := ⟨.ofNat n, .ofNat n⟩

/-- A request that comes while the first of two statements is evaluated stops the second. -/
theorem ends_between_two_statements :
    stepsFor [printing 1, printing 2] ≤
        [Move.advance, .cancel, .advance, .advance, .advance, .advance].count .advance ∧
      ∃ done rest state, Ending .sequential .empty [] false [printing 1, printing 2]
        [.advance, .cancel, .advance, .advance, .advance, .advance] done rest
        (.error ⟨⟨2, 2⟩, .cancelled⟩) state ∧ state.sink = .buffer ["1"] := by
  have hcount : stepsFor [printing 1, printing 2] ≤
      [Move.advance, .cancel, .advance, .advance, .advance, .advance].count .advance := by decide
  rcases ends_between_statements .sequential .empty [] false [printing 1, printing 2] hcount with
    ⟨done, rest, result, state, hending⟩
  have hrun : after ⟨.sequential, ⟨.empty, .buffer [], false⟩, .between [printing 1, printing 2]⟩
      [.advance, .cancel, .advance, .advance, .advance, .advance] =
        ⟨.sequential, ⟨⟨[(.printMarker 1 .int, .int 1)]⟩, .buffer ["1"], true⟩,
          .ended (.error ⟨⟨2, 2⟩, .cancelled⟩)⟩ := rfl
  have hend := hending.after_eq
  rw [hrun, Run.mk.injEq, Phase.ended.injEq] at hend
  rcases hend with ⟨-, rfl, rfl⟩
  exact ⟨hcount, done, rest, _, hending, rfl⟩

end Run

end SeqCalc
