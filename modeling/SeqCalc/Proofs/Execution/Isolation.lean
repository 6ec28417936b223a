import SeqCalc.Proofs.Execution.Atomicity

/-!
# Faults stay where they are

A program can also be executed statement by statement, going on after failures.  A statement that
fails leaves the memory as it is, so what is bound after some steps are the values of those that
succeeded.  In a checked program every input of a statement is the output of one earlier definition.
A statement therefore misses an input exactly if the definition of that input has failed, and
otherwise its callable works on the values that the definitions gave.  A run that stops at the first
failure is such a run up to there.

Main results:

- `bindings_reached`: what is bound after some steps.
- `execute_of_first_error`, `execute_of_no_error`: runs that stop against runs that go on.
- `SoundProgram.exists_definition`: inputs, their definitions, and the memory before a statement.
- `SoundProgram.step_cases`: one statement among the steps of a program.
- `SoundProgram.faults_isolated`: checked programs, on both machines and in every mode.
-/

namespace SeqCalc

/-! ## Steps -/

/-- A statement that has been executed, its result, and the memory after it. -/
abbrev Stepped := Statement × Except Fault Value × Memory

/-- Execute a statement; a failure leaves the memory as it is. -/
def Statement.stepOn (s : Statement) (mode : Mode) (m : Memory) : Stepped :=
  match (s.exec mode m).1 with
  | .ok (value, m') => (s, .ok value, m')
  | .error e => (s, .error e, m)

/-- The memory that some steps lead to. -/
def reached (m : Memory) : List Stepped → Memory
  | [] => m
  | x :: rest => reached x.2.2 rest

/-- The bindings that some steps make: one for each step that succeeds. -/
def bound (steps : List Stepped) : List (Variable × Value) :=
  steps.filterMap fun x => x.2.1.toOption.map fun value => (x.1.output, value)

section Steps

variable {mode : Mode} {s : Statement} {m : Memory}

theorem Statement.stepOn_of_ok {value : Value} {m' : Memory}
    (h : (s.exec mode m).1 = .ok (value, m')) : s.stepOn mode m = (s, .ok value, m') := by
  simp only [stepOn, h]

theorem Statement.stepOn_of_error {e : Fault} (h : (s.exec mode m).1 = .error e) :
    s.stepOn mode m = (s, .error e, m) := by
  simp only [stepOn, h]

theorem executeEach_cons (rest : CompiledProgram) :
    executeEach mode m (s :: rest) =
      s.stepOn mode m :: executeEach mode (s.stepOn mode m).2.2 rest := by
  cases h : (s.exec mode m).1 with
  | error e => simp only [executeEach, Statement.stepOn, h]
  | ok bound => simp only [executeEach, Statement.stepOn, h]

/-- Each step is that of its statement on the memory that the steps before it lead to. -/
theorem getElem?_executeEach (mode : Mode) (m : Memory) (program : CompiledProgram) (k : Nat) :
    (executeEach mode m program)[k]? =
      program[k]?.map (·.stepOn mode (reached m ((executeEach mode m program).take k))) := by
  induction program generalizing m k with
  | nil => simp [executeEach]
  | cons s rest ih =>
    rw [executeEach_cons]
    cases k with
    | zero => rfl
    | succ k =>
      rw [List.getElem?_cons_succ, List.getElem?_cons_succ, List.take_succ_cons, reached]
      exact ih _ k

@[simp]
theorem Statement.stepOn_fst : (s.stepOn mode m).1 = s := by
  unfold stepOn
  split <;> rfl

theorem map_fst_executeEach (mode : Mode) (m : Memory) (program : CompiledProgram) :
    (executeEach mode m program).map Prod.fst = program := by
  induction program generalizing m with
  | nil => rfl
  | cons s rest ih => rw [executeEach_cons, List.map_cons, ih, Statement.stepOn_fst]

theorem take_executeEach (program : CompiledProgram) (k : Nat) :
    (executeEach mode m program).take k = executeEach mode m (program.take k) := by
  induction program generalizing m k with
  | nil => simp [executeEach]
  | cons s rest ih =>
    cases k with
    | zero => rfl
    | succ k =>
      rw [executeEach_cons, List.take_succ_cons, List.take_succ_cons, executeEach_cons, ih]

theorem reached_take_succ (m : Memory) {steps : List Stepped} {k : Nat} {x : Stepped}
    (h : steps[k]? = some x) : reached m (steps.take (k + 1)) = x.2.2 := by
  induction steps generalizing m k with
  | nil => simp at h
  | cons y rest ih =>
    cases k with
    | zero =>
      have hyx : y = x := by simpa using h
      rw [hyx]
      rfl
    | succ k =>
      rw [List.getElem?_cons_succ] at h
      rw [List.take_succ_cons, reached, ih _ h]

/-- What is bound after some steps: what was bound before, and the values of those that succeed. -/
theorem bindings_reached (mode : Mode) (m : Memory) (program : CompiledProgram) :
    (reached m (executeEach mode m program)).bindings =
      m.bindings ++ bound (executeEach mode m program) := by
  induction program generalizing m with
  | nil => simp [executeEach, reached, bound]
  | cons s rest ih =>
    rw [executeEach_cons, reached, ih]
    cases h : (s.exec mode m).1 with
    | error e =>
      rw [Statement.stepOn_of_error h]
      rfl
    | ok binding =>
      rcases binding with ⟨value, m'⟩
      rw [Statement.stepOn_of_ok h, Statement.memory_of_exec h, List.append_assoc]
      rfl

theorem length_bound (steps : List Stepped) :
    (bound steps).length = steps.countP fun x => x.2.1.isOk := by
  induction steps with
  | nil => rfl
  | cons x rest ih =>
    rcases x with ⟨s, result, m⟩
    rw [List.countP_cons, ← ih]
    cases result <;> rfl

end Steps

/-! ## Looking up what steps have bound -/

section Bound

variable {steps : List Stepped}

/-- Nothing is bound to a variable that no step writes. -/
theorem find?_bound_of_notMem {v : Variable} (h : v ∉ steps.map fun x => x.1.output) :
    (⟨bound steps⟩ : Memory).find? v = none := by
  have hnone : ∀ b ∈ bound steps, b.1 ≠ v := by
    intro b hb hbv
    rcases List.mem_filterMap.1 hb with ⟨x, hx, hmap⟩
    rcases Option.map_eq_some_iff.1 hmap with ⟨value, -, rfl⟩
    exact h (List.mem_map.2 ⟨x, hx, hbv⟩)
  rw [Memory.find?, Option.map_eq_none_iff, List.find?_eq_none]
  intro b hb
  simpa using hnone b hb

/-- A variable that one step writes has the value of that step, if it succeeded. -/
theorem find?_bound (hnodup : (steps.map fun x => x.1.output).Nodup) {j : Nat} {x : Stepped}
    (h : steps[j]? = some x) :
    (⟨bound steps⟩ : Memory).find? x.1.output = x.2.1.toOption := by
  induction steps generalizing j with
  | nil => simp at h
  | cons y rest ih =>
    rw [List.map_cons, List.nodup_cons] at hnodup
    cases j with
    | zero =>
      have hyx : y = x := by simpa using h
      subst hyx
      rcases y with ⟨s, result, m⟩
      cases result with
      | error e =>
        change (⟨bound rest⟩ : Memory).find? s.output = none
        exact find?_bound_of_notMem hnodup.1
      | ok value => simp [bound, Memory.find?, Except.toOption]
    | succ j =>
      rw [List.getElem?_cons_succ] at h
      have hmem : x.1.output ∈ rest.map fun x => x.1.output :=
        List.mem_map.2 ⟨x, List.mem_of_getElem? h, rfl⟩
      have hne : y.1.output ≠ x.1.output := fun heq => hnodup.1 (heq ▸ hmem)
      rw [← ih hnodup.2 h]
      rcases y with ⟨s, result, m⟩
      cases result with
      | error e => rfl
      | ok value =>
        have hkey : (s.output == x.1.output) = false := beq_false_of_ne hne
        simp [bound, Memory.find?, Except.toOption, hkey]

end Bound

/-! ## Runs that stop at the first failure -/

section Stopping

variable {mode : Mode} {m : Memory}

/-- One step of a run that stops, on any sink. -/
theorem exists_step_of_ok {s : Statement} (hs : s.NeverCancels) {value : Value} {m' : Memory}
    (h : (s.exec mode m).1 = .ok (value, m')) (sink : Sink) :
    ∃ sink', RunState.step ⟨m, sink, false⟩ mode s = (.ok (), ⟨m', sink', false⟩) := by
  have hexec : s.exec mode m = (.ok (value, m'), false) := Prod.ext h (hs.exec mode m)
  refine ⟨if s.prints then sink.printValue value else sink, ?_⟩
  simp only [RunState.step, RunState.complete, hexec]
  rfl

theorem step_of_error {s : Statement} (hs : s.NeverCancels) {e : Fault}
    (h : (s.exec mode m).1 = .error e) (sink : Sink) :
    RunState.step ⟨m, sink, false⟩ mode s = (.error ⟨s.span, e⟩, ⟨m, sink, false⟩) := by
  have hexec : s.exec mode m = (.error e, false) := Prod.ext h (hs.exec mode m)
  simp only [RunState.step, RunState.complete, hexec]
  rfl

/-- A run that stops does so at the first failure, on the memory that the steps before it reach. -/
theorem execute_of_first_error {program : CompiledProgram} (hs : ∀ s ∈ program, s.NeverCancels)
    {j : Nat} {s : Statement} {e : Fault} {m' : Memory}
    (h : (executeEach mode m program)[j]? = some (s, .error e, m'))
    (hbefore : ∀ x ∈ (executeEach mode m program).take j, x.2.1.isOk) (sink : Sink) :
    (execute mode ⟨m, sink, false⟩ program).1 = .error ⟨s.span, e⟩ ∧
      (execute mode ⟨m, sink, false⟩ program).2.memory =
        reached m ((executeEach mode m program).take j) := by
  induction program generalizing m j sink with
  | nil => simp [executeEach] at h
  | cons t rest ih =>
    have ht := hs t List.mem_cons_self
    rw [executeEach_cons] at h hbefore ⊢
    rw [execute_cons]
    cases hexec : (t.exec mode m).1 with
    | error e' =>
      rw [Statement.stepOn_of_error hexec] at h hbefore ⊢
      cases j with
      | zero =>
        simp only [List.getElem?_cons_zero, Option.some.injEq, Prod.mk.injEq,
          Except.error.injEq] at h
        rw [step_of_error ht hexec, h.1, h.2.1]
        exact ⟨rfl, rfl⟩
      | succ j =>
        -- the first step would have failed before
        have := hbefore (t, .error e', m) (by simp)
        contradiction
    | ok binding =>
      rcases binding with ⟨value, next⟩
      rw [Statement.stepOn_of_ok hexec] at h hbefore ⊢
      rcases exists_step_of_ok ht hexec sink with ⟨sink', hstep⟩
      rw [hstep]
      cases j with
      | zero => simp at h
      | succ j =>
        rw [List.getElem?_cons_succ] at h
        rw [List.take_succ_cons] at hbefore ⊢
        exact ih (fun s hs' => hs s (List.mem_cons_of_mem t hs')) h
          (fun x hx => hbefore x (List.mem_cons_of_mem _ hx)) sink'

/-- A run in which nothing fails reaches the memory that all steps reach. -/
theorem execute_of_no_error {program : CompiledProgram} (hs : ∀ s ∈ program, s.NeverCancels)
    (h : ∀ x ∈ executeEach mode m program, x.2.1.isOk) (sink : Sink) :
    (execute mode ⟨m, sink, false⟩ program).1 = .ok () ∧
      (execute mode ⟨m, sink, false⟩ program).2.memory =
        reached m (executeEach mode m program) := by
  induction program generalizing m sink with
  | nil => exact ⟨rfl, rfl⟩
  | cons t rest ih =>
    have ht := hs t List.mem_cons_self
    rw [executeEach_cons] at h ⊢
    rw [execute_cons]
    cases hexec : (t.exec mode m).1 with
    | error e' =>
      have := h _ List.mem_cons_self
      rw [Statement.stepOn_of_error hexec] at this
      contradiction
    | ok binding =>
      rcases binding with ⟨value, next⟩
      rw [Statement.stepOn_of_ok hexec] at h ⊢
      rcases exists_step_of_ok ht hexec sink with ⟨sink', hstep⟩
      rw [hstep]
      exact ih (fun s hs' => hs s (List.mem_cons_of_mem t hs'))
        (fun x hx => h x (List.mem_cons_of_mem _ hx)) sink'

end Stopping

/-! ## Lowered statements -/

namespace Lowered

variable {l : Lowered} {ls : List Lowered} {scope : Scope} {m : Memory}

/-- On both machines the function of a statement yields values of the type of its output. -/
theorem FitsIn.yields_eval (hfits : l.FitsIn scope) (b : Backend) (mode : Mode)
    {args : List Value}
    (hargs : List.Forall₂ Value.HasType args (l.signature.inputs.map Variable.ty)) :
    Yields (fun v => v.HasType l.signature.output.ty) (b.eval mode l.function args) := by
  have hinterp : Yields (fun v => v.HasType l.signature.output.ty)
      (Backend.interp.eval mode l.function args) := hfits.codeHasType.yields_eval mode args hargs
  cases b with
  | interp => exact hinterp
  | native =>
    have hcall : Backend.native.eval mode l.function args =
        Backend.interp.eval mode l.function args :=
      Native.call_eq_eval mode hfits.codeHasType hargs
    rw [hcall]
    exact hinterp

/-- A statement whose output is free either misses an input or answers as its callable does. -/
theorem stepOn_cases (hfits : l.FitsIn scope) (b : Backend) (mode : Mode) (hm : m.WellTyped)
    (hfree : m.find? l.signature.output = none) :
    (∃ v, (l.statement b).Misses m v ∧
        ((l.statement b).stepOn mode m).2.1 = .error (.unbound v.name)) ∨
      ∃ args, (l.statement b).Reads m args ∧
        ((l.statement b).stepOn mode m).2.1 = ((l.statement b).callable mode args).result ∧
        Yields (fun v => v.HasType l.signature.output.ty)
          ((l.statement b).callable mode args).result := by
  cases hargs : (l.statement b).arguments m with
  | error e =>
    rcases Statement.arguments_eq_error_iff.1 hargs with ⟨v, hmisses, rfl⟩
    have hexec : ((l.statement b).exec mode m).1 = .error (.unbound v.name) :=
      Statement.exec_eq_error_iff.2 (.missing hmisses)
    exact .inl ⟨v, hmisses, by rw [Statement.stepOn_of_error hexec]⟩
  | ok args =>
    have hreads := Statement.arguments_eq_ok_iff.1 hargs
    have hyields := hfits.yields_eval b mode (hm.arguments hargs)
    refine .inr ⟨args, hreads, ?_, hyields⟩
    cases hresult : ((l.statement b).callable mode args).result with
    | error e =>
      have hexec := Statement.exec_eq_error_iff.2 (.refused hreads hresult)
      rw [Statement.stepOn_of_error hexec]
    | ok value =>
      have hexec := Statement.exec_eq_ok_iff.2 ⟨⟨⟨args, hreads, hresult⟩, hfree⟩, rfl⟩
      rw [Statement.stepOn_of_ok hexec]

theorem wellTyped_stepOn (hfits : l.FitsIn scope) (b : Backend) (mode : Mode) (hm : m.WellTyped) :
    ((l.statement b).stepOn mode m).2.2.WellTyped := by
  have hsame : (l.statement b).exec mode m = (l.statement .interp).exec mode m := by
    cases b with
    | interp => rfl
    | native => exact exec_eq hfits hm mode
  cases h : ((l.statement b).exec mode m).1 with
  | error e =>
    rw [Statement.stepOn_of_error h]
    exact hm
  | ok binding =>
    rcases binding with ⟨value, m'⟩
    rw [Statement.stepOn_of_ok h]
    rw [hsame] at h
    exact wellTyped_of_exec hfits hm h

/-- Steps of fitting statements keep a memory typed. -/
theorem wellTyped_reached (hfits : AllFit ls) (b : Backend) (mode : Mode) (hm : m.WellTyped) :
    (reached m (executeEach mode m (ls.map (statement b)))).WellTyped := by
  induction ls generalizing m with
  | nil => exact hm
  | cons l rest ih =>
    rcases hfits l List.mem_cons_self with ⟨scope, hl⟩
    rw [List.map_cons, executeEach_cons, reached]
    exact ih (fun k hk => hfits k (List.mem_cons_of_mem l hk)) (wellTyped_stepOn hl b mode hm)

/-- The statement at a position is a definition, and it writes a variable of its name. -/
def DefinesAt (ls : List Lowered) (j : Nat) (v : Variable) : Prop :=
  ∃ l : Lowered, ls[j]? = some l ∧ l.stmt.target = some v.name ∧ l.signature.output = v

theorem DefinesAt.unique (hnodup : (ls.map fun l => l.signature.output).Nodup) {i j : Nat}
    {v : Variable} (hi : DefinesAt ls i v) (hj : DefinesAt ls j v) : i = j := by
  rcases hi with ⟨k, hk, -, rfl⟩
  rcases hj with ⟨l, hl, -, hsame⟩
  have hlength : i < (ls.map fun l => l.signature.output).length := by
    rw [List.length_map]
    exact (List.getElem?_eq_some_iff.1 hk).1
  apply (List.getElem?_inj hlength hnodup).1
  rw [List.getElem?_map, List.getElem?_map, hk, hl, Option.map_some, Option.map_some, hsame]

/-- An input of a statement is in scope at the start, or else an earlier statement defines it. -/
theorem Prepared.mem_or_exists_definesAt {index : Nat} (h : Prepared index scope ls) {k : Nat}
    (hk : ls[k]? = some l) {v : Variable} (hv : v ∈ l.signature.inputs) :
    v ∈ scope.vars ∨ ∃ j < k, DefinesAt ls j v := by
  induction h generalizing k with
  | nil => simp at hk
  | @cons index scope next head rest hvalue hc hfits _ ih =>
    cases k with
    | zero =>
      have hl : head = l := by simpa using hk
      subst hl
      exact .inl (List.mem_of_find?_eq_some (hfits.knows v hv))
    | succ k =>
      rw [List.getElem?_cons_succ] at hk
      rcases ih hk with hmem | ⟨j, hj, l', hl', hdefines⟩
      · rcases (Stmt.infer_cases hvalue hc).2.2.2 with ⟨-, -, rfl⟩ | ⟨htarget, hdefine⟩
        · exact .inl hmem
        · -- the scope has grown by what the first statement defines
          rcases Scope.define_eq_ok_iff.1 hdefine with ⟨-, rfl⟩
          rcases List.mem_append.1 hmem with hmem | hmem
          · exact .inl hmem
          · rcases List.mem_singleton.1 hmem with rfl
            exact .inr ⟨0, by omega, head, rfl, htarget, rfl⟩
      · exact .inr ⟨j + 1, by omega, l', by rwa [List.getElem?_cons_succ], hdefines⟩

end Lowered

/-! ## Programs -/

namespace SoundProgram

/-- The statement at a position defines the variable: it binds its value to it under its name. -/
def Defines (p : SoundProgram) (j : Nat) (v : Variable) : Prop :=
  p.stmts[j]?.bind Stmt.target = some v.name ∧
    p.infer.signatures[j]?.map Signature.output = some v

/-- Among the steps of a program, the one that defines the variable has this result. -/
def Gave (p : SoundProgram) (steps : List Stepped) (v : Variable) (r : Except Fault Value) : Prop :=
  ∃ j x, p.Defines j v ∧ steps[j]? = some x ∧ x.2.1 = r

section Stepping

variable {p : SoundProgram} {ls : List Lowered} {b : Backend} {mode : Mode} {k : Nat} {l : Lowered}
  {v : Variable}

theorem defines_iff (hstmts : ls.map Lowered.stmt = p.stmts)
    (hsigs : ls.map Lowered.signature = p.infer.signatures) {j : Nat} :
    p.Defines j v ↔ Lowered.DefinesAt ls j v := by
  rw [Defines, Lowered.DefinesAt, ← hstmts, ← hsigs, List.getElem?_map, List.getElem?_map]
  cases ls[j]? with
  | none => simp
  | some l => simp

/-- The memory before the statement at a position. -/
def memoryBefore (steps : List Stepped) (k : Nat) : Memory :=
  reached .empty (steps.take k)

/-- What the steps of a program bind is looked up among the steps themselves. -/
theorem memoryBefore_eq (program : CompiledProgram) (mode : Mode) (k : Nat) :
    memoryBefore (executeEach mode .empty program) k =
      ⟨bound ((executeEach mode .empty program).take k)⟩ := by
  have hbindings := bindings_reached mode .empty (program.take k)
  rw [memoryBefore, take_executeEach]
  exact congrArg Memory.mk hbindings

theorem map_output_executeEach (ls : List Lowered) (b : Backend) (mode : Mode) :
    (executeEach mode .empty (ls.map (Lowered.statement b))).map (fun x => x.1.output) =
      ls.map fun l => l.signature.output := by
  have hfst := map_fst_executeEach mode .empty (ls.map (Lowered.statement b))
  calc
    (executeEach mode .empty (ls.map (Lowered.statement b))).map (fun x => x.1.output)
        = ((executeEach mode .empty (ls.map (Lowered.statement b))).map Prod.fst).map
            Statement.output := by rw [List.map_map]; rfl
    _ = ls.map fun l => l.signature.output := by rw [hfst, List.map_map]; rfl

/-- Before a statement nothing is bound to what it writes. -/
theorem find?_memoryBefore_output (hnodup : (ls.map fun l => l.signature.output).Nodup)
    (hk : ls[k]? = some l) :
    (memoryBefore (executeEach mode .empty (ls.map (Lowered.statement b))) k).find?
      l.signature.output = none := by
  rw [memoryBefore_eq]
  apply find?_bound_of_notMem
  rw [List.map_take, map_output_executeEach]
  intro hmem
  rcases List.mem_iff_getElem?.1 hmem with ⟨j, hj⟩
  rw [List.getElem?_take] at hj
  by_cases hjk : j < k
  · rw [if_pos hjk] at hj
    have hlength : j < (ls.map fun l => l.signature.output).length :=
      (List.getElem?_eq_some_iff.1 hj).1
    have hk' : (ls.map fun l => l.signature.output)[k]? = some l.signature.output := by
      rw [List.getElem?_map, hk]
      rfl
    have : j = k := (List.getElem?_inj hlength hnodup).1 (hj.trans hk'.symm)
    omega
  · rw [if_neg hjk] at hj
    contradiction

/-- Before a statement its inputs hold what their definitions gave. -/
theorem find?_memoryBefore (hnodup : (ls.map fun l => l.signature.output).Nodup) {j : Nat}
    (hjk : j < k) {x : Stepped}
    (hx : (executeEach mode .empty (ls.map (Lowered.statement b)))[j]? = some x) :
    (memoryBefore (executeEach mode .empty (ls.map (Lowered.statement b))) k).find? x.1.output =
      x.2.1.toOption := by
  rw [memoryBefore_eq]
  refine find?_bound ?_ (j := j) ?_
  · rw [List.map_take, map_output_executeEach]
    exact (List.take_sublist k _).nodup hnodup
  · rw [List.getElem?_take_of_lt hjk, hx]

/--
The definition of an input is an earlier statement, and it is the only one.  The input holds its
value, if it gave one.
-/
theorem exists_definition (hprep : Lowered.Prepared 0 .empty ls)
    (hnodup : (ls.map fun l => l.signature.output).Nodup) (hk : ls[k]? = some l)
    (hv : v ∈ l.signature.inputs) (b : Backend) (mode : Mode) :
    ∃ j < k, Lowered.DefinesAt ls j v ∧ (∀ i, Lowered.DefinesAt ls i v → i = j) ∧
      ∃ x, (executeEach mode .empty (ls.map (Lowered.statement b)))[j]? = some x ∧
        (memoryBefore (executeEach mode .empty (ls.map (Lowered.statement b))) k).find? v =
          x.2.1.toOption := by
  rcases hprep.mem_or_exists_definesAt hk hv with hmem | ⟨j, hj, hdefines⟩
  · contradiction
  · refine ⟨j, hj, hdefines, fun i hi => hi.unique hnodup hdefines, ?_⟩
    rcases hdefines with ⟨d, hd, -, rfl⟩
    have hx : ∃ x, (executeEach mode .empty (ls.map (Lowered.statement b)))[j]? = some x ∧
        x.1.output = d.signature.output := by
      rw [getElem?_executeEach, List.getElem?_map, hd]
      refine ⟨_, rfl, ?_⟩
      rw [Statement.stepOn_fst]
      rfl
    rcases hx with ⟨x, hx, houtput⟩
    refine ⟨x, hx, ?_⟩
    rw [← houtput]
    exact find?_memoryBefore hnodup hj hx

/-- Whether an input is bound tells how its definition ended. -/
theorem gave_iff (hstmts : ls.map Lowered.stmt = p.stmts)
    (hsigs : ls.map Lowered.signature = p.infer.signatures)
    (hprep : Lowered.Prepared 0 .empty ls)
    (hnodup : (ls.map fun l => l.signature.output).Nodup) (hk : ls[k]? = some l)
    (hv : v ∈ l.signature.inputs) {steps : List Stepped}
    (hsteps : steps = executeEach mode .empty (ls.map (Lowered.statement b))) :
    ((∃ e, p.Gave steps v (.error e)) ↔ (memoryBefore steps k).find? v = none) ∧
      ∀ value, p.Gave steps v (.ok value) ↔ (memoryBefore steps k).find? v = some value := by
  rcases exists_definition hprep hnodup hk hv b mode with ⟨j, hj, hdefines, hunique, x, hx, hfind⟩
  rw [← hsteps] at hx hfind
  have hgave : ∀ r, p.Gave steps v r ↔ x.2.1 = r := by
    intro r
    constructor
    · rintro ⟨i, y, hi, hy, hr⟩
      have hij := hunique i ((defines_iff hstmts hsigs).1 hi)
      rw [hij, hx, Option.some.injEq] at hy
      rw [hy, hr]
    · intro hr
      exact ⟨j, x, (defines_iff hstmts hsigs).2 hdefines, hx, hr⟩
  simp only [hgave, hfind]
  cases x.2.1 with
  | error e => simp [Except.toOption]
  | ok value => simp [Except.toOption]

/--
A statement whose inputs' definitions have all given values answers as its callable does on them;
any other one has its first lost input for a fault.
-/
theorem step_cases (hstmts : ls.map Lowered.stmt = p.stmts)
    (hsigs : ls.map Lowered.signature = p.infer.signatures)
    (hprep : Lowered.Prepared 0 .empty ls)
    (hnodup : (ls.map fun l => l.signature.output).Nodup) {steps : List Stepped}
    (hsteps : steps = executeEach mode .empty (ls.map (Lowered.statement b))) {s : Statement}
    {r : Except Fault Value} {m : Memory} (hstep : steps[k]? = some (s, r, m)) :
    (∃ (i : Nat) (v : Variable) (e : Fault), s.inputs[i]? = some v ∧
        p.Gave steps v (.error e) ∧ r = .error (.unbound v.name) ∧
        ∀ j < i, ∀ u, s.inputs[j]? = some u → ∃ value, p.Gave steps u (.ok value)) ∨
      ∃ args, List.Forall₂ (fun v value => p.Gave steps v (.ok value)) s.inputs args ∧
        r = (s.callable mode args).result ∧
        (∀ v ∈ s.inputs, ∀ e, ¬p.Gave steps v (.error e)) ∧ ∀ name, r ≠ .error (.unbound name) := by
  have hat := getElem?_executeEach mode .empty (ls.map (Lowered.statement b)) k
  rw [← hsteps, hstep, List.getElem?_map] at hat
  cases hk : ls[k]? with
  | none => simp [hk] at hat
  | some l =>
    rw [hk, Option.map_some, Option.map_some, Option.some.injEq] at hat
    have hs : s = l.statement b := by
      have := congrArg Prod.fst hat
      rwa [Statement.stepOn_fst] at this
    have hr : r = ((l.statement b).stepOn mode (memoryBefore steps k)).2.1 :=
      congrArg (fun x : Stepped => x.2.1) hat
    have hgave := fun v (hv : v ∈ l.signature.inputs) =>
      gave_iff hstmts hsigs hprep hnodup hk hv hsteps
    rcases hprep.exists_fitsIn (List.mem_of_getElem? hk) with ⟨scope, hfits⟩
    have htyped : (memoryBefore steps k).WellTyped := by
      rw [memoryBefore, hsteps, take_executeEach, ← List.map_take]
      refine Lowered.wellTyped_reached ?_ b mode Memory.wellTyped_empty
      intro d hd
      exact hprep.exists_fitsIn (List.mem_of_mem_take hd)
    have hfree : (memoryBefore steps k).find? l.signature.output = none := by
      rw [hsteps]
      exact find?_memoryBefore_output hnodup hk
    subst hs
    rcases Lowered.stepOn_cases hfits b mode htyped hfree with
      ⟨v, ⟨i, hi, hnone, hbefore⟩, hresult⟩ | ⟨args, hreads, hresult, hyields⟩
    · rcases (hgave v (List.mem_of_getElem? hi)).1.2 hnone with ⟨e, he⟩
      refine .inl ⟨i, v, e, hi, he, hr.trans hresult, ?_⟩
      intro j hj u hu
      rcases Option.isSome_iff_exists.1 (hbefore j hj u hu) with ⟨value, hvalue⟩
      exact ⟨value, ((hgave u (List.mem_of_getElem? hu)).2 value).2 hvalue⟩
    · have hargs : List.Forall₂ (fun v value => p.Gave steps v (.ok value))
          (l.statement b).inputs args := by
        have hmem := (List.forall₂_and_left _ _).2 ⟨fun v hv => hv, hreads⟩
        exact hmem.imp fun v value h => ((hgave v h.1).2 value).2 h.2
      refine .inr ⟨args, hargs, hr.trans hresult, ?_, ?_⟩
      · have hbound : ∀ v ∈ (l.statement b).inputs, ((memoryBefore steps k).find? v).isSome :=
          ((List.forall₂_and_left _ _).1 (hreads.imp fun v value h => ⟨by simp [h], h⟩)).1
        intro v hv e he
        have hsome := hbound v hv
        rw [(hgave v hv).1.1 ⟨e, he⟩] at hsome
        contradiction
      · intro name hname
        rw [hr, hresult] at hname
        rw [hname] at hyields
        exact hyields

end Stepping

/--
How the faults of a program stay where they are, when its statements are executed one after the
other on an empty memory and failures do not end it.
-/
structure Isolates (p : SoundProgram) (mode : Mode) (program : CompiledProgram)
    (steps : List Stepped) : Prop where
  /-- Every statement is executed, in program order. -/
  statements_eq : steps.map Prod.fst = program
  /-- The statements declare the inputs and outputs that inference found. -/
  signatures_eq : program.map (fun s => ⟨s.output, s.inputs⟩) = p.infer.signatures
  spans_eq : program.map Statement.span = p.stmts.map Stmt.span
  /-- Every input has one definition, which stands earlier. -/
  defined : ∀ (k : Nat) (s : Statement), program[k]? = some s → ∀ v ∈ s.inputs,
    ∃ j < k, p.Defines j v ∧ ∀ i, p.Defines i v → i = j
  /-- A statement misses an input exactly if the definition of some input has failed. -/
  unbound_iff : ∀ (k : Nat) s r m, steps[k]? = some (s, r, m) →
    ((∃ name, r = .error (.unbound name)) ↔ ∃ v ∈ s.inputs, ∃ e, p.Gave steps v (.error e))
  /-- It names the first one of these inputs. -/
  names_first : ∀ (k : Nat) s r m, steps[k]? = some (s, r, m) →
    ∀ name, r = .error (.unbound name) → ∃ (i : Nat) (v : Variable) (e : Fault),
      s.inputs[i]? = some v ∧ v.name = name ∧ p.Gave steps v (.error e) ∧
        ∀ j < i, ∀ u, s.inputs[j]? = some u → ∃ value, p.Gave steps u (.ok value)
  /-- Otherwise its callable answers, on the values that the definitions gave. -/
  answers : ∀ (k : Nat) s r m, steps[k]? = some (s, r, m) →
    (¬∃ v ∈ s.inputs, ∃ e, p.Gave steps v (.error e)) →
      ∃ args, List.Forall₂ (fun v value => p.Gave steps v (.ok value)) s.inputs args ∧
        r = (s.callable mode args).result
  /-- As many variables are bound as statements have succeeded. -/
  size_eq : ∀ (k : Nat) s r m, steps[k]? = some (s, r, m) →
    m.size = (steps.take (k + 1)).countP fun x => x.2.1.isOk
  /-- A run that stops ends with the first failure, on the memory before it. -/
  stops : ∀ (j : Nat) s e m, steps[j]? = some (s, .error e, m) →
    (∀ x ∈ steps.take j, x.2.1.isOk) → ∀ sink,
      (execute mode (.fresh sink) program).1 = .error ⟨s.span, e⟩ ∧
        (execute mode (.fresh sink) program).2.memory = reached .empty (steps.take j)
  /-- If nothing fails, it succeeds with all that is bound. -/
  completes : (∀ x ∈ steps, x.2.1.isOk) → ∀ sink,
    (execute mode (.fresh sink) program).1 = .ok () ∧
      (execute mode (.fresh sink) program).2.memory = reached .empty steps

/--
Fault isolation.  Take a program without complaints, in which inference gives no node two types and
no definition has the name of a print marker.  It compiles on every machine that addresses its
inputs.  In every mode, when its statements are executed one after the other on an empty memory, a
fault reaches those statements only that depend on the one that failed, and a run that stops at the
first failure is the same up to it.
-/
theorem faults_isolated (p : SoundProgram) (hc : p.infer.complaints = []) (hv : p.VisitsAgree)
    (hm : p.AvoidsMarkers) (b : Backend) :
    ∃ program : CompiledProgram, (p.AddressedBy b → ∀ limit, p.compile b limit = .ok program) ∧
      ∀ mode, p.Isolates mode program (executeEach mode .empty program) := by
  rcases p.prepared hc hv with ⟨ls, hprep, hstmts, hsigs, -, hcompile, -⟩
  have hnames : ∀ l ∈ ls, l.stmt.AvoidsMarkers := by
    intro l hl
    exact hm l.stmt (hstmts ▸ List.mem_map_of_mem hl)
  have hnodup : (ls.map fun l => l.signature.output).Nodup := by
    apply List.Nodup.of_map Variable.name
    rw [List.map_map]
    exact (hprep.fresh hnames).2
  have hcancels : ∀ s ∈ ls.map (Lowered.statement b), s.NeverCancels := by
    intro s hs
    rcases List.mem_map.1 hs with ⟨l, -, rfl⟩
    exact l.neverCancels_statement b
  refine ⟨_, hcompile b, ?_⟩
  intro mode
  generalize hsteps : executeEach mode .empty (ls.map (Lowered.statement b)) = steps
  have hcases := fun {k s r m} hstep =>
    step_cases (k := k) (s := s) (r := r) (m := m) hstmts hsigs hprep hnodup hsteps.symm hstep
  refine ⟨?_, ?_, ?_, ?_, ?_, ?_, ?_, ?_, ?_, ?_⟩
  · rw [← hsteps]
    exact map_fst_executeEach mode .empty _
  · rw [← hsigs, List.map_map]
    rfl
  · rw [← hstmts, List.map_map, List.map_map]
    rfl
  · intro k s hs v hv
    rw [List.getElem?_map, Option.map_eq_some_iff] at hs
    rcases hs with ⟨l, hk, rfl⟩
    rcases exists_definition hprep hnodup hk hv b mode with ⟨j, hj, hdefines, hunique, -⟩
    exact ⟨j, hj, (defines_iff hstmts hsigs).2 hdefines,
      fun i hi => hunique i ((defines_iff hstmts hsigs).1 hi)⟩
  · intro k s r m hstep
    rcases hcases hstep with ⟨i, v, e, hi, hgave, hr, -⟩ | ⟨args, -, -, hgave, hr⟩
    · exact ⟨fun _ => ⟨v, List.mem_of_getElem? hi, e, hgave⟩, fun _ => ⟨v.name, hr⟩⟩
    · refine ⟨fun ⟨name, hname⟩ => absurd hname (hr name), ?_⟩
      rintro ⟨v, hv, e, he⟩
      exact absurd he (hgave v hv e)
  · intro k s r m hstep name hname
    rcases hcases hstep with ⟨i, v, e, hi, hgave, hr, hbefore⟩ | ⟨args, -, -, -, hr⟩
    · rw [hr, Except.error.injEq, Fault.unbound.injEq] at hname
      exact ⟨i, v, e, hi, hname, hgave, hbefore⟩
    · exact absurd hname (hr name)
  · intro k s r m hstep hnone
    rcases hcases hstep with ⟨i, v, e, hi, hgave, -, -⟩ | ⟨args, hargs, hr, -, -⟩
    · exact absurd ⟨v, List.mem_of_getElem? hi, e, hgave⟩ hnone
    · exact ⟨args, hargs, hr⟩
  · intro k s r m hstep
    have hreached := reached_take_succ .empty hstep
    have hbindings := memoryBefore_eq (ls.map (Lowered.statement b)) mode (k + 1)
    rw [hsteps, memoryBefore, hreached] at hbindings
    rw [← length_bound, Memory.size]
    exact congrArg (fun m : Memory => m.bindings.length) hbindings
  · intro j s e m hstep hbefore sink
    rw [← hsteps] at hstep hbefore ⊢
    exact execute_of_first_error hcancels hstep hbefore sink
  · intro hall sink
    rw [← hsteps] at hall ⊢
    exact execute_of_no_error hcancels hall sink

/-- `var a = 1 / 0`, `var b = 2`, `var c = b + a` and `print b`. -/
def lostQuotient : SoundProgram where
  program :=
    { arena :=
        { nodes := #[
            ⟨.int 1, .nowhere⟩, ⟨.int 0, .nowhere⟩, ⟨.binary .div ⟨0⟩ ⟨1⟩, .nowhere⟩,
            ⟨.int 2, .nowhere⟩, ⟨.ident ⟨1⟩, .nowhere⟩, ⟨.ident ⟨0⟩, .nowhere⟩,
            ⟨.binary .add ⟨4⟩ ⟨5⟩, .nowhere⟩, ⟨.ident ⟨1⟩, .nowhere⟩]
          names := #["a", "b", "c"]
          params := #[] }
      stmts := #[
        ⟨.define ⟨0⟩ ⟨2⟩, .nowhere⟩, ⟨.define ⟨1⟩ ⟨3⟩, .nowhere⟩,
        ⟨.define ⟨2⟩ ⟨6⟩, .nowhere⟩, ⟨.print ⟨7⟩, .nowhere⟩] }
  sound := by decide +kernel

/-- The third statement misses what the first one fails to give; the other two miss nothing. -/
theorem faults_isolated_lostQuotient :
    lostQuotient.infer.complaints = [] ∧ lostQuotient.VisitsAgree ∧ lostQuotient.AvoidsMarkers ∧
      ∃ program : CompiledProgram, (∀ limit, lostQuotient.compile .interp limit = .ok program) ∧
        lostQuotient.Isolates .sequential program (executeEach .sequential .empty program) := by
  have hc : lostQuotient.infer.complaints = [] := by decide +kernel
  have hv : lostQuotient.VisitsAgree := by decide +kernel
  have hm : lostQuotient.AvoidsMarkers := by decide +kernel
  rcases faults_isolated lostQuotient hc hv hm .interp with ⟨program, hcompile, hisolates⟩
  exact ⟨hc, hv, hm, program, hcompile lostQuotient.addressedBy_interp, hisolates .sequential⟩

example :
    (lostQuotient.compile .interp none).toOption.map
        (fun program => (executeEach .sequential .empty program).map fun x =>
          match x.2.1 with
          | .ok _ => none
          | .error e => some e) =
      some [some .divisionByZero, none, some (.unbound "a"), none] := by
  decide +kernel

end SoundProgram
end SeqCalc
