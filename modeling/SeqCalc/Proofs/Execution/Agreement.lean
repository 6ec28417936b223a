import SeqCalc.Proofs.Code.Agreement
import SeqCalc.Proofs.Execution.Preparation
import SeqCalc.Proofs.Value.Traversal

/-!
# Agreement of the backends on programs

A checked program behaves the same on both backends.  Statement by statement they have the same
inputs and outputs, and on a memory whose values have the types of their variables they answer with
the same value or the same fault.  The memory stays of that kind, whether or not a run goes on after
a fault, so whole runs are the same.

Main results:

- `Lowered.exec_eq`: one statement on both backends.
- `SoundProgram.backends_agree`: whole programs, with and without stopping at the first fault.
-/

namespace SeqCalc

/-! ## Typed memories -/

namespace Memory

/-- Every variable is bound to a value of its type. -/
def WellTyped (m : Memory) : Prop :=
  ∀ b ∈ m.bindings, b.2.HasType b.1.ty

theorem wellTyped_empty : empty.WellTyped := by
  intro b hb
  contradiction

theorem WellTyped.get {m : Memory} (h : m.WellTyped) {v : Variable} {value : Value}
    (hget : m.get v = .ok value) : value.HasType v.ty := by
  cases hfind : m.find? v with
  | none => simp [Memory.get, hfind] at hget
  | some found =>
    have hsame : found = value := by simpa [Memory.get, hfind] using hget
    subst hsame
    rcases Option.map_eq_some_iff.1 hfind with ⟨b, hb, rfl⟩
    have hv : b.1 = v := by simpa using List.find?_some hb
    subst hv
    exact h b (List.mem_of_find?_eq_some hb)

theorem WellTyped.bind {m m' : Memory} (h : m.WellTyped) {v : Variable} {value : Value}
    (htyped : value.HasType v.ty) (hbind : m.bind v value = .ok m') : m'.WellTyped := by
  cases hfind : m.find? v with
  | some old => simp [Memory.bind, hfind] at hbind
  | none =>
    simp only [Memory.bind, hfind, Except.ok.injEq] at hbind
    subst hbind
    intro b hb
    rcases List.mem_append.1 hb with hb | hb
    · exact h b hb
    · rcases List.mem_singleton.1 hb with rfl
      exact htyped

/-- The values of some variables, if they are all bound. -/
theorem WellTyped.arguments {m : Memory} (h : m.WellTyped) {inputs : List Variable}
    {args : List Value} (hargs : inputs.mapM m.get = .ok args) :
    List.Forall₂ Value.HasType args (inputs.map Variable.ty) := by
  have htyped : List.Forall₂ (fun v (value : Value) => value.HasType v.ty) inputs args :=
    (mapM_eq_ok_iff.1 hargs).imp fun v value hget => h.get hget
  exact List.forall₂_map_right_iff.2 htyped.flip

end Memory

/-! ## Statements -/

namespace Lowered

variable {l : Lowered} {scope : Scope} {m : Memory}

/-- On a typed memory a statement does the same on both backends. -/
theorem exec_eq (hfits : l.FitsIn scope) (hm : m.WellTyped) (mode : Mode) :
    (l.statement .native).exec mode m = (l.statement .interp).exec mode m := by
  cases hargs : l.signature.inputs.mapM m.get with
  | error e => rw [exec_of_missing hargs, exec_of_missing hargs]
  | ok args =>
    have hcall : Backend.native.eval mode l.function args =
        Backend.interp.eval mode l.function args :=
      Native.call_eq_eval mode hfits.codeHasType (hm.arguments hargs)
    rw [exec_of_arguments hargs, exec_of_arguments hargs, hcall]

/-- A statement that binds its value leaves a typed memory. -/
theorem wellTyped_of_exec (hfits : l.FitsIn scope) (hm : m.WellTyped) {mode : Mode} {value : Value}
    {m' : Memory} (h : ((l.statement .interp).exec mode m).1 = .ok (value, m')) :
    m'.WellTyped := by
  cases hargs : l.signature.inputs.mapM m.get with
  | error e =>
    rw [exec_of_missing hargs] at h
    contradiction
  | ok args =>
    rw [exec_of_arguments hargs] at h
    have hyields : Yields (fun v => v.HasType l.signature.output.ty)
        (Backend.interp.eval mode l.function args) :=
      hfits.codeHasType.yields_eval mode args (hm.arguments hargs)
    cases hresult : Backend.interp.eval mode l.function args with
    | error e => simp [hresult] at h
    | ok result =>
      rw [hresult] at h hyields
      cases hbind : m.bind l.signature.output result with
      | error e => simp [hbind] at h
      | ok memory =>
        rw [ok_bind, hbind, ok_bind] at h
        cases h
        exact hm.bind hyields hbind

/-- One statement of a run. -/
theorem step_eq (hfits : l.FitsIn scope) {state : RunState} (hm : state.memory.WellTyped)
    (mode : Mode) :
    state.step mode (l.statement .native) = state.step mode (l.statement .interp) := by
  unfold RunState.step RunState.complete
  rw [exec_eq hfits hm mode]
  rfl

theorem wellTyped_of_step (hfits : l.FitsIn scope) {state state' : RunState} {mode : Mode}
    (hm : state.memory.WellTyped)
    (h : state.step mode (l.statement .interp) = (.ok (), state')) : state'.memory.WellTyped := by
  unfold RunState.step RunState.complete at h
  split at h
  · simp at h
  · cases hexec : (l.statement .interp).exec mode state.memory with
    | mk result cancels =>
      cases result with
      | error e => simp [hexec] at h
      | ok bound =>
        rcases bound with ⟨value, memory⟩
        rw [hexec] at h
        cases h
        exact wellTyped_of_exec hfits hm (congrArg Prod.fst hexec)

end Lowered

/-! ## Runs -/

section Runs

variable {ls : List Lowered}

/-- What is seen of an executed statement: what it writes and prints, its result and the memory. -/
structure Observation where
  output : Variable
  span : Span
  printed : Option String
  result : Except Fault Value
  memory : Memory

/-- The text that a statement prints: that of its value, if it has one and is marked. -/
def observe : Statement × Except Fault Value × Memory → Observation
  | (s, .ok value, memory) =>
    ⟨s.output, s.span, if s.prints then some value.text else none, .ok value, memory⟩
  | (s, .error e, memory) => ⟨s.output, s.span, none, .error e, memory⟩

/-- Statements that fit in some scope each. -/
def AllFit (ls : List Lowered) : Prop :=
  ∀ l ∈ ls, ∃ scope, l.FitsIn scope

/-- Runs that stop at the first fault. -/
theorem execute_native_eq (hfits : AllFit ls) (mode : Mode) :
    ∀ state : RunState, state.memory.WellTyped →
      execute mode state (ls.map (Lowered.statement .native)) =
        execute mode state (ls.map (Lowered.statement .interp)) := by
  induction ls with
  | nil =>
    intro state _
    rfl
  | cons l rest ih =>
    intro state hm
    rcases hfits l List.mem_cons_self with ⟨scope, hl⟩
    have hrest := ih fun k hk => hfits k (List.mem_cons_of_mem l hk)
    rw [List.map_cons, List.map_cons, execute_cons, execute_cons,
      Lowered.step_eq hl hm mode]
    cases hstep : state.step mode (l.statement .interp) with
    | mk result state' =>
      cases result with
      | error e => rfl
      | ok _ => exact hrest state' (Lowered.wellTyped_of_step hl hm hstep)

/-- Runs that go on after a fault. -/
theorem executeEach_native_eq (hfits : AllFit ls) :
    ∀ m : Memory, m.WellTyped →
      (executeEach .sequential m (ls.map (Lowered.statement .native))).map observe =
        (executeEach .sequential m (ls.map (Lowered.statement .interp))).map observe := by
  induction ls with
  | nil =>
    intro m _
    rfl
  | cons l rest ih =>
    intro m hm
    rcases hfits l List.mem_cons_self with ⟨scope, hl⟩
    have hrest := ih fun k hk => hfits k (List.mem_cons_of_mem l hk)
    rw [List.map_cons, List.map_cons, executeEach, executeEach, Lowered.exec_eq hl hm .sequential]
    cases hexec : ((l.statement .interp).exec .sequential m).1 with
    | error e =>
      simp only [List.map_cons, hrest m hm]
      rfl
    | ok bound =>
      rcases bound with ⟨value, memory⟩
      simp only [List.map_cons, hrest memory (Lowered.wellTyped_of_exec hl hm hexec)]
      rfl

end Runs

namespace SoundProgram

/--
Backend agreement.  A program without complaints, in which inference gives no node two types,
compiles on both backends.  The only exception is a statement with so many inputs that the native
machine cannot address them, which it refuses.  On every memory whose values have the types of their
variables, the empty one among them, each statement gives the same value or the same fault on both
backends, prints the same and leaves the same memory, be it that a run stops at the first fault or
that it goes on.
-/
theorem backends_agree (p : SoundProgram) (hc : p.infer.complaints = []) (hv : p.VisitsAgree) :
    ∃ interp native, (∀ limit, p.compile .interp limit = .ok interp) ∧
      (∀ limit, p.compile .native limit =
        if ∀ s ∈ p.infer.signatures, s.inputs.length ≤ 2 ^ 28 then .ok native
        else .error (.backend (.malformed .slotOutOfRange))) ∧
      (∀ state : RunState, state.memory.WellTyped →
        execute .sequential state native = execute .sequential state interp) ∧
      ∀ memory : Memory, memory.WellTyped →
        (executeEach .sequential memory native).map observe =
          (executeEach .sequential memory interp).map observe := by
  rcases p.prepared hc hv with ⟨ls, hprep, -, -, -, hcompile, hrefused⟩
  have hfits : AllFit ls := fun l hl => hprep.exists_fitsIn hl
  refine ⟨_, ls.map (Lowered.statement .native), hcompile .interp p.addressedBy_interp, ?_, ?_, ?_⟩
  · intro limit
    split
    case isTrue h => exact hcompile .native (addressedBy_native.2 h) limit
    case isFalse h => exact hrefused .native (addressedBy_native.not.2 h) limit
  · exact execute_native_eq hfits .sequential
  · exact executeEach_native_eq hfits

theorem backends_agree_sumOfSquares :
    sumOfSquares.infer.complaints = [] ∧ sumOfSquares.VisitsAgree ∧
      ∃ interp native, (∀ limit, sumOfSquares.compile .interp limit = .ok interp) ∧
        (∀ limit, sumOfSquares.compile .native limit = .ok native) ∧
        ∀ sink, execute .sequential (.fresh sink) native =
          execute .sequential (.fresh sink) interp := by
  have hc : sumOfSquares.infer.complaints = [] := by decide +kernel
  have hv : sumOfSquares.VisitsAgree := by decide +kernel
  have hroom : ∀ s ∈ sumOfSquares.infer.signatures, s.inputs.length ≤ 2 ^ 28 := by decide +kernel
  rcases backends_agree sumOfSquares hc hv with ⟨interp, native, hinterp, hnative, hrun, -⟩
  exact ⟨hc, hv, interp, native, hinterp, fun limit => (hnative limit).trans (if_pos hroom),
    fun sink => hrun (.fresh sink) Memory.wellTyped_empty⟩

end SoundProgram
end SeqCalc
