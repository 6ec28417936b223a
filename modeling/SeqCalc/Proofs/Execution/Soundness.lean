import SeqCalc.Proofs.Execution.Preparation
import SeqCalc.Proofs.Value.Traversal

/-!
# Type soundness of runs

A run of a checked program on an empty memory goes through its statements in order.  Before each of
them the memory has a value of the right type for every variable in scope, and nothing is bound to
what the statement writes: names in scope are those of earlier definitions, and print markers carry
the position of their statement.  So a statement finds its inputs, computes a value of its type
unless its arithmetic fails, and binds it.

Main results:

- `Memory.Ready.bind`: binding the value of a statement makes the memory ready for the next one.
- `Lowered.exec_sound`: one statement on a memory that is ready for it.
- `SoundProgram.typedRun_execute`: runs of checked programs stop for arithmetical reasons only.
-/

namespace SeqCalc

/-! ## Names -/

theorem Variable.printMarker_name_inj {i j : Nat} {t u : Ty}
    (h : (printMarker i t).name = (printMarker j u).name) : i = j := by
  have hchars := congrArg String.toList h
  simp only [printMarker, String.toList_append, List.append_cancel_left_eq,
    Nat.toString_eq_repr, Nat.toList_repr] at hchars
  have hvalues := congrArg (fun digits => Nat.ofDigitChars 10 digits 0) hchars
  simpa using hvalues

/-- Whether a variable is printed is a matter of its name. -/
theorem Variable.isPrintMarker_congr {v w : Variable} (h : v.name = w.name) :
    v.isPrintMarker = w.isPrintMarker := by
  simp only [isPrintMarker, h]

/-- A definition whose name is not kept for print markers. -/
def Stmt.AvoidsMarkers (s : Stmt) : Prop :=
  ∀ name ∈ s.target, Variable.markerStem.toList.isPrefixOf name.toList = false

instance (s : Stmt) : Decidable s.AvoidsMarkers :=
  inferInstanceAs
    (Decidable (∀ name ∈ s.target, Variable.markerStem.toList.isPrefixOf name.toList = false))

theorem Scope.name_ne_of_define {scope next : Scope} {v w : Variable}
    (h : scope.define v = .ok next) (hw : w ∈ scope.vars) : w.name ≠ v.name := by
  have hnone : scope.lookup? v.name = none := by
    simpa [Scope.types] using (Scope.define_eq_ok_iff.1 h).1
  simpa using List.find?_eq_none.1 hnone w hw

/-! ## Memories -/

namespace Memory

theorem bind_of_find?_eq_none {m : Memory} {v : Variable} (value : Value) (h : m.find? v = none) :
    m.bind v value = .ok ⟨m.bindings ++ [(v, value)]⟩ := by
  simp [bind, h]

theorem mem_bindings_of_find? {m : Memory} {v : Variable} {value : Value}
    (h : m.find? v = some value) : (v, value) ∈ m.bindings := by
  rcases Option.map_eq_some_iff.1 h with ⟨b, hb, rfl⟩
  have hv : b.1 = v := by simpa using List.find?_some hb
  subst hv
  exact List.mem_of_find?_eq_some hb

/--
A memory before the statement at position `index`: it has a typed value for every variable in scope,
and besides these only what earlier statements printed.
-/
structure Ready (index : Nat) (scope : Scope) (m : Memory) : Prop where
  bound : ∀ v ∈ scope.vars, ∃ value, m.find? v = some value ∧ value.HasType v.ty
  known : ∀ b ∈ m.bindings,
    (∃ i < index, b.1.name = (Variable.printMarker i b.1.ty).name) ∨ b.1 ∈ scope.vars
  unmarked : ∀ v ∈ scope.vars, v.isPrintMarker = false

theorem ready_empty : Ready 0 .empty .empty := by
  refine ⟨?_, ?_, ?_⟩ <;> intro _ h <;> contradiction

variable {index : Nat} {scope next : Scope} {m : Memory}

/-- A statement without complaints writes a variable that is not bound yet. -/
theorem Ready.find?_output (h : Ready index scope m) {s : Stmt} {signature : Signature}
    (hvalue : (s.infer index scope).value = (signature, next))
    (hc : (s.infer index scope).findings.complaints = [])
    (hname : s.AvoidsMarkers) :
    m.find? signature.output = none := by
  rcases Stmt.infer_cases hvalue hc with ⟨-, -, -, hcases⟩
  cases hfind : m.find? signature.output with
  | none => rfl
  | some value =>
    have hbound := h.known _ (mem_bindings_of_find? hfind)
    rcases hcases with ⟨-, hmarker, -⟩ | ⟨htarget, hdefine⟩
    · -- a marker differs from earlier markers by its position and from names in scope by its stem
      have hout : signature.output.isPrintMarker = true := by
        rw [hmarker]
        exact Variable.isPrintMarker_printMarker _ _
      rcases hbound with ⟨i, hi, hname⟩ | hmem
      · rw [hmarker] at hname
        have := Variable.printMarker_name_inj hname
        omega
      · rw [h.unmarked _ hmem] at hout
        contradiction
    · have hout : signature.output.isPrintMarker = false := hname _ htarget
      rcases hbound with ⟨i, -, hi⟩ | hmem
      · rw [Variable.isPrintMarker_congr hi, Variable.isPrintMarker_printMarker] at hout
        contradiction
      · exact absurd rfl (Scope.name_ne_of_define hdefine hmem)

/-- Binding a typed value to what a statement writes makes the memory ready for the next one. -/
theorem Ready.bind (h : Ready index scope m) {s : Stmt} {signature : Signature} {value : Value}
    (hvalue : (s.infer index scope).value = (signature, next))
    (hc : (s.infer index scope).findings.complaints = [])
    (hname : s.AvoidsMarkers)
    (htyped : value.HasType signature.output.ty) :
    Ready (index + 1) next ⟨m.bindings ++ [(signature.output, value)]⟩ := by
  have hbind := bind_of_find?_eq_none value (h.find?_output hvalue hc hname)
  have hkept : ∀ v ∈ scope.vars, ∃ w,
      (⟨m.bindings ++ [(signature.output, value)]⟩ : Memory).find? v = some w ∧
        w.HasType v.ty := by
    intro v hv
    rw [find?_bind hbind v]
    by_cases heq : signature.output = v
    · subst heq
      exact ⟨value, if_pos rfl, htyped⟩
    · rw [if_neg heq]
      exact h.bound v hv
  rcases Stmt.infer_cases hvalue hc with ⟨-, -, -, ⟨-, hmarker, rfl⟩ | ⟨htarget, hdefine⟩⟩
  · refine ⟨hkept, ?_, h.unmarked⟩
    intro b hb
    rcases List.mem_append.1 hb with hb | hb
    · rcases h.known b hb with ⟨i, hi, hname⟩ | hmem
      · exact .inl ⟨i, by omega, hname⟩
      · exact .inr hmem
    · rcases List.mem_singleton.1 hb with rfl
      exact .inl ⟨index, by omega, congrArg Variable.name hmarker⟩
  · rcases Scope.define_eq_ok_iff.1 hdefine with ⟨-, rfl⟩
    refine ⟨?_, ?_, ?_⟩
    · intro v hv
      rcases List.mem_append.1 hv with hv | hv
      · exact hkept v hv
      · rcases List.mem_singleton.1 hv with rfl
        rw [find?_bind hbind, if_pos rfl]
        exact ⟨value, rfl, htyped⟩
    · intro b hb
      rcases List.mem_append.1 hb with hb | hb
      · rcases h.known b hb with ⟨i, hi, hname⟩ | hmem
        · exact .inl ⟨i, by omega, hname⟩
        · exact .inr (List.mem_append_left _ hmem)
      · rcases List.mem_singleton.1 hb with rfl
        exact .inr (List.mem_append_right _ (List.mem_singleton.2 rfl))
    · intro v hv
      rcases List.mem_append.1 hv with hv | hv
      · exact h.unmarked v hv
      · rcases List.mem_singleton.1 hv with rfl
        exact hname _ htarget

/-- The values of variables in scope, and their types. -/
theorem Ready.arguments (h : Ready index scope m) {inputs : List Variable}
    (hknows : scope.Knows inputs) :
    ∃ args, inputs.mapM m.get = .ok args ∧
      List.Forall₂ Value.HasType args (inputs.map Variable.ty) := by
  have hbound : ∀ v ∈ inputs, ∃ value, m.get v = .ok value ∧ value.HasType v.ty := by
    intro v hv
    rcases h.bound v (List.mem_of_find?_eq_some (hknows v hv)) with ⟨value, hvalue, htyped⟩
    exact ⟨value, by rw [get, hvalue], htyped⟩
  rcases exists_mapM_eq_ok hbound with ⟨args, hargs, htyped⟩
  exact ⟨args, hargs, List.forall₂_map_right_iff.2 htyped.flip⟩

end Memory

/-! ## Runs -/

namespace Lowered

variable {index : Nat} {scope next : Scope} {m : Memory} {l : Lowered}

/-- On a memory that is ready for it, a statement binds a typed value or its arithmetic fails. -/
theorem exec_sound (mode : Mode) (hready : m.Ready index scope) (hfits : l.FitsIn scope)
    (hvalue : (l.stmt.infer index scope).value = (l.signature, next))
    (hc : (l.stmt.infer index scope).findings.complaints = []) (hname : l.stmt.AvoidsMarkers) :
    (∃ value, value.HasType l.signature.output.ty ∧
        (l.statement .interp).exec mode m =
          (.ok (value, ⟨m.bindings ++ [(l.signature.output, value)]⟩), false)) ∨
      ∃ e, e.IsArithmetic ∧ (l.statement .interp).exec mode m = (.error e, false) := by
  rcases hready.arguments hfits.knows with ⟨args, hargs, htyped⟩
  have hyields : Yields (fun v => v.HasType l.signature.output.ty)
      (Backend.interp.eval mode l.function args) :=
    hfits.codeHasType.yields_eval mode args htyped
  rw [exec_of_arguments hargs]
  cases hresult : Backend.interp.eval mode l.function args with
  | error e =>
    rw [hresult] at hyields
    exact .inr ⟨e, hyields, rfl⟩
  | ok value =>
    rw [hresult] at hyields
    have hfree := hready.find?_output hvalue hc hname
    refine .inl ⟨value, hyields, ?_⟩
    rw [ok_bind, Memory.bind_of_find?_eq_none value hfree, ok_bind]
    rfl

end Lowered

/--
A run on a memory, statement by statement: each one binds a value of the type of its output, or it
has a fault of arithmetic and is the last one.  The result and the memory at the end come last.
-/
inductive TypedRun : CompiledProgram → Memory → Except ExecError Unit → Memory → Prop
  | done {m : Memory} : TypedRun [] m (.ok ()) m
  | fault {s : Statement} {rest : CompiledProgram} {m : Memory} {e : Fault} :
      e.IsArithmetic → TypedRun (s :: rest) m (.error ⟨s.span, e⟩) m
  | bind {s : Statement} {rest : CompiledProgram} {m m' : Memory} {value : Value}
      {result : Except ExecError Unit} :
      value.HasType s.output.ty → TypedRun rest ⟨m.bindings ++ [(s.output, value)]⟩ result m' →
      TypedRun (s :: rest) m result m'

theorem TypedRun.not_isInternal {program : CompiledProgram} {m m' : Memory}
    {result : Except ExecError Unit} (h : TypedRun program m result m') {e : ExecError}
    (he : result = .error e) : e.fault.isInternal = false := by
  induction h with
  | done => contradiction
  | fault harith =>
    cases he
    exact harith.not_isInternal
  | bind _ _ ih => exact ih he

/-- The run of prepared statements on a memory that is ready for them. -/
theorem Lowered.Prepared.typedRun {index : Nat} {scope : Scope} {ls : List Lowered}
    (h : Prepared index scope ls) (mode : Mode) :
    ∀ state : RunState, (∀ l ∈ ls, l.stmt.AvoidsMarkers) → state.memory.Ready index scope →
      state.cancelled = false →
      TypedRun (ls.map (statement .interp)) state.memory
        (execute mode state (ls.map (statement .interp))).1
        (execute mode state (ls.map (statement .interp))).2.memory := by
  -- the invariant is readiness for the position and the scope of the next statement
  induction h with
  | nil =>
    intro state _ _ _
    exact .done
  | @cons index scope next l rest hvalue hc hfits _ ih =>
    intro state hnames hready hcancelled
    have hname := hnames l List.mem_cons_self
    rw [List.map_cons, execute_cons, RunState.step, if_neg (by simp [hcancelled])]
    rcases exec_sound mode hready hfits hvalue hc hname with ⟨value, hv, hexec⟩ | ⟨e, he, hexec⟩
    · simp only [RunState.complete, hexec]
      refine .bind hv ?_
      refine ih ⟨⟨state.memory.bindings ++ [(l.signature.output, value)]⟩, _, _⟩
        (fun k hk => hnames k (List.mem_cons_of_mem l hk)) ?_ ?_
      · exact hready.bind hvalue hc hname hv
      · simp [hcancelled]
    · simp only [RunState.complete, hexec]
      exact .fault he

namespace SoundProgram

/-- No definition has a name that is kept for print markers. -/
def AvoidsMarkers (p : SoundProgram) : Prop :=
  ∀ s ∈ p.stmts, s.AvoidsMarkers

instance (p : SoundProgram) : Decidable p.AvoidsMarkers :=
  inferInstanceAs (Decidable (∀ s ∈ p.stmts, s.AvoidsMarkers))

/--
Type soundness of a whole run.  Take a program without complaints, in which inference gives no node
two types, as in every forest, and in which no definition has the name of a print marker.  It
compiles for the interpreter, to functions that never cast a float to an integer, and to statements
whose outputs have the inferred types.  Its run on an empty memory binds a value of its type for
each statement, in order, or stops at one whose arithmetic fails; the evaluator itself never fails.
-/
theorem typedRun_execute (p : SoundProgram) (hc : p.infer.complaints = []) (hm : p.AvoidsMarkers) :
    (p.program.IsForest → p.VisitsAgree) ∧
      (p.VisitsAgree → ∃ ls : List Lowered,
        ls.map Lowered.stmt = p.stmts ∧ ls.map Lowered.signature = p.infer.signatures ∧
        (∀ l ∈ ls, l.signature.lower .interp p.infer.table l.stmt.value = .ok l.function ∧
          (.float, .int) ∉ l.function.body.casts) ∧
        ∃ program, program = ls.map (Lowered.statement .interp) ∧
          (∀ limit, p.compile .interp limit = .ok program) ∧
          ∀ mode sink,
            TypedRun program .empty (execute mode (.fresh sink) program).1
              (execute mode (.fresh sink) program).2.memory ∧
            ∀ e, (execute mode (.fresh sink) program).1 = .error e →
              e.fault.isInternal = false) := by
  refine ⟨p.visitsAgree_of_isForest, ?_⟩
  intro hv
  rcases p.prepared hc hv with ⟨ls, hprep, hstmts, hsigs, hlower, hcompile, -⟩
  refine ⟨ls, hstmts, hsigs, ?_, _, rfl, hcompile .interp p.addressedBy_interp, ?_⟩
  · intro l hl
    refine ⟨(hlower l hl .interp).trans l.taken_interp, ?_⟩
    intro hcast
    rcases hprep.exists_fitsIn hl with ⟨scope, hfits⟩
    have := hfits.codeHasType.casts_eq _ hcast
    contradiction
  · intro mode sink
    have hnames : ∀ l ∈ ls, l.stmt.AvoidsMarkers := by
      intro l hl
      exact hm l.stmt (hstmts ▸ List.mem_map_of_mem hl)
    have hrun := hprep.typedRun mode (.fresh sink) hnames Memory.ready_empty rfl
    exact ⟨hrun, fun e he => hrun.not_isInternal he⟩

theorem typedRun_execute_sumOfSquares :
    sumOfSquares.infer.complaints = [] ∧ sumOfSquares.AvoidsMarkers ∧
      sumOfSquares.VisitsAgree ∧
      ∃ program, (∀ limit, sumOfSquares.compile .interp limit = .ok program) ∧
        ∀ sink, TypedRun program .empty (execute .sequential (.fresh sink) program).1
          (execute .sequential (.fresh sink) program).2.memory := by
  have hc : sumOfSquares.infer.complaints = [] := by decide +kernel
  have hm : sumOfSquares.AvoidsMarkers := by decide +kernel
  rcases typedRun_execute sumOfSquares hc hm with ⟨hforest, hsound⟩
  have hv : sumOfSquares.VisitsAgree := hforest (by decide +kernel)
  rcases hsound hv with ⟨ls, -, -, -, program, -, hcompile, hrun⟩
  exact ⟨hc, hm, hv, program, hcompile, fun sink => (hrun .sequential sink).1⟩

end SoundProgram
end SeqCalc
