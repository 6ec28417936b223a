import SeqCalc.Proofs.Execution.Agreement
import SeqCalc.Proofs.Execution.Soundness

/-!
# What a run prints and binds

A run goes through its statements until one fails.  Each statement before that binds its value to
its output, and prints it if the output is a print marker, which is a matter of the name alone.
Print markers take their names from a namespace that definitions can also reach.  In a checked
program whose definitions keep out of it, the statements that print are exactly the print
statements, and no two statements write variables of the same name.

Main results:

- `execute_eq_executed`: the memory and the lines that a run leaves, by the statements executed.
- `SoundProgram.printed_and_bound`: what a checked program prints and binds.
- `SoundProgram.run_markers`: definitions with the names of print markers.
-/

namespace SeqCalc

/-! ## Executed statements -/

/-- The statements that a run executes, with their values: those before the first failure. -/
def executed (mode : Mode) (memory : Memory) : CompiledProgram → List (Statement × Value)
  | [] => []
  | s :: rest =>
    match (s.exec mode memory).1 with
    | .ok (value, memory) => (s, value) :: executed mode memory rest
    | .error _ => []

/-- The lines that executed statements print. -/
def printedLines (xs : List (Statement × Value)) : List String :=
  (xs.filter fun x => x.1.prints).map fun x => x.2.text

namespace Statement

/-- A statement that never wants the run to be stopped. -/
def NeverCancels (s : Statement) : Prop :=
  ∀ mode args, (s.callable mode args).cancels = false

theorem NeverCancels.exec {s : Statement} (h : s.NeverCancels) (mode : Mode) (m : Memory) :
    (s.exec mode m).2 = false := by
  unfold Statement.exec
  cases s.arguments m with
  | error e => rfl
  | ok args => exact h mode args

/-- A statement that has a value binds it to its output. -/
theorem memory_of_exec {s : Statement} {mode : Mode} {m m' : Memory} {value : Value}
    (h : (s.exec mode m).1 = .ok (value, m')) : m' = ⟨m.bindings ++ [(s.output, value)]⟩ := by
  unfold exec at h
  cases hargs : s.arguments m with
  | error e =>
    rw [hargs] at h
    contradiction
  | ok args =>
    rw [hargs] at h
    cases hresult : (s.callable mode args).result with
    | error e => simp [hresult] at h
    | ok result =>
      cases hfind : m.find? s.output with
      | some old => simp [hresult, Memory.bind, hfind] at h
      | none =>
        simp only [hresult, ok_bind, Memory.bind_of_find?_eq_none result hfind] at h
        cases h
        rfl

end Statement

theorem printedLines_cons (x : Statement × Value) (xs : List (Statement × Value)) :
    printedLines (x :: xs) = printedLines [x] ++ printedLines xs := by
  rw [printedLines, printedLines, printedLines, ← List.map_append, ← List.filter_append]
  rfl

section Steps

variable {mode : Mode} {s : Statement} {m : Memory}

/-- A statement that has a value binds it and prints its lines, and the run goes on. -/
theorem execute_cons_of_ok (hs : s.NeverCancels) {m' : Memory} {value : Value}
    (h : (s.exec mode m).1 = .ok (value, m')) (lines : List String) (rest : CompiledProgram) :
    execute mode ⟨m, .buffer lines, false⟩ (s :: rest) =
      execute mode ⟨m', .buffer (lines ++ printedLines [(s, value)]), false⟩ rest := by
  have hexec : s.exec mode m = (.ok (value, m'), false) := Prod.ext h (hs.exec mode m)
  cases hprints : s.prints with
  | true =>
    simp [execute_cons, RunState.step, RunState.complete, hexec, hprints, printedLines,
      Sink.printValue, Sink.print]
  | false =>
    simp [execute_cons, RunState.step, RunState.complete, hexec, hprints, printedLines]

/-- A statement that fails is the last one. -/
theorem execute_cons_of_error (hs : s.NeverCancels) {e : Fault} (h : (s.exec mode m).1 = .error e)
    (lines : List String) (rest : CompiledProgram) :
    execute mode ⟨m, .buffer lines, false⟩ (s :: rest) =
      (.error ⟨s.span, e⟩, ⟨m, .buffer lines, false⟩) := by
  have hexec : s.exec mode m = (.error e, false) := Prod.ext h (hs.exec mode m)
  simp [execute_cons, RunState.step, RunState.complete, hexec]

end Steps

/--
A run leaves a binding for each executed statement and the lines that these print, and it succeeds
if all statements are executed.
-/
theorem execute_eq_executed (mode : Mode) (program : CompiledProgram)
    (h : ∀ s ∈ program, s.NeverCancels) (m : Memory) (lines : List String) :
    (execute mode ⟨m, .buffer lines, false⟩ program).2 =
        ⟨⟨m.bindings ++ (executed mode m program).map fun x => (x.1.output, x.2)⟩,
          .buffer (lines ++ printedLines (executed mode m program)), false⟩ ∧
      ((execute mode ⟨m, .buffer lines, false⟩ program).1 = .ok () ↔
        (executed mode m program).length = program.length) ∧
      (executed mode m program).map Prod.fst <+: program := by
  induction program generalizing m lines with
  | nil => simp [executed, printedLines]
  | cons s rest ih =>
    have hs := h s List.mem_cons_self
    cases hexec : (s.exec mode m).1 with
    | error e =>
      rw [execute_cons_of_error hs hexec]
      simp [executed, hexec, printedLines]
    | ok bound =>
      rcases bound with ⟨value, m'⟩
      rcases ih (fun t ht => h t (List.mem_cons_of_mem s ht)) m'
        (lines ++ printedLines [(s, value)]) with ⟨hstate, hresult, hprefix⟩
      have hexecuted : executed mode m (s :: rest) = (s, value) :: executed mode m' rest := by
        simp only [executed, hexec]
      rw [execute_cons_of_ok hs hexec, hexecuted]
      refine ⟨?_, ?_, ?_⟩
      · rw [hstate, printedLines_cons (s, value) (executed mode m' rest),
          Statement.memory_of_exec hexec]
        simp
      · simpa using hresult
      · simpa using hprefix

/-! ## Names -/

namespace Memory

/-- If no two variables have the same name, looking a name up finds the value of its variable. -/
theorem lookup?_zip {vs : List Variable} (hnodup : (vs.map Variable.name).Nodup) {i : Nat}
    {v : Variable} (hv : vs[i]? = some v) (values : List Value) :
    (⟨vs.zip values⟩ : Memory).lookup? v.name = values[i]? := by
  induction vs generalizing i values with
  | nil => simp at hv
  | cons w ws ih =>
    rw [List.map_cons, List.nodup_cons] at hnodup
    cases values with
    | nil => simp [lookup?]
    | cons u us =>
      cases i with
      | zero =>
        cases hv
        simp [lookup?]
      | succ i =>
        rw [List.getElem?_cons_succ] at hv
        have hmem : v.name ∈ ws.map Variable.name :=
          List.mem_map_of_mem (List.mem_of_getElem? hv)
        have hne : w.name ≠ v.name := fun heq => hnodup.1 (heq ▸ hmem)
        rw [List.getElem?_cons_succ, ← ih hnodup.2 hv us]
        simp [lookup?, hne]

end Memory

namespace Lowered

/--
What a statement writes, seen from the position and the scope before it: a later print marker, or a
variable with a name that the scope does not know.
-/
def Fresh (index : Nat) (scope : Scope) (l : Lowered) : Prop :=
  (l.stmt.target = none ∧ ∃ i t, index ≤ i ∧ l.signature.output = .printMarker i t) ∨
    (l.stmt.target = some l.signature.output.name ∧
      scope.lookup? l.signature.output.name = none)

variable {index : Nat} {scope next : Scope} {l : Lowered} {ls : List Lowered}

theorem Fresh.of_later (hnext : next = scope ∨ ∃ v, scope.define v = .ok next)
    (h : l.Fresh (index + 1) next) : l.Fresh index scope := by
  rcases h with ⟨htarget, i, t, hi, houtput⟩ | ⟨htarget, hlookup⟩
  · exact .inl ⟨htarget, i, t, by omega, houtput⟩
  · refine .inr ⟨htarget, ?_⟩
    rcases hnext with rfl | ⟨v, hdefine⟩
    · exact hlookup
    · rw [Scope.lookup?_define hdefine] at hlookup
      split at hlookup
      · contradiction
      · exact hlookup

/-- A statement that prints is marked, and one that defines a name is not. -/
theorem Fresh.isPrintMarker (h : l.Fresh index scope) (hname : l.stmt.AvoidsMarkers) :
    l.signature.output.isPrintMarker = l.stmt.target.isNone := by
  rcases h with ⟨htarget, i, t, -, houtput⟩ | ⟨htarget, -⟩
  · rw [htarget, houtput, Variable.isPrintMarker_printMarker]
    rfl
  · rw [htarget]
    exact hname _ htarget

theorem Prepared.fresh (h : Prepared index scope ls) :
    (∀ l ∈ ls, l.stmt.AvoidsMarkers) →
      (∀ l ∈ ls, l.Fresh index scope) ∧ (ls.map fun l => l.signature.output.name).Nodup := by
  induction h with
  | nil => simp
  | @cons index scope next l rest hvalue hc _ _ ih =>
    intro hnames
    rcases ih fun k hk => hnames k (List.mem_cons_of_mem l hk) with ⟨hfresh, hnodup⟩
    have hcases := (Stmt.infer_cases hvalue hc).2.2.2
    have hhead : l.Fresh index scope := by
      rcases hcases with ⟨htarget, hmarker, -⟩ | ⟨htarget, hdefine⟩
      · exact .inl ⟨htarget, index, _, Nat.le_refl _, hmarker⟩
      · refine .inr ⟨htarget, ?_⟩
        simpa [Scope.types] using (Scope.define_eq_ok_iff.1 hdefine).1
    have hnext : next = scope ∨ ∃ v, scope.define v = .ok next := by
      rcases hcases with ⟨-, -, rfl⟩ | ⟨-, hdefine⟩
      · exact .inl rfl
      · exact .inr ⟨_, hdefine⟩
    refine ⟨?_, ?_⟩
    · intro k hk
      rcases List.mem_cons.1 hk with rfl | hk
      · exact hhead
      · exact (hfresh k hk).of_later hnext
    · rw [List.map_cons, List.nodup_cons]
      refine ⟨?_, hnodup⟩
      intro hmem
      rcases List.mem_map.1 hmem with ⟨k, hk, hsame⟩
      have hmarked := Variable.isPrintMarker_congr hsame
      rw [(hfresh k hk).isPrintMarker (hnames k (List.mem_cons_of_mem l hk)),
        hhead.isPrintMarker (hnames l List.mem_cons_self)] at hmarked
      rcases hcases with ⟨htarget, hmarker, -⟩ | ⟨htarget, hdefine⟩
      · -- print markers differ by the positions of their statements
        rcases hfresh k hk with ⟨-, i, t, hi, houtput⟩ | ⟨hktarget, -⟩
        · rw [hmarker, houtput] at hsame
          have := Variable.printMarker_name_inj hsame
          omega
        · rw [htarget, hktarget] at hmarked
          contradiction
      · -- a later definition has a name that the scope does not know, and it knows this one
        rcases hfresh k hk with ⟨hktarget, -⟩ | ⟨-, hlookup⟩
        · rw [htarget, hktarget] at hmarked
          contradiction
        · rw [hsame, Scope.lookup?_define hdefine, if_pos rfl] at hlookup
          contradiction

end Lowered

/-! ## Programs -/

/-- A list of pairs whose first components come first in another list. -/
theorem eq_zip_of_map_fst {α β : Type} {xs : List (α × β)} {ys : List α}
    (h : xs.map Prod.fst <+: ys) : xs = ys.zip (xs.map Prod.snd) := by
  rcases h with ⟨rest, rfl⟩
  have hpairs : (xs.map Prod.fst).zip (xs.map Prod.snd) = xs :=
    (List.zip_of_prod rfl rfl).symm
  conv_rhs => rw [← List.append_nil (xs.map Prod.snd)]
  rw [List.zip_append (by simp), hpairs, List.zip_nil_right, List.append_nil]

theorem map_fst_zip_isPrefixOf {α β : Type} (xs : List α) (ys : List β) :
    (xs.zip ys).map Prod.fst <+: xs := by
  induction xs generalizing ys with
  | nil => simp
  | cons x xs ih =>
    cases ys with
    | nil => simp
    | cons y ys => simpa using ih ys

namespace Lowered

variable {ls : List Lowered} {b : Backend}

theorem neverCancels_statement (l : Lowered) (b : Backend) : (l.statement b).NeverCancels :=
  fun _ _ => rfl

/-- A run of lowered statements on an empty memory, by the values of those that are executed. -/
theorem execute_statements (ls : List Lowered) (b : Backend) (mode : Mode) {values : List Value}
    (h : values = (executed mode .empty (ls.map (statement b))).map Prod.snd) :
    values.length ≤ ls.length ∧
      ((execute mode (.fresh (.buffer [])) (ls.map (statement b))).1 = .ok () ↔
        values.length = ls.length) ∧
      (execute mode (.fresh (.buffer [])) (ls.map (statement b))).2 =
        ⟨⟨(ls.map fun l => l.signature.output).zip values⟩,
          .buffer (printedLines ((ls.map (statement b)).zip values)), false⟩ := by
  have hcancels : ∀ s ∈ ls.map (statement b), s.NeverCancels := by
    intro s hs
    rcases List.mem_map.1 hs with ⟨l, -, rfl⟩
    exact l.neverCancels_statement b
  rcases execute_eq_executed mode (ls.map (statement b)) hcancels .empty [] with
    ⟨hstate, hresult, hprefix⟩
  have hzip := eq_zip_of_map_fst hprefix
  rw [← h] at hzip
  have hlength : values.length = (executed mode .empty (ls.map (statement b))).length := by
    rw [h, List.length_map]
  have houtputs : (ls.map fun l => l.signature.output) =
      (ls.map (statement b)).map Statement.output := by
    rw [List.map_map]
    rfl
  refine ⟨?_, ?_, ?_⟩
  · rw [hlength]
    simpa using hprefix.length_le
  · rw [hlength, RunState.fresh, hresult, List.length_map]
  · rw [RunState.fresh, hstate, houtputs, List.zip_map_left, ← hzip]
    rfl

/-- The lines of executed statements are the values of those that define no name. -/
theorem printedLines_zip (hprints : ∀ l ∈ ls, (l.statement b).prints = l.stmt.target.isNone)
    (values : List Value) :
    printedLines ((ls.map (statement b)).zip values) =
      (((ls.map Lowered.stmt).zip values).filter fun x => x.1.target.isNone).map
        fun x => x.2.text := by
  induction ls generalizing values with
  | nil => rfl
  | cons l rest ih =>
    cases values with
    | nil => rfl
    | cons value values =>
      have hrest := ih (fun k hk => hprints k (List.mem_cons_of_mem l hk)) values
      have hl := hprints l List.mem_cons_self
      rw [List.map_cons, List.map_cons, List.zip_cons_cons, List.zip_cons_cons, printedLines_cons,
        hrest, List.filter_cons]
      dsimp only
      rw [← hl]
      cases hprint : (l.statement b).prints with
      | true => simp [printedLines, hprint]
      | false => simp [printedLines, hprint]

theorem nodup_zip_outputs (hnodup : (ls.map fun l => l.signature.output.name).Nodup)
    (values : List Value) :
    (((ls.map fun l => l.signature.output).zip values).map fun x => x.1.name).Nodup := by
  have hsublist := (map_fst_zip_isPrefixOf (ls.map fun l => l.signature.output) values).sublist.map
    Variable.name
  rw [List.map_map, List.map_map] at hsublist
  exact hsublist.nodup hnodup

/-- Names under which a run finds the values of its definitions. -/
theorem lookup?_zip_outputs (hnodup : (ls.map fun l => l.signature.output.name).Nodup)
    (hfresh : ∀ l ∈ ls, l.Fresh 0 .empty) {i : Nat} {name : String}
    (h : (ls.map Lowered.stmt)[i]?.bind Stmt.target = some name) (values : List Value) :
    (⟨(ls.map fun l => l.signature.output).zip values⟩ : Memory).lookup? name = values[i]? := by
  rcases Option.bind_eq_some_iff.1 h with ⟨stmt, hstmt, htarget⟩
  rw [List.getElem?_map, Option.map_eq_some_iff] at hstmt
  rcases hstmt with ⟨l, hl, rfl⟩
  have hname : name = l.signature.output.name := by
    rcases hfresh l (List.mem_of_getElem? hl) with ⟨hnone, -⟩ | ⟨hsome, -⟩
    · rw [hnone] at htarget
      contradiction
    · rw [hsome, Option.some.injEq] at htarget
      exact htarget.symm
  have houtput : (ls.map fun l => l.signature.output)[i]? = some l.signature.output := by
    rw [List.getElem?_map, hl]
    rfl
  rw [hname]
  refine Memory.lookup?_zip ?_ houtput values
  rw [List.map_map]
  exact hnodup

/-- Runs of checked statements have no internal faults, on either machine. -/
theorem Prepared.not_isInternal (h : Prepared 0 .empty ls) (hnames : ∀ l ∈ ls, l.stmt.AvoidsMarkers)
    (b : Backend) (sink : Sink) {e : ExecError}
    (he : (execute .sequential (.fresh sink) (ls.map (statement b))).1 = .error e) :
    e.fault.isInternal = false := by
  have hsame : execute .sequential (.fresh sink) (ls.map (statement b)) =
      execute .sequential (.fresh sink) (ls.map (statement .interp)) := by
    cases b with
    | interp => rfl
    | native =>
      exact execute_native_eq (fun l hl => h.exists_fitsIn hl) .sequential (.fresh sink)
        Memory.wellTyped_empty
  rw [hsame] at he
  exact (h.typedRun .sequential (.fresh sink) hnames Memory.ready_empty rfl).not_isInternal he

end Lowered

namespace SoundProgram

/-- What a run of a program leaves, if the statements that it executes have the given values. -/
structure Leaves (p : SoundProgram) (values : List Value) (run : Except ExecError Unit × RunState) :
    Prop where
  /-- The statements executed are the first ones. -/
  length_le : values.length ≤ p.stmts.length
  /-- The run succeeds if they are all of them. -/
  ok_iff : run.1 = .ok () ↔ values.length = p.stmts.length
  /-- The values of print statements are printed in program order, one line each, and no others. -/
  sink_eq : run.2.sink = .buffer
    (((p.stmts.zip values).filter fun x => x.1.target.isNone).map fun x => x.2.text)
  /-- Each value is bound to what its statement writes. -/
  bindings_eq : run.2.memory.bindings = (p.infer.signatures.map Signature.output).zip values
  /-- No two bindings have the same name. -/
  nodup_names : (run.2.memory.bindings.map fun x => x.1.name).Nodup
  /-- The name of a definition leads to the value of its statement, once that is executed. -/
  lookup?_eq : ∀ (i : Nat) (name : String), p.stmts[i]?.bind Stmt.target = some name →
    run.2.memory.lookup? name = values[i]?
  /-- No statement fails because its output is bound already. -/
  ne_alreadyBound : ∀ e, run.1 = .error e → ∀ name, e.fault ≠ .alreadyBound name

/--
What a checked program prints and binds.  Take a program without complaints, in which inference
gives no node two types and no definition has the name of a print marker.  It compiles on every
machine that addresses its inputs, and a sequential run on an empty memory prints the values of the
print statements that it executes and nothing else.  Each value is bound to a variable with a name
of its own, under which it is found again, and no binding fails.
-/
theorem printed_and_bound (p : SoundProgram) (hc : p.infer.complaints = []) (hv : p.VisitsAgree)
    (hm : p.AvoidsMarkers) (b : Backend) :
    ∃ program : CompiledProgram, (p.AddressedBy b → ∀ limit, p.compile b limit = .ok program) ∧
      p.Leaves ((executed .sequential .empty program).map Prod.snd)
        (execute .sequential (.fresh (.buffer [])) program) := by
  rcases p.prepared hc hv with ⟨ls, hprep, hstmts, hsigs, -, hcompile, -⟩
  have hnames : ∀ l ∈ ls, l.stmt.AvoidsMarkers := by
    intro l hl
    exact hm l.stmt (hstmts ▸ List.mem_map_of_mem hl)
  rcases hprep.fresh hnames with ⟨hfresh, hnodup⟩
  have hprints : ∀ l ∈ ls, (l.statement b).prints = l.stmt.target.isNone := by
    intro l hl
    exact (hfresh l hl).isPrintMarker (hnames l hl)
  have houtputs : p.infer.signatures.map Signature.output =
      ls.map fun l => l.signature.output := by
    rw [← hsigs, List.map_map]
    rfl
  refine ⟨_, hcompile b, ?_⟩
  generalize hvalues : (executed .sequential .empty (ls.map (Lowered.statement b))).map Prod.snd =
    values
  rcases Lowered.execute_statements ls b .sequential hvalues.symm with ⟨hlength, hresult, hstate⟩
  refine ⟨?_, ?_, ?_, ?_, ?_, ?_, ?_⟩
  · rw [← hstmts, List.length_map]
    exact hlength
  · rw [← hstmts, List.length_map]
    exact hresult
  · rw [hstate, ← hstmts, Lowered.printedLines_zip hprints]
  · rw [hstate, houtputs]
  · rw [hstate]
    exact Lowered.nodup_zip_outputs hnodup values
  · intro i name h
    rw [← hstmts] at h
    rw [hstate]
    exact Lowered.lookup?_zip_outputs hnodup hfresh h values
  · intro e he name hfault
    have hinternal := hprep.not_isInternal hnames b (.buffer []) he
    rw [hfault] at hinternal
    contradiction

theorem printed_and_bound_sumOfSquares :
    sumOfSquares.infer.complaints = [] ∧ sumOfSquares.VisitsAgree ∧ sumOfSquares.AvoidsMarkers ∧
      ∀ b, ∃ program : CompiledProgram,
        (∀ limit, sumOfSquares.compile b limit = .ok program) ∧
        sumOfSquares.Leaves ((executed .sequential .empty program).map Prod.snd)
          (execute .sequential (.fresh (.buffer [])) program) := by
  have hc : sumOfSquares.infer.complaints = [] := by decide +kernel
  have hv : sumOfSquares.VisitsAgree := by decide +kernel
  have hm : sumOfSquares.AvoidsMarkers := by decide +kernel
  refine ⟨hc, hv, hm, fun b => ?_⟩
  rcases printed_and_bound sumOfSquares hc hv hm b with ⟨program, hcompile, hleaves⟩
  have haddressed : sumOfSquares.AddressedBy b := by cases b <;> decide +kernel
  exact ⟨program, hcompile haddressed, hleaves⟩

/-! ## Definitions with the names of print markers -/

/-- `var $print9 = 7`. -/
def markedDefinition : SoundProgram where
  program :=
    { arena := { nodes := #[⟨.int 7, .nowhere⟩], names := #["$print9"], params := #[] }
      stmts := #[⟨.define ⟨0⟩ ⟨0⟩, .nowhere⟩] }
  sound := by decide +kernel

/-- `var $print1 = 7` and `print 5`, which is the statement at position 1. -/
def takenMarker : SoundProgram where
  program :=
    { arena :=
        { nodes := #[⟨.int 7, .nowhere⟩, ⟨.int 5, .nowhere⟩]
          names := #["$print1"]
          params := #[] }
      stmts := #[⟨.define ⟨0⟩ ⟨0⟩, .nowhere⟩, ⟨.print ⟨1⟩, .nowhere⟩] }
  sound := by decide +kernel

/--
Nothing keeps definitions from the names of print markers, and inference has no complaint about
them.  The first program prints the value of a definition.  In the second one the print statement
finds its marker bound.
-/
theorem run_markers :
    markedDefinition.infer.complaints = [] ∧ markedDefinition.VisitsAgree ∧
      markedDefinition.run? .interp = some (.ok (), some ["7"]) ∧
      markedDefinition.run? .native = some (.ok (), some ["7"]) ∧
      takenMarker.infer.complaints = [] ∧ takenMarker.VisitsAgree ∧
      takenMarker.run? .interp =
        some (.error ⟨.nowhere, .alreadyBound "$print1"⟩, some ["7"]) ∧
      takenMarker.run? .native =
        some (.error ⟨.nowhere, .alreadyBound "$print1"⟩, some ["7"]) := by
  decide +kernel

end SoundProgram
end SeqCalc
