import SeqCalc.Proofs.Execution.Atomicity
import SeqCalc.Proofs.Execution.Layout
import SeqCalc.Proofs.Typing.Renaming

/-!
# Programs run alike under other names

Compiled code finds its arguments by position, so the names of parameters are gone from it, and the
names of variables are left in the inputs and the outputs of statements only.  A memory is searched
for variables, and a map that keeps the names in use apart finds in the renamed memory what was in
the old one.  The one thing that a run makes of a name itself is to print what print markers are
bound to; a renaming leaves these alone and makes no others.

Main results:

- `Lowered.Prepared.renamed`: renamed statements have the same code.
- `execute_renamed`: a run without internal faults, under other names.
- `SoundProgram.renaming_invariant`: parameters and variables of whole programs.
-/

namespace SeqCalc

/-! ## Signatures -/

/-- The signature with its variables under their new names. -/
def Signature.renamed (σ : String → String) (s : Signature) : Signature :=
  ⟨s.output.renamed σ, s.inputs.map (Variable.renamed σ)⟩

theorem Signature.renamed_id : renamed id = id := by
  funext s
  simp [renamed]

/-- A signature calls for a function of the same types. -/
theorem Signature.profile_renamed (σ : String → String) (s : Signature) :
    (s.renamed σ).profile = s.profile := by
  simp only [profile, renamed, List.map_map]
  rfl

/-- First uses are kept by a map that tells the items apart. -/
theorem firstUses_map {α β : Type} [DecidableEq α] [DecidableEq β] {f : α → β} {xs : List α}
    (hf : Set.InjOn f {x | x ∈ xs}) : firstUses (xs.map f) = (firstUses xs).map f := by
  induction xs with
  | nil => rfl
  | cons x xs ih =>
    rw [List.map_cons, firstUses, firstUses, List.map_cons,
      ih (hf.mono fun y hy => List.mem_cons_of_mem x hy), List.filter_map]
    congr 2
    apply List.filter_congr
    intro y hy
    have hsame : f y = f x ↔ y = x :=
      hf.eq_iff (List.mem_cons_of_mem x (mem_firstUses.1 hy)) List.mem_cons_self
    simp [hsame]

/-! ## Code -/

section Code

variable {params : NodeId → List String} {σ : String → String} {N : Set String}

/-- Slots stay where they are. -/
theorem HasSlot.renamed {inputs : List Variable} {v : Variable} {slot : Nat}
    (hσ : Set.InjOn σ N) (hinputs : ∀ w ∈ inputs, w.name ∈ N) (h : HasSlot inputs v slot) :
    HasSlot (inputs.map (Variable.renamed σ)) (v.renamed σ) slot := by
  have hv : v ∈ inputs := List.mem_of_getElem? h.2
  refine ⟨slot?_eq_some_iff.2 ⟨?_, ?_⟩, ?_⟩
  · rw [List.getElem?_map, List.getElem?_map, h.2]
    rfl
  · intro j hj hat
    rw [List.map_map, List.getElem?_map, Option.map_eq_some_iff] at hat
    rcases hat with ⟨w, hw, hname⟩
    have hsame : w.name = v.name := hσ (hinputs w (List.mem_of_getElem? hw)) (hinputs v hv) hname
    apply (slot?_eq_some_iff.1 h.1).2 j hj
    rw [List.getElem?_map, hw, ← hsame]
    rfl
  · rw [List.getElem?_map, h.2]
    rfl

/-- A renamed expression has the code that it had. -/
theorem Expr.Elaborates.renamed {Γ : Context} {inputs : List Variable} {e : Expr} {t : Ty}
    {code : Code} (h : Elaborates Γ inputs e t code) :
    e.Admits params → ∀ {σ : String → String} {N : Set String} {Δ : Context}, Set.InjOn σ N →
      (∀ v ∈ inputs, v.name ∈ N) → Γ.RenamesTo σ Δ →
      Elaborates Δ (inputs.map (Variable.renamed σ)) (e.renamed params σ) t code := by
  induction h with
  | int => exact fun _ _ _ _ _ _ _ => .int
  | float => exact fun _ _ _ _ _ _ _ => .float
  | ident hname hslot =>
    intro _ σ N Δ hσ hinputs hΔ
    exact .ident (hΔ _ _ hname) (hslot.renamed hσ hinputs)
  | plus hp _ ih =>
    intro hadmits σ N Δ hσ hinputs hΔ
    exact .plus hp (ih hadmits hσ hinputs hΔ)
  | neg hp _ ih =>
    intro hadmits σ N Δ hσ hinputs hΔ
    exact .neg hp (ih hadmits hσ hinputs hΔ)
  | binary hp hq _ _ ihl ihr =>
    intro hadmits σ N Δ hσ hinputs hΔ
    rw [admits_binary] at hadmits
    exact .binary hp hq (ihl hadmits.1 hσ hinputs hΔ) (ihr hadmits.2 hσ hinputs hΔ)
  | range _ _ ihf ihl =>
    intro hadmits σ N Δ hσ hinputs hΔ
    rw [admits_range] at hadmits
    exact .range (ihf hadmits.1 hσ hinputs hΔ) (ihl hadmits.2 hσ hinputs hΔ)
  | @map Γ inputs site inner seq body x t u s b ht hu _ _ ihs ihb =>
    intro hadmits σ N Δ hσ hinputs hΔ
    rw [admits_map] at hadmits
    rcases exists_param hadmits.2 with ⟨y, hy, hadmitsb⟩
    have hbody := ihb hadmitsb (Set.injOn_singleton (replacing [x] [y]) x) (by simp)
      (Context.renamesTo_one x y t)
    rw [List.map_singleton, Variable.renamed, replacing_one] at hbody
    rw [Expr.renamed, Expr.renamed, hy]
    exact .map ht hu (ihs hadmits.1 hσ hinputs hΔ) hbody
  | @reduce Γ inputs site inner seq neutral body acc x p q r s n b hp hq hne hr _ _ _ ihs ihn ihb =>
    intro hadmits σ N Δ hσ hinputs hΔ
    rw [admits_reduce] at hadmits
    rcases exists_params hadmits.2 with ⟨acc', x', hparams, hne', hadmitsb⟩
    have hacc := replacing_first acc x acc' x'
    have hx := replacing_second hne acc' x'
    have hpair : Set.InjOn (replacing [acc, x] [acc', x']) {acc, x} := by
      rw [Set.injOn_pair, hacc, hx]
      exact fun h => absurd h hne'
    have hbody := ihb hadmitsb hpair (by simp) (Context.renamesTo_two hne hne' _ _)
    rw [List.map_cons, List.map_singleton, Variable.renamed, Variable.renamed, hacc, hx] at hbody
    rw [Expr.renamed, Expr.renamed, hparams]
    exact .reduce hp hq hne' hr (ihs hadmits.1.1 hσ hinputs hΔ) (ihn hadmits.1.2 hσ hinputs hΔ)
      hbody

end Code

/-! ## Statements -/

/-- A renaming that keeps the names of a set apart and leaves print markers alone. -/
structure Separates (σ : String → String) (N : Set String) : Prop where
  injOn : Set.InjOn σ N
  printMarker : ∀ i t, (Variable.printMarker i t).renamed σ = Variable.printMarker i t

section Statements

variable {params : NodeId → List String} {σ : String → String} {N : Set String}
variable {index : Nat} {scope next : Scope}

/-- A statement without complaints has none under other names either. -/
theorem Stmt.infer_renamed (hσ : Separates σ N) {s : Stmt} {signature : Signature}
    (hscope : ∀ v ∈ scope.vars, v.name ∈ N) (htarget : ∀ name ∈ s.target, name ∈ N)
    (hadmits : s.value.Admits params) (hproper : scope.types.IsProper)
    (hvalue : (s.infer index scope).value = (signature, next))
    (hc : (s.infer index scope).findings.complaints = []) :
    ((s.renamed params σ).infer index (scope.renamed σ)).value =
        (signature.renamed σ, next.renamed σ) ∧
      ((s.renamed params σ).infer index (scope.renamed σ)).findings.complaints = [] ∧
      ((s.renamed params σ).infer index (scope.renamed σ)).findings.visits =
        (s.infer index scope).findings.visits := by
  rcases infer_cases hvalue hc with ⟨-, -, hinputs, hnext⟩
  have hold := hasType_of_infer hproper hvalue hc
  have hfollows := Scope.renamesTo_renamed hσ.injOn hscope
  have hnew := (hold.renamed hadmits hfollows).infer ⟨scope.renamed σ, false⟩ rfl
  have hvisits := hold.visits_renamed hadmits ⟨scope, false⟩ ⟨scope.renamed σ, false⟩ rfl hfollows
  have hvars : Set.InjOn (Variable.renamed σ)
      {v | v ∈ s.value.names.filterMap scope.lookup?} := by
    refine (Variable.injOn_renamed hσ.injOn).mono fun v hv => ?_
    rcases List.mem_filterMap.1 hv with ⟨name, -, hname⟩
    exact hscope v (List.mem_of_find?_eq_some hname)
  have hreads : firstUses
      ((s.value.renamed params σ).infer ⟨scope.renamed σ, false⟩).findings.reads =
        (signature.renamed σ).inputs := by
    rw [((s.value.renamed params σ).reads_infer).1, Signature.renamed, hinputs,
      s.value.reads_infer.1]
    simp only [Bool.false_eq_true, if_false]
    rw [Scope.reads_renamed hσ.injOn hscope hold, firstUses_map hvars]
  have hnext' : ((s.renamed params σ).target = none ∧
        (signature.renamed σ).output = .printMarker index (signature.renamed σ).output.ty ∧
          next.renamed σ = scope.renamed σ) ∨
      ((s.renamed params σ).target = some (signature.renamed σ).output.name ∧
        (scope.renamed σ).define (signature.renamed σ).output = .ok (next.renamed σ)) := by
    rcases hnext with ⟨hnone, hmarker, rfl⟩ | ⟨hsome, hdefine⟩
    · refine .inl ⟨by simp [Stmt.renamed, hnone], ?_, rfl⟩
      rw [Signature.renamed, hmarker, hσ.printMarker]
      rfl
    · refine .inr ⟨by simp [Stmt.renamed, hsome, Signature.renamed, Variable.renamed], ?_⟩
      exact Scope.define_renamed hσ.injOn hscope (htarget _ hsome) hdefine
  rcases infer_of_cases hnew.1 hnew.2 hreads hnext' with ⟨hvalue', hc'⟩
  rw [visits_inferStmt, visits_inferStmt]
  exact ⟨hvalue', hc', hvisits⟩

/-- The names in scope after a statement are those before it and the one that it defines. -/
theorem Stmt.names_of_infer {s : Stmt} {signature : Signature}
    (hscope : ∀ v ∈ scope.vars, v.name ∈ N) (htarget : ∀ name ∈ s.target, name ∈ N)
    (hvalue : (s.infer index scope).value = (signature, next))
    (hc : (s.infer index scope).findings.complaints = []) : ∀ v ∈ next.vars, v.name ∈ N := by
  rcases (infer_cases hvalue hc).2.2.2 with ⟨-, -, rfl⟩ | ⟨hsome, hdefine⟩
  · exact hscope
  · rcases Scope.define_eq_ok_iff.1 hdefine with ⟨-, rfl⟩
    exact List.forall_mem_append.2 ⟨hscope, by simpa using htarget _ hsome⟩

namespace Lowered

/-- The lowered statement with other names; its code has none. -/
def renamed (params : NodeId → List String) (σ : String → String) (l : Lowered) : Lowered :=
  ⟨l.stmt.renamed params σ, l.signature.renamed σ, l.body⟩

theorem FitsIn.renamed (hσ : Separates σ N) {l : Lowered} (hscope : ∀ v ∈ scope.vars, v.name ∈ N)
    (hadmits : l.stmt.value.Admits params) (h : l.FitsIn scope) :
    (l.renamed params σ).FitsIn (scope.renamed σ) := by
  have hinputs : ∀ v ∈ l.signature.inputs, v.name ∈ N := by
    intro v hv
    exact hscope v (List.mem_of_find?_eq_some (h.knows v hv))
  refine ⟨?_, ?_, ?_⟩
  · intro name t ht
    rcases Option.map_eq_some_iff.1 ht with ⟨v, hv, hty⟩
    rcases List.mem_map.1 (List.mem_of_find?_eq_some hv) with ⟨w, hw, rfl⟩
    have hname : σ w.name = name := Scope.name_of_lookup? hv
    rw [← hname, Scope.lookup?_renamed hσ.injOn hscope (hscope w hw), Option.map_eq_some_iff] at hv
    rcases hv with ⟨u, hu, hsame⟩
    have hut : u.ty = t := (congrArg (fun v => v.ty) hsame).trans hty
    exact h.proper w.name t (by rw [Scope.types, hu, Option.map_some, hut])
  · intro v hv
    rcases List.mem_map.1 hv with ⟨w, hw, rfl⟩
    rw [Variable.renamed, Scope.lookup?_renamed hσ.injOn hscope (hinputs w hw), h.knows w hw]
    rfl
  · exact h.elaborates.renamed hadmits hσ.injOn hinputs (Scope.renamesTo_renamed hσ.injOn hscope)

/-- Prepared statements are inferred without complaints, and they have their signatures. -/
theorem Prepared.inferStmts_eq {ls : List Lowered} (h : Prepared index scope ls) :
    (inferStmts index scope (ls.map stmt)).value = ls.map signature ∧
      (inferStmts index scope (ls.map stmt)).findings.complaints = [] := by
  induction h with
  | nil => exact ⟨rfl, rfl⟩
  | cons hvalue hc _ _ ih =>
    simp only [List.map_cons, inferStmts, Inferred.value_bind, Inferred.value_pure,
      Inferred.findings_bind, Inferred.findings_pure, Findings.complaints_append,
      Findings.complaints_empty, List.append_nil, hvalue, hc, ih, and_self]

/-- Under other names statements have the same code, and inference makes the same visits. -/
theorem Prepared.renamed (hσ : Separates σ N) {ls : List Lowered} (h : Prepared index scope ls) :
    (∀ v ∈ scope.vars, v.name ∈ N) → (∀ l ∈ ls, ∀ name ∈ l.stmt.target, name ∈ N) →
      (∀ l ∈ ls, l.stmt.value.Admits params) →
      Prepared index (scope.renamed σ) (ls.map (Lowered.renamed params σ)) ∧
        (inferStmts index (scope.renamed σ)
            ((ls.map stmt).map (Stmt.renamed params σ))).findings.visits =
          (inferStmts index scope (ls.map stmt)).findings.visits := by
  induction h with
  | nil => exact fun _ _ _ => ⟨.nil, rfl⟩
  | @cons index scope next l rest hvalue hc hfits _ ih =>
    intro hscope htargets hadmits
    have hadmitsl := hadmits l List.mem_cons_self
    have htarget := htargets l List.mem_cons_self
    rcases Stmt.infer_renamed hσ hscope htarget hadmitsl hfits.proper hvalue hc with
      ⟨hvalue', hc', hvisits⟩
    have hnext := Stmt.names_of_infer hscope htarget hvalue hc
    rcases ih hnext (fun k hk => htargets k (List.mem_cons_of_mem l hk))
      (fun k hk => hadmits k (List.mem_cons_of_mem l hk)) with ⟨hrest, hvisitsr⟩
    refine ⟨.cons hvalue' hc' (hfits.renamed hσ hscope hadmitsl) hrest, ?_⟩
    simp only [List.map_cons, inferStmts, Inferred.findings_bind, Findings.visits_append,
      hvalue', hvalue, hvisits, hvisitsr, Inferred.findings_pure]

/-- Inputs are variables in scope, so their names are those of definitions. -/
theorem Prepared.name_mem_of_input {ls : List Lowered} (h : Prepared index scope ls) :
    (∀ v ∈ scope.vars, v.name ∈ N) → (∀ l ∈ ls, ∀ name ∈ l.stmt.target, name ∈ N) →
      ∀ l ∈ ls, ∀ v ∈ l.signature.inputs, v.name ∈ N := by
  induction h with
  | nil => simp
  | @cons index scope next l rest hvalue hc hfits _ ih =>
    intro hscope htargets k hk v hv
    rcases List.mem_cons.1 hk with rfl | hk
    · exact hscope v (List.mem_of_find?_eq_some (hfits.knows v hv))
    · exact ih (Stmt.names_of_infer hscope (htargets l List.mem_cons_self) hvalue hc)
        (fun k hk => htargets k (List.mem_cons_of_mem l hk)) k hk v hv

end Lowered

end Statements

/-! ## Runs -/

/-- The compiled statement with its variables under their new names. -/
def Statement.renamed (σ : String → String) (s : Statement) : Statement :=
  { s with inputs := s.inputs.map (Variable.renamed σ), output := s.output.renamed σ }

theorem Statement.renamed_id : renamed id = id := by
  funext s
  simp [renamed]

theorem Lowered.statement_renamed (params : NodeId → List String) (σ : String → String)
    (b : Backend) (l : Lowered) :
    (l.renamed params σ).statement b = (l.statement b).renamed σ := by
  have hfunction : (l.renamed params σ).function = l.function :=
    congrArg (fun profile => (⟨profile, l.body⟩ : Function)) (l.signature.profile_renamed σ)
  rw [statement, hfunction]
  rfl

/-- The memory with its variables under their new names. -/
def Memory.renamed (σ : String → String) (m : Memory) : Memory :=
  ⟨m.bindings.map fun b => (b.1.renamed σ, b.2)⟩

/-- The state of a run with the variables of its memory under their new names. -/
def RunState.renamed (σ : String → String) (state : RunState) : RunState :=
  { state with memory := state.memory.renamed σ }

section Runs

variable {σ : String → String} {N : Set String} {mode : Mode} {m : Memory} {s : Statement}

namespace Memory

theorem renamed_concat (σ : String → String) (m : Memory) (v : Variable) (value : Value) :
    renamed σ ⟨m.bindings ++ [(v, value)]⟩ =
      ⟨(m.renamed σ).bindings ++ [(v.renamed σ, value)]⟩ := by
  simp [renamed]

/-- What a variable is bound to is found under its new name. -/
theorem find?_renamed (hσ : Set.InjOn σ N) (hm : ∀ b ∈ m.bindings, b.1.name ∈ N) {v : Variable}
    (hv : v.name ∈ N) : (m.renamed σ).find? (v.renamed σ) = m.find? v := by
  have hfind : m.bindings.find? (fun b => b.1.renamed σ == v.renamed σ) =
      m.bindings.find? fun b => b.1 == v := by
    apply List.find?_congr
    intro b hb
    have hsame : b.1.renamed σ = v.renamed σ ↔ b.1 = v :=
      (Variable.injOn_renamed hσ).eq_iff (hm b hb) hv
    rw [Bool.eq_iff_iff, beq_iff_eq, beq_iff_eq]
    exact hsame
  rw [find?, renamed, List.find?_map, Option.map_map]
  exact congrArg (Option.map Prod.snd) hfind

end Memory

/-- The names of what a statement reads and writes. -/
def Statement.NamesIn (N : Set String) (s : Statement) : Prop :=
  s.output.name ∈ N ∧ ∀ v ∈ s.inputs, v.name ∈ N

/-- The inputs are found under their new names. -/
theorem Statement.Reads.renamed (hσ : Set.InjOn σ N) (hm : ∀ b ∈ m.bindings, b.1.name ∈ N)
    (hs : s.NamesIn N) {args : List Value} (h : s.Reads m args) :
    (s.renamed σ).Reads (m.renamed σ) args := by
  have hnamed := (List.forall₂_and_left _ _).2 ⟨hs.2, h⟩
  refine List.forall₂_map_left_iff.2 (hnamed.imp ?_)
  rintro v value ⟨hv, hvalue⟩
  rw [Memory.find?_renamed hσ hm hv, hvalue]

/-- A statement that has no fault of the machine does the same under other names. -/
theorem Statement.exec_renamed (hσ : Set.InjOn σ N) (hm : ∀ b ∈ m.bindings, b.1.name ∈ N)
    (hs : s.NamesIn N) (hsound : ∀ e, (s.exec mode m).1 = .error e → e.isInternal = false) :
    (s.renamed σ).exec mode (m.renamed σ) =
      ((s.exec mode m).1.map fun x => (x.1, x.2.renamed σ), (s.exec mode m).2) := by
  cases hargs : s.arguments m with
  | error e =>
    rcases arguments_eq_error_iff.1 hargs with ⟨v, -, rfl⟩
    have hinternal := hsound (.unbound v.name) (by rw [exec, hargs])
    contradiction
  | ok args =>
    have hreads := (arguments_eq_ok_iff.1 hargs).renamed hσ hm hs
    have hargs' : (s.renamed σ).arguments (m.renamed σ) = .ok args :=
      arguments_eq_ok_iff.2 hreads
    have hfind : (m.renamed σ).find? (s.output.renamed σ) = m.find? s.output :=
      Memory.find?_renamed hσ hm hs.1
    unfold exec at hsound ⊢
    rw [hargs] at hsound ⊢
    rw [hargs']
    simp only [renamed] at hsound ⊢
    cases hresult : (s.callable mode args).result with
    | error e => rfl
    | ok value =>
      rw [hresult] at hsound
      cases hold : m.find? s.output with
      | some old =>
        have hinternal := hsound (.alreadyBound s.output.name) (by simp [Memory.bind, hold])
        contradiction
      | none =>
        rw [hold] at hfind
        rw [ok_bind, ok_bind, Memory.bind_of_find?_eq_none value hold,
          Memory.bind_of_find?_eq_none value hfind, ok_bind, ok_bind]
        have hbound := Memory.renamed_concat σ m s.output value
        exact congrArg (fun memory => (Except.ok (value, memory), _)) hbound.symm

/-- One statement of a run under other names. -/
theorem RunState.step_renamed (hσ : Set.InjOn σ N) {state : RunState}
    (hm : ∀ b ∈ state.memory.bindings, b.1.name ∈ N) (hs : s.NamesIn N)
    (hprints : (s.renamed σ).prints = s.prints)
    (hsound : ∀ e, (state.step mode s).1 = .error e → e.fault.isInternal = false) :
    (state.renamed σ).step mode (s.renamed σ) =
      ((state.step mode s).1, (state.step mode s).2.renamed σ) := by
  by_cases hcancelled : state.cancelled = true
  · have hcancelled' : (state.renamed σ).cancelled = true := hcancelled
    rw [step, step, if_pos hcancelled, if_pos hcancelled']
    rfl
  · have hcancelled' : ¬ (state.renamed σ).cancelled = true := hcancelled
    rw [step, if_neg hcancelled, complete] at hsound
    rw [step, step, if_neg hcancelled, if_neg hcancelled', complete, complete]
    cases hexec : s.exec mode state.memory with
    | mk result cancels =>
      rw [hexec] at hsound
      have hfault : ∀ e, (s.exec mode state.memory).1 = .error e → e.isInternal = false := by
        intro e he
        rw [hexec] at he
        subst he
        exact hsound ⟨s.span, e⟩ rfl
      have hrenamed := s.exec_renamed hσ hm hs hfault
      rw [hexec] at hrenamed
      have hmemory : (state.renamed σ).memory = state.memory.renamed σ := rfl
      rw [hmemory, hrenamed, hprints]
      cases result with
      | error e => rfl
      | ok bound => rfl

/-- A statement that is executed adds a binding for its output. -/
theorem RunState.names_of_step {state next : RunState}
    (hm : ∀ b ∈ state.memory.bindings, b.1.name ∈ N) (hs : s.NamesIn N)
    (h : state.step mode s = (.ok (), next)) : ∀ b ∈ next.memory.bindings, b.1.name ∈ N := by
  rw [step] at h
  by_cases hcancelled : state.cancelled = true
  · rw [if_pos hcancelled] at h
    simp at h
  · rw [if_neg hcancelled, complete] at h
    cases hexec : s.exec mode state.memory with
    | mk result cancels =>
      rw [hexec] at h
      cases result with
      | error e => simp at h
      | ok bound =>
        rcases bound with ⟨value, memory⟩
        cases h
        rw [Statement.memory_of_exec (congrArg Prod.fst hexec)]
        exact List.forall_mem_append.2 ⟨hm, by simpa using hs.1⟩

/-- Under other names a run does the same, unless it has a fault of the machine. -/
theorem execute_renamed (hσ : Set.InjOn σ N) (mode : Mode) (program : CompiledProgram) :
    (∀ s ∈ program, s.NamesIn N) → (∀ s ∈ program, (s.renamed σ).prints = s.prints) →
      ∀ state : RunState, (∀ b ∈ state.memory.bindings, b.1.name ∈ N) →
        (∀ e, (execute mode state program).1 = .error e → e.fault.isInternal = false) →
        execute mode (state.renamed σ) (program.map (Statement.renamed σ)) =
          ((execute mode state program).1, (execute mode state program).2.renamed σ) := by
  -- the names in memory stay among those that are kept apart
  induction program with
  | nil => exact fun _ _ _ _ _ => rfl
  | cons s rest ih =>
    intro hnames hprints state hm hsound
    have hs := hnames s List.mem_cons_self
    rw [execute_cons] at hsound ⊢
    have hfault : ∀ e, (state.step mode s).1 = .error e → e.fault.isInternal = false := by
      intro e he
      apply hsound e
      cases hresult : state.step mode s with
      | mk result next =>
        rw [hresult] at he
        subst he
        rfl
    have hstep := RunState.step_renamed hσ hm hs (hprints s List.mem_cons_self) hfault
    rw [List.map_cons, execute_cons, hstep]
    cases hresult : state.step mode s with
    | mk result next =>
      rw [hresult] at hsound
      cases result with
      | error e => rfl
      | ok u =>
        exact ih (fun t ht => hnames t (List.mem_cons_of_mem s ht))
          (fun t ht => hprints t (List.mem_cons_of_mem s ht)) next
          (RunState.names_of_step hm hs hresult) hsound

end Runs

/-! ## Programs -/

/-- A name that is kept for print markers. -/
def IsMarked (name : String) : Prop :=
  Variable.markerStem.toList.isPrefixOf name.toList = true

instance : DecidablePred IsMarked :=
  fun name => inferInstanceAs (Decidable (Variable.markerStem.toList.isPrefixOf name.toList = true))

theorem isMarked_printMarker (i : Nat) (t : Ty) : IsMarked (Variable.printMarker i t).name :=
  Variable.isPrintMarker_printMarker i t

namespace SoundProgram

variable {p : SoundProgram} {params : NodeId → List String} {σ : String → String}

/-- The names that the statements of a program define. -/
def defined (p : SoundProgram) : List String :=
  p.stmts.filterMap Stmt.target

/--
A renaming of the variables of a program: it keeps their names apart, and it keeps them out of the
names of print markers, which it leaves alone.
-/
structure Renaming (p : SoundProgram) (σ : String → String) : Prop where
  injOn : Set.InjOn σ {name | name ∈ p.defined}
  not_isMarked : ∀ name ∈ p.defined, ¬ IsMarked (σ name)
  eq_of_isMarked : ∀ name, IsMarked name → σ name = name

theorem mem_defined {s : Stmt} (hs : s ∈ p.stmts) {name : String} (h : s.target = some name) :
    name ∈ p.defined :=
  List.mem_filterMap.2 ⟨s, hs, h⟩

/-- The names of all variables of a program, and those of print markers. -/
def usedNames (p : SoundProgram) : Set String :=
  {name | name ∈ p.defined ∨ IsMarked name}

theorem Renaming.separates (h : p.Renaming σ) : Separates σ p.usedNames := by
  refine ⟨?_, ?_⟩
  · intro x hx y hy hsame
    rcases hx with hx | hx
    · rcases hy with hy | hy
      · exact h.injOn hx hy hsame
      · rw [h.eq_of_isMarked y hy] at hsame
        exact absurd (hsame ▸ hy) (h.not_isMarked x hx)
    · rcases hy with hy | hy
      · rw [h.eq_of_isMarked x hx] at hsame
        exact absurd (hsame ▸ hx) (h.not_isMarked y hy)
      · rw [h.eq_of_isMarked x hx, h.eq_of_isMarked y hy] at hsame
        exact hsame
  · intro i t
    rw [Variable.renamed, h.eq_of_isMarked _ (isMarked_printMarker i t)]

/-- A program that differs from another one in the names of its variables. -/
structure SameUpTo (σ : String → String) (p q : SoundProgram) : Prop where
  /-- Every expression has the same type. -/
  table_eq : q.infer.table = p.infer.table
  /-- Statements read and write the renamed variables. -/
  signatures_eq : q.infer.signatures = p.infer.signatures.map (Signature.renamed σ)
  complaints_eq : q.infer.complaints = []
  /--
  A machine that addresses the inputs takes both programs, to statements with the same functions,
  and a sequential run has the same result, prints the same lines and leaves the same values under
  the new names.
  -/
  run_eq : ∀ b, ∃ program : CompiledProgram,
    (p.AddressedBy b → ∀ limit, p.compile b limit = .ok program) ∧
    (p.AddressedBy b → ∀ limit, q.compile b limit = .ok (program.map (Statement.renamed σ))) ∧
    ∀ sink, execute .sequential (.fresh sink) (program.map (Statement.renamed σ)) =
      ((execute .sequential (.fresh sink) program).1,
        (execute .sequential (.fresh sink) program).2.renamed σ)

/-- The statements of a program that is renamed are those of the original, renamed. -/
theorem Renaming.prepared (hσ : p.Renaming σ) {ls : List Lowered}
    (hprep : Lowered.Prepared 0 .empty ls) (hstmts : ls.map Lowered.stmt = p.stmts)
    (hadmits : ∀ s ∈ p.stmts, s.value.Admits params) :
    Lowered.Prepared 0 .empty (ls.map (Lowered.renamed params σ)) ∧
      (inferStmts 0 .empty (p.stmts.map (Stmt.renamed params σ))).findings.visits = p.visits := by
  have hmem : ∀ l ∈ ls, l.stmt ∈ p.stmts := fun l hl => hstmts ▸ List.mem_map_of_mem hl
  have hrenamed := hprep.renamed hσ.separates (by simp [Scope.empty])
    (fun l hl name hname => .inl (mem_defined (hmem l hl) hname))
    (fun l hl => hadmits l.stmt (hmem l hl))
  rw [hstmts] at hrenamed
  exact hrenamed

/-- Statements read and write variables of the program and print markers. -/
theorem namesIn_usedNames {ls : List Lowered} (hprep : Lowered.Prepared 0 .empty ls)
    (hstmts : ls.map Lowered.stmt = p.stmts) (hm : p.AvoidsMarkers) (b : Backend) :
    ∀ s ∈ ls.map (Lowered.statement b), s.NamesIn p.usedNames := by
  have hmem : ∀ l ∈ ls, l.stmt ∈ p.stmts := fun l hl => hstmts ▸ List.mem_map_of_mem hl
  have htargets : ∀ l ∈ ls, ∀ name ∈ l.stmt.target, name ∈ p.usedNames :=
    fun l hl name hname => .inl (mem_defined (hmem l hl) hname)
  have hinputs := hprep.name_mem_of_input (by simp [Scope.empty]) htargets
  have hfresh := (hprep.fresh fun l hl => hm l.stmt (hmem l hl)).1
  intro s hs
  rcases List.mem_map.1 hs with ⟨l, hl, rfl⟩
  refine ⟨?_, hinputs l hl⟩
  rcases hfresh l hl with ⟨-, i, t, -, houtput⟩ | ⟨htarget, -⟩
  · right
    have hmarked := isMarked_printMarker i t
    rw [← houtput] at hmarked
    exact hmarked
  · exact htargets l hl _ htarget

/-- A renaming makes no print markers and keeps those that there are. -/
theorem Renaming.isPrintMarker_renamed (hσ : p.Renaming σ) (hm : p.AvoidsMarkers) {v : Variable}
    (hv : v.name ∈ p.usedNames) : (v.renamed σ).isPrintMarker = v.isPrintMarker := by
  rcases hv with hv | hv
  · rcases List.mem_filterMap.1 hv with ⟨s, hs, htarget⟩
    have hold : v.isPrintMarker = false := hm s hs v.name htarget
    have hnew : ¬ (v.renamed σ).isPrintMarker = true := hσ.not_isMarked v.name hv
    rw [hold]
    exact Bool.eq_false_of_not_eq_true hnew
  · rw [Variable.renamed, hσ.eq_of_isMarked v.name hv]

/-- Renamed programs are the same up to names. -/
theorem RenamedTo.sameUpTo {q : SoundProgram} (h : p.RenamedTo params σ q.program)
    (hσ : p.Renaming σ) (hc : p.infer.complaints = []) (hv : p.VisitsAgree)
    (hm : p.AvoidsMarkers) : SameUpTo σ p q := by
  rcases p.prepared hc hv with ⟨ls, hprep, hstmts, hsigs, -, hcompile, -⟩
  rcases hσ.prepared hprep hstmts h.admits with ⟨hprep', hvisits⟩
  rw [← h.stmts_eq] at hvisits
  have hqstmts : (ls.map (Lowered.renamed params σ)).map Lowered.stmt = q.stmts := by
    rw [h.stmts_eq, ← hstmts, List.map_map, List.map_map]
    rfl
  have hinfer := hprep'.inferStmts_eq
  rw [hqstmts] at hinfer
  have hsize := Program.size_of_nameless h.nameless_eq
  have hqv : q.VisitsAgree := by
    rw [VisitsAgree, visits, hvisits]
    exact hv
  have hqc : q.infer.complaints = [] := hinfer.2
  rcases q.prepared hqc hqv with ⟨ms, hms, hmstmts, -, -, hqcompile, -⟩
  have hqsigs : q.infer.signatures = p.infer.signatures.map (Signature.renamed σ) := by
    rw [← hsigs, List.map_map]
    refine hinfer.1.trans ?_
    rw [List.map_map]
    rfl
  have haddressed : ∀ b, p.AddressedBy b → q.AddressedBy b := by
    intro b h s hs
    rw [hqsigs] at hs
    rcases List.mem_map.1 hs with ⟨old, hold, rfl⟩
    rw [Signature.renamed, List.length_map]
    exact h old hold
  refine ⟨?_, hqsigs, hqc, ?_⟩
  · rw [infer, infer]
    dsimp only
    rw [hvisits, hsize]
    rfl
  · intro b
    have hstatements : ms.map (Lowered.statement b) =
        (ls.map (Lowered.statement b)).map (Statement.renamed σ) := by
      have hsame : ms.map (fun l => l.stmt.anonymous) =
          (ls.map (Lowered.renamed params σ)).map fun l => l.stmt.anonymous := by
        have hboth := congrArg (List.map Stmt.anonymous) (hmstmts.trans hqstmts.symm)
        rw [List.map_map, List.map_map] at hboth
        exact hboth
      rw [hms.map_statement_congr hprep' hsame b, List.map_map, List.map_map]
      exact List.map_congr_left fun l _ => l.statement_renamed params σ b
    have hnames := namesIn_usedNames hprep hstmts hm b
    refine ⟨_, hcompile b, fun h limit => ?_, fun sink => ?_⟩
    · rw [hqcompile b (haddressed b h), hstatements]
    · have hlnames : ∀ l ∈ ls, l.stmt.AvoidsMarkers :=
        fun l hl => hm l.stmt (hstmts ▸ List.mem_map_of_mem hl)
      exact execute_renamed hσ.separates.injOn .sequential _ hnames
        (fun s hs => hσ.isPrintMarker_renamed hm (hnames s hs).1) (.fresh sink)
        (by simp [RunState.fresh, Memory.empty]) fun e he => hprep.not_isInternal hlnames b sink he

/-- If no variable is renamed, inference says the same. -/
theorem SameUpTo.infer_eq {q : SoundProgram} (h : SameUpTo id p q) (hc : p.infer.complaints = []) :
    q.infer = p.infer := by
  have hsignatures := h.signatures_eq
  rw [Signature.renamed_id, List.map_id] at hsignatures
  calc q.infer = ⟨q.infer.table, q.infer.signatures, q.infer.complaints⟩ := rfl
    _ = ⟨p.infer.table, p.infer.signatures, p.infer.complaints⟩ := by
      rw [h.table_eq, hsignatures, h.complaints_eq, hc]
    _ = p.infer := rfl

theorem renaming_id (hm : p.AvoidsMarkers) : p.Renaming id := by
  refine ⟨Set.injOn_id _, ?_, fun name _ => rfl⟩
  intro name hname hmarked
  rcases List.mem_filterMap.1 hname with ⟨s, hs, htarget⟩
  have hunmarked : ¬ IsMarked name := Bool.not_eq_true _ ▸ hm s hs name htarget
  exact hunmarked hmarked

/-- One variable may be called by any name that no other one has and no print marker can have. -/
theorem renaming_update (hm : p.AvoidsMarkers) {x y : String} (hx : x ∈ p.defined)
    (hy : y ∉ p.defined) (hymarked : ¬ IsMarked y) :
    p.Renaming (Function.update id x y) := by
  have hid := renaming_id hm
  refine ⟨?_, ?_, ?_⟩
  · intro a ha b hb hsame
    by_cases hax : a = x
    · by_cases hbx : b = x
      · rw [hax, hbx]
      · rw [hax, Function.update_self, Function.update_of_ne hbx] at hsame
        exact absurd (hsame ▸ hb) hy
    · by_cases hbx : b = x
      · rw [hbx, Function.update_self, Function.update_of_ne hax] at hsame
        exact absurd (hsame ▸ ha) hy
      · rw [Function.update_of_ne hax, Function.update_of_ne hbx] at hsame
        exact hsame
  · intro name hname
    by_cases hnx : name = x
    · rw [hnx, Function.update_self]
      exact hymarked
    · rw [Function.update_of_ne hnx]
      exact hid.not_isMarked name hname
  · intro name hmarked
    apply Function.update_of_ne
    rintro rfl
    exact hid.not_isMarked name hx hmarked

/--
Names do not matter.  Take a program without complaints, in which inference gives no node two types,
as in every forest, and no definition has the name of a print marker.  Give the parameters of its
function literals any names, pairwise distinct for each function literal, and let the names of its
own body follow.  The new program has no flaws, inference says the same of it, and it compiles to
the same statements, so it runs like the old one.  Call one of its variables by any name that no
other one has and no print marker can have, wherever it is used outside function literals.  Then the
new program has no flaws either, and it is the same up to this name.
-/
theorem renaming_invariant (p : SoundProgram) (hc : p.infer.complaints = []) (hv : p.VisitsAgree)
    (hm : p.AvoidsMarkers) (params : NodeId → List String) :
    (∀ q : Program, p.RenamedTo params id q → ∃ hq : q.validate = [],
      (⟨q, hq⟩ : SoundProgram).infer = p.infer ∧
        ∀ b, p.AddressedBy b → ∃ program : CompiledProgram, ∀ limit,
          p.compile b limit = .ok program ∧
          (⟨q, hq⟩ : SoundProgram).compile b limit = .ok program) ∧
      ∀ x ∈ p.defined, ∀ y ∉ p.defined, ¬ IsMarked y →
        ∀ q : Program, p.RenamedTo params (Function.update id x y) q →
          ∃ hq : q.validate = [], SameUpTo (Function.update id x y) p ⟨q, hq⟩ := by
  refine ⟨?_, ?_⟩
  · intro q h
    have hsame : SameUpTo id p ⟨q, h.validate_eq_nil⟩ :=
      RenamedTo.sameUpTo h (renaming_id hm) hc hv hm
    refine ⟨h.validate_eq_nil, hsame.infer_eq hc, fun b haddressed => ?_⟩
    rcases hsame.run_eq b with ⟨program, hold, hnew, -⟩
    rw [Statement.renamed_id, List.map_id] at hnew
    exact ⟨program, fun limit => ⟨hold haddressed limit, hnew haddressed limit⟩⟩
  · intro x hx y hy hymarked q h
    exact ⟨h.validate_eq_nil, RenamedTo.sameUpTo h (renaming_update hm hx hy hymarked) hc hv hm⟩

/--
`xs = map({1, 3}, x -> x * reduce(map({1, 2}, y -> y + 1), 0, (a, b) -> a - b))` and
`print reduce(xs, 0.5, (x, y) -> x + y)`, with the names for its variable and its parameters by
their positions among `xs`, `x`, `y`, `a` and `b`.
-/
def nestedLiterals (xs x y a b acc item : UInt32) : Program where
  arena :=
    { nodes := #[
        ⟨.int 1, .nowhere⟩, ⟨.int 3, .nowhere⟩, ⟨.range ⟨0⟩ ⟨1⟩, .nowhere⟩,
        ⟨.ident ⟨x⟩, .nowhere⟩,
        ⟨.int 1, .nowhere⟩, ⟨.int 2, .nowhere⟩, ⟨.range ⟨4⟩ ⟨5⟩, .nowhere⟩,
        ⟨.ident ⟨y⟩, .nowhere⟩, ⟨.int 1, .nowhere⟩, ⟨.binary .add ⟨7⟩ ⟨8⟩, .nowhere⟩,
        ⟨.lambda ⟨1, 1⟩ ⟨9⟩, .nowhere⟩, ⟨.map ⟨6⟩ ⟨10⟩, .nowhere⟩, ⟨.int 0, .nowhere⟩,
        ⟨.ident ⟨a⟩, .nowhere⟩, ⟨.ident ⟨b⟩, .nowhere⟩, ⟨.binary .sub ⟨13⟩ ⟨14⟩, .nowhere⟩,
        ⟨.lambda ⟨2, 2⟩ ⟨15⟩, .nowhere⟩, ⟨.reduce ⟨11⟩ ⟨12⟩ ⟨16⟩, .nowhere⟩,
        ⟨.binary .mul ⟨3⟩ ⟨17⟩, .nowhere⟩, ⟨.lambda ⟨0, 1⟩ ⟨18⟩, .nowhere⟩,
        ⟨.map ⟨2⟩ ⟨19⟩, .nowhere⟩,
        ⟨.ident ⟨xs⟩, .nowhere⟩, ⟨.float 0x3FE0000000000000, .nowhere⟩,
        ⟨.ident ⟨acc⟩, .nowhere⟩, ⟨.ident ⟨item⟩, .nowhere⟩,
        ⟨.binary .add ⟨23⟩ ⟨24⟩, .nowhere⟩, ⟨.lambda ⟨4, 2⟩ ⟨25⟩, .nowhere⟩,
        ⟨.reduce ⟨21⟩ ⟨22⟩ ⟨26⟩, .nowhere⟩]
      names := #["xs", "x", "y", "a", "b"]
      params := #[⟨x⟩, ⟨y⟩, ⟨a⟩, ⟨b⟩, ⟨acc⟩, ⟨item⟩] }
  stmts := #[⟨.define ⟨xs⟩ ⟨20⟩, .nowhere⟩, ⟨.print ⟨27⟩, .nowhere⟩]

/-- Parameters for the four function literals of `nestedLiterals`, by their nodes. -/
def literalParams (outer inner pair last : List String) (id : NodeId) : List String :=
  if id = ⟨19⟩ then outer else if id = ⟨10⟩ then inner else if id = ⟨16⟩ then pair else last

/--
Both parameters that are on their own may be called like the variable `xs`, and pairs may change
places; and `xs` may be called like a parameter of both statements.
-/
theorem renaming_invariant_nestedLiterals :
    ∃ p : SoundProgram, p.program = nestedLiterals 0 1 2 3 4 1 2 ∧ p.infer.complaints = [] ∧
      p.VisitsAgree ∧ p.AvoidsMarkers ∧
      p.RenamedTo (literalParams ["xs"] ["xs"] ["b", "a"] ["y", "x"]) id
        (nestedLiterals 0 0 0 4 3 2 1) ∧
      p.RenamedTo (literalParams ["x"] ["y"] ["a", "b"] ["x", "y"]) (Function.update id "xs" "x")
        (nestedLiterals 1 1 2 3 4 1 2) ∧
      (∃ q : SoundProgram, q.program = nestedLiterals 0 0 0 4 3 2 1 ∧ q.infer = p.infer ∧
        q.compile .interp none = p.compile .interp none) ∧
      ∃ q : SoundProgram, q.program = nestedLiterals 1 1 2 3 4 1 2 ∧
        SameUpTo (Function.update id "xs" "x") p q := by
  let p : SoundProgram := ⟨nestedLiterals 0 1 2 3 4 1 2, by decide +kernel⟩
  have hc : p.infer.complaints = [] := by decide +kernel
  have hv : p.VisitsAgree := by decide +kernel
  have hm : p.AvoidsMarkers := by decide +kernel
  have hparams : p.RenamedTo (literalParams ["xs"] ["xs"] ["b", "a"] ["y", "x"]) id
      (nestedLiterals 0 0 0 4 3 2 1) := by decide +kernel
  have hvariable : p.RenamedTo (literalParams ["x"] ["y"] ["a", "b"] ["x", "y"])
      (Function.update id "xs" "x") (nestedLiterals 1 1 2 3 4 1 2) := by decide +kernel
  rcases (renaming_invariant p hc hv hm _).1 _ hparams with ⟨hq, hinfer, hcompile⟩
  rcases (renaming_invariant p hc hv hm _).2 "xs" (by decide +kernel) "x" (by decide +kernel)
    (by decide +kernel) _ hvariable with ⟨hq', hsame⟩
  rcases hcompile .interp p.addressedBy_interp with ⟨program, hprogram⟩
  exact ⟨p, rfl, hc, hv, hm, hparams, hvariable,
    ⟨⟨_, hq⟩, rfl, hinfer, (hprogram none).2.trans (hprogram none).1.symm⟩, ⟨_, hq'⟩, rfl, hsame⟩

end SoundProgram
end SeqCalc
