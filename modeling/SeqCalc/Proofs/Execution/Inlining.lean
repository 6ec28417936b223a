import SeqCalc.Proofs.Execution.Printing
import SeqCalc.Proofs.Semantics.Inlining

/-!
# Variables are transparent

A variable stands for the expression that defines it.  Scopes only grow and memory is written once,
so at every later statement the expression still has the type and the value that it had where the
variable was defined.  If an occurrence of the variable is replaced by a copy of the expression, the
statement reads other inputs in other slots, and it computes the same.

Main results:

- `Lowered.Prepared.inlined`: types and signatures of statements with a copy in them.
- `Inlining.Holds.after`: what a statement that is executed leaves to the next ones.
- `SoundProgram.variables_transparent`: whole programs.
-/

namespace SeqCalc

/-! ## Statements -/

/-- The statement with the copy in place of the occurrence. -/
def Stmt.inlined (k : Inlining) (s : Stmt) : Stmt :=
  { s with value := s.value.inlined k }

/-- If the statement defines the variable, the copy is one of its expression. -/
def Stmt.DefinesCopy (k : Inlining) (s : Stmt) : Prop :=
  s.target = some k.name → s.value.anonymous = k.copy.anonymous

/-- The copy has the type of the variable, if that is in scope. -/
def Inlining.TypedIn (k : Inlining) (scope : Scope) : Prop :=
  ∀ t, scope.types k.name = some t → k.copy.HasType scope.types t

theorem Inlining.typedIn_empty (k : Inlining) : k.TypedIn .empty := by
  intro t ht
  contradiction

theorem Inlining.holds_empty (k : Inlining) (ρ : Bindings) : k.Holds .empty ρ := by
  intro t ht
  contradiction

section Typing

variable {k : Inlining} {index : Nat} {scope next : Scope} {s : Stmt} {signature : Signature}

/-- What is in scope stays in scope. -/
theorem Stmt.types_of_infer (hvalue : (s.infer index scope).value = (signature, next))
    (hc : (s.infer index scope).findings.complaints = []) {name : String} {t : Ty}
    (h : scope.types name = some t) : next.types name = some t := by
  rcases (infer_cases hvalue hc).2.2.2 with ⟨-, -, rfl⟩ | ⟨-, hdefine⟩
  · exact h
  · have hne : name ≠ signature.output.name := by
      rintro rfl
      rw [(Scope.define_eq_ok_iff.1 hdefine).1] at h
      contradiction
    rw [Scope.types_define hdefine, Context.extend_of_ne hne]
    exact h

/-- A variable that a statement brings into scope is the one that it defines. -/
theorem Stmt.eq_of_types (hvalue : (s.infer index scope).value = (signature, next))
    (hc : (s.infer index scope).findings.complaints = []) {name : String} {t : Ty}
    (h : next.types name = some t) :
    scope.types name = some t ∨
      s.target = some name ∧ signature.output = ⟨name, t⟩ ∧ scope.define ⟨name, t⟩ = .ok next := by
  rcases (infer_cases hvalue hc).2.2.2 with ⟨-, -, rfl⟩ | ⟨htarget, hdefine⟩
  · exact .inl h
  · rw [Scope.types_define hdefine] at h
    by_cases hname : name = signature.output.name
    · subst hname
      rw [Context.extend_self, Option.some.injEq] at h
      subst h
      exact .inr ⟨htarget, rfl, hdefine⟩
    · rw [Context.extend_of_ne hname] at h
      exact .inl h

/-- The copy is typed where the variable is defined, and from there on. -/
theorem Inlining.TypedIn.after (h : k.TypedIn scope) (hproper : scope.types.IsProper)
    (hdef : s.DefinesCopy k) (hvalue : (s.infer index scope).value = (signature, next))
    (hc : (s.infer index scope).findings.complaints = []) : k.TypedIn next := by
  intro t ht
  have hwider : ∀ name u, scope.types name = some u → next.types name = some u :=
    fun _ _ hu => Stmt.types_of_infer hvalue hc hu
  rcases Stmt.eq_of_types hvalue hc ht with hold | ⟨htarget, houtput, -⟩
  · exact (h t hold).widen hwider
  · have hvaluety := Stmt.hasType_of_infer hproper hvalue hc
    rw [houtput] at hvaluety
    exact (hvaluety.of_anonymous_eq hproper (hdef htarget)).widen hwider

/-- A statement writes what it wrote, and its nodes have the types that they had. -/
theorem Stmt.infer_inlined (hproper : scope.types.IsProper) (hfits : s.value.Fits k)
    (hcopy : k.TypedIn scope) (hvalue : (s.infer index scope).value = (signature, next))
    (hc : (s.infer index scope).findings.complaints = []) :
    (∃ inputs, ((s.inlined k).infer index scope).value = (⟨signature.output, inputs⟩, next)) ∧
      ((s.inlined k).infer index scope).findings.complaints = [] ∧
      k.Carries (s.infer index scope).findings.visits
        ((s.inlined k).infer index scope).findings.visits := by
  have hold := hasType_of_infer hproper hvalue hc
  have hnew := (hold.inlined hfits hcopy).infer ⟨scope, false⟩ rfl
  have hnext := (infer_cases hvalue hc).2.2.2
  have hinfer : ((s.inlined k).infer index scope).value = (⟨signature.output, firstUses
        ((s.value.inlined k).infer ⟨scope, false⟩).findings.reads⟩, next) ∧
      ((s.inlined k).infer index scope).findings.complaints = [] :=
    infer_of_cases hnew.1 hnew.2 rfl hnext
  refine ⟨⟨_, hinfer.1⟩, hinfer.2, ?_⟩
  rw [visits_inferStmt, visits_inferStmt]
  exact hold.carries_visits hfits hcopy ⟨scope, false⟩ rfl

/-- Statements with a copy in them are typed, with the same outputs. -/
theorem Lowered.Prepared.inlined {ls : List Lowered} (h : Prepared index scope ls) :
    (∀ l ∈ ls, l.stmt.value.Fits k) → (∀ l ∈ ls, l.stmt.DefinesCopy k) → k.TypedIn scope →
      (inferStmts index scope ((ls.map stmt).map (Stmt.inlined k))).findings.complaints = [] ∧
        (inferStmts index scope ((ls.map stmt).map (Stmt.inlined k))).value.map Signature.output =
          ls.map (fun l => l.signature.output) ∧
        k.Carries (inferStmts index scope (ls.map stmt)).findings.visits
          (inferStmts index scope ((ls.map stmt).map (Stmt.inlined k))).findings.visits := by
  induction h with
  | nil =>
    intro _ _ _
    exact ⟨rfl, rfl, fun v hv => absurd hv (List.not_mem_nil)⟩
  | @cons index scope next l rest hvalue hc hl _ ih =>
    intro hfits hdefs hcopy
    rcases Stmt.infer_inlined hl.proper (hfits l List.mem_cons_self) hcopy hvalue hc with
      ⟨⟨inputs, hvalue'⟩, hc', hvisits⟩
    have hcopy' := hcopy.after hl.proper (hdefs l List.mem_cons_self) hvalue hc
    rcases ih (fun m hm => hfits m (List.mem_cons_of_mem l hm))
      (fun m hm => hdefs m (List.mem_cons_of_mem l hm)) hcopy' with ⟨hcr, houtputs, hvisitsr⟩
    simp only [List.map_cons, inferStmts, Inferred.findings_bind, Inferred.value_bind,
      Findings.complaints_append, Findings.visits_append, hvalue, hvalue', hc', hcr, houtputs,
      Inferred.findings_pure, Inferred.value_pure, Findings.complaints_empty,
      Findings.visits_empty, List.append_nil, true_and]
    exact hvisits.append hvisitsr

/-- Inference of prepared statements visits all their nodes. -/
theorem Lowered.Prepared.map_fst_visits {ls : List Lowered} (h : Prepared index scope ls) :
    (inferStmts index scope (ls.map stmt)).findings.visits.map Prod.fst =
      (ls.map stmt).flatMap fun s => s.value.ids := by
  induction h with
  | nil => rfl
  | @cons index scope next l rest hvalue hc hl _ ih =>
    have htyped := Stmt.hasType_of_infer hl.proper hvalue hc
    have hvisits := htyped.map_fst_visits ⟨scope, false⟩ rfl
    simp [inferStmts, hvalue, visits_inferStmt, hvisits, ih]

end Typing

/-! ## Memories -/

namespace Memory

/-- The values of the variables in scope, by name. -/
def valuesIn (scope : Scope) (m : Memory) : Bindings :=
  fun name => (scope.lookup? name).bind m.find?

variable {index : Nat} {scope next : Scope} {m : Memory} {s : Stmt} {signature : Signature}

/-- Inputs are bound to what their names stand for. -/
theorem Ready.binds (h : Ready index scope m) {inputs : List Variable}
    (hknows : scope.Knows inputs) :
    ∃ args, inputs.mapM m.get = .ok args ∧ (m.valuesIn scope).Binds inputs args := by
  apply exists_mapM_eq_ok
  intro v hv
  have hlookup := hknows v hv
  rcases h.bound v (List.mem_of_find?_eq_some hlookup) with ⟨value, hvalue, htyped⟩
  have hname : m.valuesIn scope v.name = some value := by
    rw [valuesIn, hlookup, Option.bind_some, hvalue]
  exact ⟨value, by rw [get, hvalue], hname, htyped⟩

/-- Names in scope stand for the same values after a statement, and so does what it defines. -/
theorem Ready.valuesIn_after (h : Ready index scope m)
    (hvalue : (s.infer index scope).value = (signature, next))
    (hc : (s.infer index scope).findings.complaints = []) (hname : s.AvoidsMarkers)
    (value : Value) :
    (∀ name t, scope.types name = some t →
        valuesIn next ⟨m.bindings ++ [(signature.output, value)]⟩ name = m.valuesIn scope name) ∧
      (scope.define signature.output = .ok next →
        valuesIn next ⟨m.bindings ++ [(signature.output, value)]⟩ signature.output.name =
          some value) := by
  have hbind := bind_of_find?_eq_none value (h.find?_output hvalue hc hname)
  constructor
  · intro name t ht
    rcases Option.map_eq_some_iff.1 ht with ⟨v, hv, rfl⟩
    have hnext : next.lookup? name = some v := by
      rcases (Stmt.infer_cases hvalue hc).2.2.2 with ⟨-, -, rfl⟩ | ⟨-, hdefine⟩
      · exact hv
      · rw [Scope.lookup?_define hdefine]
        by_cases hsame : signature.output.name = name
        · have hfree := (Scope.define_eq_ok_iff.1 hdefine).1
          rw [hsame, ht] at hfree
          contradiction
        · rw [if_neg hsame]
          exact hv
    rcases h.bound v (List.mem_of_find?_eq_some hv) with ⟨old, hold, -⟩
    have hne : signature.output ≠ v := by
      rintro rfl
      rw [h.find?_output hvalue hc hname] at hold
      contradiction
    rw [valuesIn, valuesIn, hnext, hv, Option.bind_some, Option.bind_some, find?_bind hbind,
      if_neg hne]
  · intro hdefine
    rw [valuesIn, Scope.lookup?_define hdefine, if_pos rfl, Option.bind_some, find?_bind hbind,
      if_pos rfl]

end Memory

section Runs

variable {k : Inlining} {index : Nat} {scope next : Scope} {m : Memory}

/-- After a statement that is executed the copy still stands for the variable. -/
theorem Inlining.Holds.after {s : Stmt} {signature : Signature} {value : Value}
    (h : k.Holds scope (m.valuesIn scope)) (hready : m.Ready index scope)
    (hproper : scope.types.IsProper) (hdef : s.DefinesCopy k)
    (hvalue : (s.infer index scope).value = (signature, next))
    (hc : (s.infer index scope).findings.complaints = []) (hname : s.AvoidsMarkers)
    (hresult : s.value.evaluate scope (m.valuesIn scope) = .ok value) :
    k.Holds next (Memory.valuesIn next ⟨m.bindings ++ [(signature.output, value)]⟩) := by
  intro t ht
  rcases hready.valuesIn_after hvalue hc hname value with ⟨hkept, hdefined⟩
  have hwider : ∀ name u, scope.types name = some u → next.types name = some u ∧
      Memory.valuesIn next ⟨m.bindings ++ [(signature.output, value)]⟩ name =
        m.valuesIn scope name :=
    fun name u hu => ⟨Stmt.types_of_infer hvalue hc hu, hkept name u hu⟩
  have htyped : k.TypedIn next :=
    Inlining.TypedIn.after (fun u hu => (h u hu).1) hproper hdef hvalue hc
  refine ⟨htyped t ht, ?_⟩
  rcases Stmt.eq_of_types hvalue hc ht with hold | ⟨htarget, houtput, hdefine⟩
  · rcases h t hold with ⟨hcopy, v, hv, hevaluate⟩
    refine ⟨v, ?_, ?_⟩
    · rw [hkept _ t hold, hv]
    · rw [hcopy.evaluate_widen rfl hwider, hevaluate]
  · have hsame := hdef htarget
    have hcopy : k.copy.HasType scope.types signature.output.ty :=
      (Stmt.hasType_of_infer hproper hvalue hc).of_anonymous_eq hproper hsame
    rw [houtput] at hdefined
    refine ⟨value, ?_, ?_⟩
    · rw [houtput]
      exact hdefined hdefine
    · rw [hcopy.evaluate_widen rfl hwider, ← Expr.evaluate_congr hsame, hresult]

namespace Lowered

variable {l l' : Lowered}

/-- On a memory a statement computes a value and binds it, or it has a fault. -/
def Answers (l : Lowered) (m : Memory) (answer : Except Fault Value) : Prop :=
  (l.statement .interp).exec .sequential m =
    (answer.map fun value => (value, ⟨m.bindings ++ [(l.signature.output, value)]⟩), false)

/-- A statement computes what its expression means. -/
theorem answers_evaluate (hready : m.Ready index scope) (hfits : l.FitsIn scope)
    (hvalue : (l.stmt.infer index scope).value = (l.signature, next))
    (hc : (l.stmt.infer index scope).findings.complaints = []) (hname : l.stmt.AvoidsMarkers) :
    l.Answers m (l.stmt.value.evaluate scope (m.valuesIn scope)) ∧
      Yields (fun v => v.HasType l.signature.output.ty)
        (l.stmt.value.evaluate scope (m.valuesIn scope)) := by
  rcases hready.binds hfits.knows with ⟨args, hargs, hbinds⟩
  have heval : Backend.interp.eval .sequential l.function args =
      l.stmt.value.evaluate scope (m.valuesIn scope) :=
    hfits.elaborates.realizes scope _ args rfl hbinds
  have hyields : Yields (fun v => v.HasType l.signature.output.ty)
      (Backend.interp.eval .sequential l.function args) :=
    hfits.codeHasType.yields_eval .sequential args hbinds.typed
  have hfree := hready.find?_output hvalue hc hname
  rw [heval] at hyields
  refine ⟨?_, hyields⟩
  rw [Answers, exec_of_arguments hargs, heval]
  cases l.stmt.value.evaluate scope (m.valuesIn scope) with
  | error e => rfl
  | ok value =>
    rw [ok_bind, Memory.bind_of_find?_eq_none value hfree, ok_bind]
    rfl

/-- Statements that write the same variable and give the same answer are the same step. -/
theorem Answers.step_eq {state : RunState} {answer : Except Fault Value}
    (h : l.Answers state.memory answer) (h' : l'.Answers state.memory answer)
    (houtput : l'.signature.output = l.signature.output) (hspan : l'.stmt.span = l.stmt.span) :
    state.step .sequential (l'.statement .interp) =
      state.step .sequential (l.statement .interp) := by
  have hexec : (l'.statement .interp).exec .sequential state.memory =
      (l.statement .interp).exec .sequential state.memory := by
    rw [h, h', houtput]
  have hprints : (l'.statement .interp).prints = (l.statement .interp).prints :=
    congrArg Variable.isPrintMarker houtput
  have hspans : (l'.statement .interp).span = (l.statement .interp).span := hspan
  rw [RunState.step, RunState.step, RunState.complete, RunState.complete, hexec, hprints, hspans]

/-- Prepared statements with a copy in them run like those without it. -/
theorem Prepared.execute_inlined {ls : List Lowered} (h : Prepared index scope ls) :
    ∀ {ms : List Lowered}, Prepared index scope ms →
      ms.map stmt = (ls.map stmt).map (Stmt.inlined k) → (∀ l ∈ ls, l.stmt.value.Fits k) →
      (∀ l ∈ ls, l.stmt.DefinesCopy k) → (∀ l ∈ ls, l.stmt.AvoidsMarkers) →
      ∀ state : RunState, state.cancelled = false → state.memory.Ready index scope →
        k.Holds scope (state.memory.valuesIn scope) →
        execute .sequential state (ms.map (statement .interp)) =
          execute .sequential state (ls.map (statement .interp)) := by
  -- both runs go through the same states, and in each of them the copy stands for the variable
  induction h with
  | nil =>
    intro ms _ hstmts _ _ _ state _ _ _
    rw [List.map_nil, List.map_nil, List.map_eq_nil_iff] at hstmts
    rw [hstmts]
  | @cons index scope next l rest hvalue hc hl _ ih =>
    intro ms hms hstmts hfits hdefs hnames state hcancelled hready hcopy
    cases hms with
    | nil => simp at hstmts
    | @cons _ _ next' l' rest' hvalue' hc' hl' hrest' =>
      rw [List.map_cons, List.map_cons, List.map_cons, List.cons.injEq] at hstmts
      rcases hstmts with ⟨hstmt, hstmts⟩
      have hname := hnames l List.mem_cons_self
      have hname' : l'.stmt.AvoidsMarkers := by
        rw [hstmt]
        exact hname
      have hfit := hfits l List.mem_cons_self
      have hdef := hdefs l List.mem_cons_self
      rcases Stmt.infer_inlined hl.proper hfit (fun u hu => (hcopy u hu).1) hvalue hc with
        ⟨⟨inputs, hsame⟩, -, -⟩
      have hboth : (⟨l.signature.output, inputs⟩, next) = (l'.signature, next') := by
        rw [← hsame, ← hvalue', hstmt]
      rw [Prod.mk.injEq] at hboth
      rcases hboth with ⟨hsignature, rfl⟩
      have houtput : l'.signature.output = l.signature.output :=
        congrArg (fun signature => signature.output) hsignature.symm
      have heval : l'.stmt.value.evaluate scope (state.memory.valuesIn scope) =
          l.stmt.value.evaluate scope (state.memory.valuesIn scope) := by
        rw [hstmt]
        exact (Stmt.hasType_of_infer hl.proper hvalue hc).evaluate_inlined hfit rfl hcopy
      have hanswers := answers_evaluate hready hl hvalue hc hname
      have hanswers' := (answers_evaluate hready hl' hvalue' hc' hname').1
      rw [heval] at hanswers'
      have hspan : l'.stmt.span = l.stmt.span := congrArg (fun s => s.span) hstmt
      rw [List.map_cons, List.map_cons, execute_cons, execute_cons,
        hanswers.1.step_eq hanswers' houtput hspan, RunState.step, if_neg (by simp [hcancelled])]
      cases hresult : l.stmt.value.evaluate scope (state.memory.valuesIn scope) with
      | error e =>
        have hexec : (l.statement .interp).exec .sequential state.memory = (.error e, false) := by
          rw [hanswers.1, hresult]
          rfl
        simp only [RunState.complete, hexec]
      | ok value =>
        have hexec : (l.statement .interp).exec .sequential state.memory =
            (.ok (value, ⟨state.memory.bindings ++ [(l.signature.output, value)]⟩), false) := by
          rw [hanswers.1, hresult]
          rfl
        have htyped : value.HasType l.signature.output.ty := by
          have hyields := hanswers.2
          rw [hresult] at hyields
          exact hyields
        simp only [RunState.complete, hexec]
        exact ih hrest' hstmts (fun j hj => hfits j (List.mem_cons_of_mem l hj))
          (fun j hj => hdefs j (List.mem_cons_of_mem l hj))
          (fun j hj => hnames j (List.mem_cons_of_mem l hj))
          ⟨⟨state.memory.bindings ++ [(l.signature.output, value)]⟩, _, _⟩ (by simp [hcancelled])
          (hready.bind hvalue hc hname htyped)
          (hcopy.after hready hl.proper hdef hvalue hc hname hresult)

end Lowered

end Runs

/-! ## Programs -/

/-- The identifiers of an unfolded tree are those of the table. -/
theorem Arena.Unfolds.node_of_use {a : Arena} {id : NodeId} {e : Expr} (h : a.Unfolds id e) :
    ∀ u ∈ e.uses, ∃ name span, a.nodes[u.1.toNat]? = some ⟨.ident name, span⟩ ∧
      u.2 = a.name name := by
  induction h with
  | int | float | lambda => simp [Expr.uses]
  | ident hnode =>
    intro u hu
    rcases List.mem_singleton.1 hu with rfl
    exact ⟨_, _, hnode, rfl⟩
  | unary _ _ _ ih => exact ih
  | map _ _ _ _ _ ih _ => exact ih
  | binary _ _ _ _ _ ihl ihr => exact List.forall_mem_append.2 ⟨ihl, ihr⟩
  | range _ _ _ _ _ ihf ihl => exact List.forall_mem_append.2 ⟨ihf, ihl⟩
  | reduce _ _ _ _ _ _ _ ihs ihn _ => exact List.forall_mem_append.2 ⟨ihs, ihn⟩

namespace SoundProgram

variable {p q : SoundProgram} {k : Inlining}

/--
A program in which an occurrence of a variable is replaced.  The nodes of the new program may be
anywhere in its tables.
-/
structure Inlines (p : SoundProgram) (k : Inlining) (q : SoundProgram) : Prop where
  /-- The occurrence is one of the variable, outside function literals. -/
  occurs : ∃ s ∈ p.stmts, (k.occurrence, k.name) ∈ s.value.uses
  /-- The copy is one of the expression that defines the variable. -/
  copies : ∃ s ∈ p.stmts, s.target = some k.name ∧ s.value.anonymous = k.copy.anonymous
  /-- Nothing else is changed. -/
  stmts_eq : q.stmts = p.stmts.map (Stmt.inlined k)

/-- A node is an identifier of one name, wherever it occurs. -/
theorem Inlines.fits (h : p.Inlines k q) : ∀ s ∈ p.stmts, s.value.Fits k := by
  intro s hs u hu hid
  rcases h.occurs with ⟨d, hd, hocc⟩
  rcases p.exists_unfolds hs with ⟨n, hn⟩
  rcases p.exists_unfolds hd with ⟨m, hm⟩
  rcases hn.value.node_of_use u hu with ⟨name, span, hnode, hname⟩
  rcases hm.value.node_of_use _ hocc with ⟨name', span', hnode', hname'⟩
  rw [hid, hnode'] at hnode
  cases hnode
  exact hname.trans hname'.symm

/-- A variable is defined once. -/
theorem Inlines.definesCopy (h : p.Inlines k q) (hm : p.AvoidsMarkers) {ls : List Lowered}
    (hprep : Lowered.Prepared 0 .empty ls) (hstmts : ls.map Lowered.stmt = p.stmts) :
    ∀ l ∈ ls, l.stmt.DefinesCopy k := by
  have hnames : ∀ l ∈ ls, l.stmt.AvoidsMarkers :=
    fun l hl => hm l.stmt (hstmts ▸ List.mem_map_of_mem hl)
  rcases hprep.fresh hnames with ⟨hfresh, hnodup⟩
  have houtput : ∀ l ∈ ls, ∀ name, l.stmt.target = some name →
      l.signature.output.name = name := by
    intro l hl name htarget
    rcases hfresh l hl with ⟨hnone, -⟩ | ⟨hsome, -⟩
    · rw [hnone] at htarget
      contradiction
    · rw [hsome, Option.some.injEq] at htarget
      exact htarget
  intro l hl htarget
  rcases h.copies with ⟨s, hs, hdefines, hcopy⟩
  rw [← hstmts] at hs
  rcases List.mem_map.1 hs with ⟨d, hd, rfl⟩
  have hsame : l = d := List.inj_on_of_nodup_map hnodup hl hd
    ((houtput l hl _ htarget).trans (houtput d hd _ hdefines).symm)
  rw [hsame]
  exact hcopy

/-- The values of the statements that a run executes are those that it leaves in memory. -/
theorem map_snd_executed (ls : List Lowered) (b : Backend) :
    (executed .sequential .empty (ls.map (Lowered.statement b))).map Prod.snd =
      (execute .sequential (.fresh (.buffer []))
        (ls.map (Lowered.statement b))).2.memory.bindings.map Prod.snd := by
  have hcancels : ∀ s ∈ ls.map (Lowered.statement b), s.NeverCancels := by
    intro s hs
    rcases List.mem_map.1 hs with ⟨l, -, rfl⟩
    exact l.neverCancels_statement b
  have hstate := (execute_eq_executed .sequential _ hcancels .empty []).1
  rw [RunState.fresh, hstate]
  simp [Memory.empty]

/--
Variables are transparent.  Take a program without complaints, in which inference gives no node two
types, as in every forest, and no definition has the name of a print marker.  Replace an occurrence
of a variable outside function literals by a copy of the expression that defines the variable, laid
out such that again no node is given two types.  Then inference has no complaints either, the
statements write the same variables, and all nodes but the occurrence have the types that they had.
Each program compiles on every machine that addresses its inputs.  A sequential run executes the
same statements with the same values and has the same result, which is success or a fault of the
same statement; it prints the same and leaves the same memory.
-/
theorem variables_transparent (p : SoundProgram) (hc : p.infer.complaints = [])
    (hv : p.VisitsAgree) (hm : p.AvoidsMarkers) (k : Inlining) (q : SoundProgram)
    (h : p.Inlines k q) (hq : q.VisitsAgree) :
    q.infer.complaints = [] ∧
      q.infer.signatures.map Signature.output = p.infer.signatures.map Signature.output ∧
      (∀ id ∈ p.ids, id ≠ k.occurrence →
        q.infer.table.get (k.move id) = p.infer.table.get id) ∧
      ∀ b, ∃ old new : CompiledProgram,
        (p.AddressedBy b → ∀ limit, p.compile b limit = .ok old) ∧
        (q.AddressedBy b → ∀ limit, q.compile b limit = .ok new) ∧
        (executed .sequential .empty new).map Prod.snd =
          (executed .sequential .empty old).map Prod.snd ∧
        ∀ sink, execute .sequential (.fresh sink) new = execute .sequential (.fresh sink) old := by
  rcases p.prepared hc hv with ⟨ls, hls, hlstmts, hlsigs, -, hpcompile, -⟩
  have hmem : ∀ l ∈ ls, l.stmt ∈ p.stmts := fun l hl => hlstmts ▸ List.mem_map_of_mem hl
  have hfits : ∀ l ∈ ls, l.stmt.value.Fits k := fun l hl => h.fits l.stmt (hmem l hl)
  have hnames : ∀ l ∈ ls, l.stmt.AvoidsMarkers := fun l hl => hm l.stmt (hmem l hl)
  have hdefs := h.definesCopy hm hls hlstmts
  rcases hls.inlined hfits hdefs k.typedIn_empty with ⟨hqc, houtputs, hcarries⟩
  rw [hlstmts, ← h.stmts_eq] at hqc houtputs hcarries
  refine ⟨hqc, ?_, ?_, ?_⟩
  · rw [← hlsigs, List.map_map]
    exact houtputs
  · intro id hid hne
    have hvisited := hls.map_fst_visits
    rw [hlstmts] at hvisited
    have hmem : id ∈ p.visits.map Prod.fst := hvisited ▸ hid
    rcases List.mem_map.1 hmem with ⟨v, hv', rfl⟩
    rw [p.records_visits hv v hv']
    exact q.records_visits hq _ (hcarries v hv' hne)
  · rcases q.prepared hqc hq with ⟨ms, hms, hmstmts, -, -, hqcompile, -⟩
    have hstmts : ms.map Lowered.stmt = (ls.map Lowered.stmt).map (Stmt.inlined k) := by
      rw [hmstmts, hlstmts, h.stmts_eq]
    have hrun : ∀ b sink, execute .sequential (.fresh sink) (ms.map (Lowered.statement b)) =
        execute .sequential (.fresh sink) (ls.map (Lowered.statement b)) := by
      intro b sink
      have hinterp := hls.execute_inlined hms hstmts hfits hdefs hnames (.fresh sink) rfl
        Memory.ready_empty (k.holds_empty _)
      cases b with
      | interp => exact hinterp
      | native =>
        rw [execute_native_eq (fun m hm => hms.exists_fitsIn hm) .sequential (.fresh sink)
            Memory.wellTyped_empty,
          execute_native_eq (fun l hl => hls.exists_fitsIn hl) .sequential (.fresh sink)
            Memory.wellTyped_empty, hinterp]
    intro b
    refine ⟨_, _, hpcompile b, hqcompile b, ?_, hrun b⟩
    rw [map_snd_executed, map_snd_executed, hrun]

/--
`a = 3`, `x = reduce(map({1, a}, a -> a * a), 0.5, (s, t) -> s + t)` and `print a - x`, of which the
last one starts at the given nodes.
-/
def difference (last : Array Node) (value : NodeId) : Program where
  arena :=
    { nodes := #[
        ⟨.int 3, .nowhere⟩,
        ⟨.int 1, .nowhere⟩, ⟨.ident ⟨0⟩, .nowhere⟩, ⟨.range ⟨1⟩ ⟨2⟩, .nowhere⟩,
        ⟨.ident ⟨0⟩, .nowhere⟩, ⟨.ident ⟨0⟩, .nowhere⟩, ⟨.binary .mul ⟨4⟩ ⟨5⟩, .nowhere⟩,
        ⟨.lambda ⟨0, 1⟩ ⟨6⟩, .nowhere⟩, ⟨.map ⟨3⟩ ⟨7⟩, .nowhere⟩,
        ⟨.float 0x3FE0000000000000, .nowhere⟩,
        ⟨.ident ⟨2⟩, .nowhere⟩, ⟨.ident ⟨3⟩, .nowhere⟩, ⟨.binary .add ⟨10⟩ ⟨11⟩, .nowhere⟩,
        ⟨.lambda ⟨1, 2⟩ ⟨12⟩, .nowhere⟩, ⟨.reduce ⟨8⟩ ⟨9⟩ ⟨13⟩, .nowhere⟩,
        ⟨.ident ⟨0⟩, .nowhere⟩] ++ last
      names := #["a", "x", "s", "t"]
      params := #[⟨0⟩, ⟨2⟩, ⟨3⟩] }
  stmts := #[⟨.define ⟨0⟩ ⟨0⟩, .nowhere⟩, ⟨.define ⟨1⟩ ⟨14⟩, .nowhere⟩, ⟨.print value, .nowhere⟩]

/-- `print a - x`. -/
def differenceOfVariables : SoundProgram where
  program := difference #[⟨.ident ⟨1⟩, .nowhere⟩, ⟨.binary .sub ⟨15⟩ ⟨16⟩, .nowhere⟩] ⟨17⟩
  sound := by decide +kernel

/-- `print a - reduce(map({1, a}, a -> a * a), 0.5, (s, t) -> s + t)`. -/
def differenceInlined : SoundProgram where
  program := difference
    #[⟨.int 1, .nowhere⟩, ⟨.ident ⟨0⟩, .nowhere⟩, ⟨.range ⟨16⟩ ⟨17⟩, .nowhere⟩,
      ⟨.ident ⟨0⟩, .nowhere⟩, ⟨.ident ⟨0⟩, .nowhere⟩, ⟨.binary .mul ⟨19⟩ ⟨20⟩, .nowhere⟩,
      ⟨.lambda ⟨0, 1⟩ ⟨21⟩, .nowhere⟩, ⟨.map ⟨18⟩ ⟨22⟩, .nowhere⟩,
      ⟨.float 0x3FE0000000000000, .nowhere⟩,
      ⟨.ident ⟨2⟩, .nowhere⟩, ⟨.ident ⟨3⟩, .nowhere⟩, ⟨.binary .add ⟨25⟩ ⟨26⟩, .nowhere⟩,
      ⟨.lambda ⟨1, 2⟩ ⟨27⟩, .nowhere⟩, ⟨.reduce ⟨23⟩ ⟨24⟩ ⟨28⟩, .nowhere⟩,
      ⟨.binary .sub ⟨15⟩ ⟨29⟩, .nowhere⟩] ⟨30⟩
  sound := by decide +kernel

/-- The operand `x` of the difference, and its place in the table of `differenceInlined`. -/
def operandInlining : Inlining where
  move := fun id => if id = ⟨17⟩ then ⟨30⟩ else id
  occurrence := ⟨16⟩
  name := "x"
  copy := (differenceInlined.program.arena.tree? ⟨29⟩).getD default

/-- The print statement reads `a` alone where it read `a` and `x`, and the runs are the same. -/
theorem variables_transparent_difference :
    differenceOfVariables.infer.complaints = [] ∧ differenceOfVariables.VisitsAgree ∧
      differenceOfVariables.AvoidsMarkers ∧ differenceInlined.VisitsAgree ∧
      differenceOfVariables.Inlines operandInlining differenceInlined ∧
      differenceOfVariables.infer.signatures.map (fun s => s.inputs.length) = [0, 1, 2] ∧
      differenceInlined.infer.signatures.map (fun s => s.inputs.length) = [0, 1, 1] ∧
      ∃ old new : CompiledProgram, differenceOfVariables.compile .native none = .ok old ∧
        differenceInlined.compile .native none = .ok new ∧
        ∀ sink, execute .sequential (.fresh sink) new = execute .sequential (.fresh sink) old := by
  have hc : differenceOfVariables.infer.complaints = [] := by decide +kernel
  have hv : differenceOfVariables.VisitsAgree := by decide +kernel
  have hm : differenceOfVariables.AvoidsMarkers := by decide +kernel
  have hq : differenceInlined.VisitsAgree := by decide +kernel
  have h : differenceOfVariables.Inlines operandInlining differenceInlined :=
    ⟨by decide +kernel, by decide +kernel, by decide +kernel⟩
  rcases variables_transparent differenceOfVariables hc hv hm operandInlining differenceInlined h hq
    with ⟨-, -, -, hrun⟩
  rcases hrun .native with ⟨old, new, hold, hnew, -, hsame⟩
  have hpaddressed : differenceOfVariables.AddressedBy .native := by decide +kernel
  have hqaddressed : differenceInlined.AddressedBy .native := by decide +kernel
  exact ⟨hc, hv, hm, hq, h, by decide +kernel, by decide +kernel, old, new, hold hpaddressed none,
    hnew hqaddressed none, hsame⟩

end SoundProgram
end SeqCalc
