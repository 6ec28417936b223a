import SeqCalc.Proofs.Execution.Printing
import SeqCalc.Proofs.Execution.Rearrangement
import SeqCalc.Proofs.Execution.Renaming
import SeqCalc.Proofs.Program.Exchange
import SeqCalc.Proofs.Typing.Scopes

/-!
# Independent statements commute

Two adjacent statements can change places if the second one does not read what the first one writes.
The first one cannot read what the second one writes, since a name has to be defined before it is
read.  So both of them find the same variables in the other order, and after them the scope is the
same but for the order of its variables.  What changes are the print markers of the two, which carry
the positions of their statements; no statement reads them.

Main results:

- `inferStmts_exchange`: inference of statements of which two have changed places.
- `SoundProgram.prepared_exchanged`: the code of the statements remains the same.
- `SoundProgram.independent_statements_commute`: types, values, bindings and printed lines.
-/

namespace SeqCalc

/-! ## Signatures at other positions -/

namespace Signature

/-- The signature of a statement at another position, which its print marker carries. -/
def movedTo (index : Nat) (s : Signature) : Signature :=
  if s.output.isPrintMarker then ⟨.printMarker index s.output.ty, s.inputs⟩ else s

/-- Signatures with the print markers of their positions, from a position on. -/
def renumbered (index : Nat) (signatures : List Signature) : List Signature :=
  (signatures.zipIdx index).map fun x => x.1.movedTo x.2

theorem movedTo_printMarker (index old : Nat) (t : Ty) (inputs : List Variable) :
    movedTo index ⟨.printMarker old t, inputs⟩ = ⟨.printMarker index t, inputs⟩ :=
  if_pos (Variable.isPrintMarker_printMarker old t)

theorem movedTo_of_not_isPrintMarker {s : Signature} (h : s.output.isPrintMarker = false)
    (index : Nat) : s.movedTo index = s :=
  if_neg (by simp [h])

theorem renumbered_cons (index : Nat) (s : Signature) (rest : List Signature) :
    renumbered index (s :: rest) = s.movedTo index :: renumbered (index + 1) rest :=
  rfl

@[simp]
theorem inputs_movedTo (index : Nat) (s : Signature) : (s.movedTo index).inputs = s.inputs := by
  unfold movedTo
  split <;> rfl

@[simp]
theorem ty_movedTo (index : Nat) (s : Signature) :
    (s.movedTo index).output.ty = s.output.ty := by
  unfold movedTo
  split <;> rfl

theorem map_inputs_renumbered (index : Nat) (signatures : List Signature) :
    (renumbered index signatures).map inputs = signatures.map inputs := by
  induction signatures generalizing index with
  | nil => rfl
  | cons s rest ih => rw [renumbered_cons, List.map_cons, List.map_cons, ih, inputs_movedTo]

end Signature

/-! ## Inference -/

section Inference

variable {index : Nat} {scope next : Scope} {s : Stmt} {signature : Signature}

/-- The marker of a statement is that of its position. -/
theorem Stmt.movedTo_signature (hname : s.AvoidsMarkers) (index : Nat) (scope : Scope) :
    (s.infer index scope).value.1.movedTo index = (s.infer index scope).value.1 := by
  rcases s with ⟨target, value, span⟩
  cases target with
  | none => exact Signature.movedTo_printMarker index index _ _
  | some name =>
    have hmark : Variable.isPrintMarker ⟨name, (value.infer ⟨scope, false⟩).value⟩ = false :=
      hname name rfl
    have houtput : (Stmt.infer index scope ⟨some name, value, span⟩).value.1.output =
        ⟨name, (value.infer ⟨scope, false⟩).value⟩ := by
      simp only [Stmt.infer, Inferred.value_bind]
      cases scope.define ⟨name, (value.infer ⟨scope, false⟩).value⟩ <;> rfl
    exact Signature.movedTo_of_not_isPrintMarker (houtput ▸ hmark) index

theorem renumbered_inferStmts {stmts : List Stmt} (hnames : ∀ s ∈ stmts, s.AvoidsMarkers)
    (index : Nat) (scope : Scope) :
    Signature.renumbered index (inferStmts index scope stmts).value =
      (inferStmts index scope stmts).value := by
  induction stmts generalizing index scope with
  | nil => rfl
  | cons s rest ih =>
    rw [inferStmts_cons, Signature.renumbered_cons,
      Stmt.movedTo_signature (hnames s List.mem_cons_self),
      ih fun t ht => hnames t (List.mem_cons_of_mem s ht)]

/-- What the scope has after a statement without complaints. -/
theorem Stmt.lookup?_after (hvalue : (s.infer index scope).value = (signature, next))
    (hc : (s.infer index scope).findings.complaints = []) (name : String) :
    next.lookup? name =
      if s.target = some name then some signature.output else scope.lookup? name := by
  rcases (Stmt.infer_cases hvalue hc).2.2.2 with ⟨htarget, -, rfl⟩ | ⟨htarget, hdefine⟩
  · simp [htarget]
  · simp [htarget, Scope.lookup?_define hdefine]

theorem Stmt.lookup?_target (hvalue : (s.infer index scope).value = (signature, next))
    (hc : (s.infer index scope).findings.complaints = []) {name : String}
    (htarget : s.target = some name) : scope.lookup? name = none := by
  rcases (Stmt.infer_cases hvalue hc).2.2.2 with ⟨hnone, -, -⟩ | ⟨hsome, hdefine⟩
  · rw [hnone] at htarget
    contradiction
  · rw [hsome, Option.some.injEq] at htarget
    subst htarget
    simpa [Scope.types] using (Scope.define_eq_ok_iff.1 hdefine).1

/--
A statement without complaints has none at another position and in another scope, if that agrees on
the names that the statement reads and does not have the name that it defines.
-/
theorem Stmt.infer_moved (hvalue : (s.infer index scope).value = (signature, next))
    (hc : (s.infer index scope).findings.complaints = []) (hname : s.AvoidsMarkers)
    {scope' : Scope} (hreads : ∀ name ∈ s.value.names, scope'.lookup? name = scope.lookup? name)
    (hfree : ∀ name, s.target = some name → scope'.lookup? name = none) (index' : Nat) :
    ∃ next', (s.infer index' scope').value = (signature.movedTo index', next') ∧
      (s.infer index' scope').findings.complaints = [] ∧
      (s.infer index' scope').findings.visits = (s.infer index scope).findings.visits ∧
      ∀ name, next'.lookup? name =
        if s.target = some name then some signature.output else scope'.lookup? name := by
  have hsame := s.value.infer_congr false hreads
  rcases Stmt.infer_cases hvalue hc with ⟨hvc, hty, hinputs, hcases⟩
  have hmoved : ∃ next', (s.target = none ∧
        (signature.movedTo index').output = .printMarker index' (signature.movedTo index').output.ty ∧
        next' = scope') ∨
      (s.target = some (signature.movedTo index').output.name ∧
        scope'.define (signature.movedTo index').output = .ok next') := by
    rcases hcases with ⟨htarget, hmarker, -⟩ | ⟨htarget, -⟩
    · refine ⟨scope', .inl ⟨htarget, ?_, rfl⟩⟩
      rw [Signature.movedTo, if_pos (by rw [hmarker]; exact Variable.isPrintMarker_printMarker _ _)]
      rfl
    · have hmark : signature.output.isPrintMarker = false := hname _ htarget
      rw [Signature.movedTo_of_not_isPrintMarker hmark]
      refine ⟨_, .inr ⟨htarget, Scope.define_eq_ok_iff.2 ⟨?_, rfl⟩⟩⟩
      rw [Scope.types, hfree _ htarget]
      rfl
  rcases hmoved with ⟨next', hnext⟩
  have hinfer : (s.infer index' scope').value = (signature.movedTo index', next') ∧
      (s.infer index' scope').findings.complaints = [] :=
    Stmt.infer_of_cases (by rw [hsame, Signature.ty_movedTo, hty]) (by rw [hsame]; exact hvc)
      (by rw [hsame, Signature.inputs_movedTo, hinputs]) hnext
  refine ⟨next', hinfer.1, hinfer.2, ?_, fun name => ?_⟩
  · rw [visits_inferStmt, visits_inferStmt, hsame]
  · rw [Stmt.lookup?_after hinfer.1 hinfer.2]
    by_cases htarget : s.target = some name
    · have hmark : signature.output.isPrintMarker = false := by
        rcases hcases with ⟨hnone, -, -⟩ | ⟨hsome, -⟩
        · rw [hnone] at htarget
          contradiction
        · exact hname _ hsome
      rw [if_pos htarget, if_pos htarget, Signature.movedTo_of_not_isPrintMarker hmark]
    · rw [if_neg htarget, if_neg htarget]

/-- Two statements without complaints, the second of which does not read what the first writes. -/
theorem Stmt.infer_swapped {mid last : Scope} {t : Stmt} {signature' : Signature}
    (hs : (s.infer index scope).value = (signature, mid))
    (hsc : (s.infer index scope).findings.complaints = [])
    (ht : (t.infer (index + 1) mid).value = (signature', last))
    (htc : (t.infer (index + 1) mid).findings.complaints = [])
    (hsname : s.AvoidsMarkers) (htname : t.AvoidsMarkers)
    (hind : signature.output ∉ signature'.inputs) :
    ∃ mid' last', (t.infer index scope).value = (signature'.movedTo index, mid') ∧
      (t.infer index scope).findings.complaints = [] ∧
      (t.infer index scope).findings.visits = (t.infer (index + 1) mid).findings.visits ∧
      (s.infer (index + 1) mid').value = (signature.movedTo (index + 1), last') ∧
      (s.infer (index + 1) mid').findings.complaints = [] ∧
      (s.infer (index + 1) mid').findings.visits = (s.infer index scope).findings.visits ∧
      last'.Agrees last := by
  have hmid := Stmt.lookup?_after hs hsc
  have hlast := Stmt.lookup?_after ht htc
  have htreads : ∀ name ∈ t.value.names, scope.lookup? name = mid.lookup? name := by
    intro name hname
    rw [hmid]
    split
    case isFalse => rfl
    case isTrue htarget =>
      -- a name that the first statement defines would be an input of the second one
      have hfound : mid.lookup? name = some signature.output := by rw [hmid, if_pos htarget]
      refine absurd ?_ hind
      rw [(Stmt.infer_cases ht htc).2.2.1, mem_firstUses, (t.value.reads_infer).1]
      exact List.mem_filterMap.2 ⟨name, hname, hfound⟩
  have htfree : ∀ name, t.target = some name →
      s.target ≠ some name ∧ scope.lookup? name = none := by
    intro name htarget
    have hnone := Stmt.lookup?_target ht htc htarget
    rw [hmid] at hnone
    split at hnone
    · contradiction
    · exact ⟨‹_›, hnone⟩
  rcases Stmt.infer_moved ht htc htname htreads (fun name h => (htfree name h).2) index with
    ⟨mid', ht', htc', htvisits, hmid'⟩
  have hsreads : ∀ name ∈ s.value.names, mid'.lookup? name = scope.lookup? name := by
    intro name hname
    rw [hmid']
    split
    case isFalse => rfl
    case isTrue htarget =>
      -- the first statement finds its names, but not the one that the second statement defines
      have hfound := s.value.isSome_of_complaints (Stmt.infer_cases hs hsc).1 name hname
      rw [(htfree name htarget).2] at hfound
      contradiction
  have hsfree : ∀ name, s.target = some name → mid'.lookup? name = none := by
    intro name htarget
    rw [hmid', if_neg fun h => (htfree name h).1 htarget]
    exact Stmt.lookup?_target hs hsc htarget
  rcases Stmt.infer_moved hs hsc hsname hsreads hsfree (index + 1) with
    ⟨last', hs', hsc', hsvisits, hlast'⟩
  refine ⟨mid', last', ht', htc', htvisits, hs', hsc', hsvisits, fun name => ?_⟩
  rw [hlast', hlast, hmid', hmid]
  by_cases hstarget : s.target = some name
  · rw [if_pos hstarget, if_neg fun h => (htfree name h).1 hstarget, if_pos hstarget]
  · rw [if_neg hstarget, if_neg hstarget]

/-- The statement after the one at a position does not read what that one writes. -/
def IndependentAt (signatures : List Signature) (i : Nat) : Prop :=
  ∀ s ∈ signatures[i]?, ∀ t ∈ signatures[i + 1]?, s.output ∉ t.inputs

instance (signatures : List Signature) (i : Nat) : Decidable (IndependentAt signatures i) :=
  inferInstanceAs
    (Decidable (∀ s ∈ signatures[i]?, ∀ t ∈ signatures[i + 1]?, s.output ∉ t.inputs))

/--
Inference of statements of which two independent ones have changed places: no complaints, the
signatures in the new order with the markers of their new positions, and the same visits.
-/
theorem inferStmts_exchange {stmts : List Stmt} (hnames : ∀ s ∈ stmts, s.AvoidsMarkers) (i : Nat)
    (index : Nat) (scope : Scope) (hc : (inferStmts index scope stmts).findings.complaints = [])
    (hind : IndependentAt (inferStmts index scope stmts).value i) :
    (inferStmts index scope (exchange i stmts)).findings.complaints = [] ∧
      (inferStmts index scope (exchange i stmts)).value =
        Signature.renumbered index (exchange i (inferStmts index scope stmts).value) ∧
      (inferStmts index scope (exchange i stmts)).findings.visits.Perm
        (inferStmts index scope stmts).findings.visits := by
  induction stmts generalizing i index scope with
  | nil =>
    rw [exchange_nil]
    exact ⟨hc, by simp [inferStmts, Signature.renumbered], .refl _⟩
  | cons s rest ih =>
    have hs := hnames s List.mem_cons_self
    have hrest : ∀ t ∈ rest, t.AvoidsMarkers := fun t ht => hnames t (List.mem_cons_of_mem s ht)
    cases i with
    | succ i =>
      rw [inferStmts_cons] at hc hind
      simp only [Findings.complaints_append, List.append_eq_nil_iff] at hc
      rcases ih hrest i (index + 1) _ hc.2 hind with ⟨hcomplaints, hsignatures, hvisits⟩
      rw [exchange_succ, inferStmts_cons, inferStmts_cons]
      simp only [Findings.complaints_append, Findings.visits_append, exchange_succ,
        Signature.renumbered_cons, Stmt.movedTo_signature hs]
      exact ⟨by rw [hc.1, hcomplaints]; rfl, by rw [hsignatures], hvisits.append_left _⟩
    | zero =>
      cases rest with
      | nil =>
        have hone := renumbered_inferStmts hnames index scope
        exact ⟨hc, hone.symm, .refl _⟩
      | cons t rest =>
        rw [inferStmts_cons, inferStmts_cons] at hc hind
        simp only [Findings.complaints_append, List.append_eq_nil_iff] at hc
        have ht := hrest t List.mem_cons_self
        rcases Stmt.infer_swapped rfl hc.1 rfl hc.2.1 hs ht (hind _ rfl _ rfl) with
          ⟨mid', last', ht', htc', htvisits, hs', hsc', hsvisits, hagrees⟩
        have hsame := inferStmts_congr rest (index + 1 + 1) hagrees
        have hmarkers := renumbered_inferStmts
          (fun u hu => hrest u (List.mem_cons_of_mem t hu)) (index + 1 + 1)
        rw [exchange_zero, inferStmts_cons, inferStmts_cons, ht', hs', hsame, inferStmts_cons,
          inferStmts_cons]
        simp only [Findings.complaints_append, Findings.visits_append, exchange_zero,
          Signature.renumbered_cons, hmarkers]
        refine ⟨by rw [htc', hsc', hc.2.2]; rfl, trivial, ?_⟩
        rw [htvisits, hsvisits, ← List.append_assoc, ← List.append_assoc]
        exact List.perm_append_comm.append_right _

end Inference

/-! ## Types -/

namespace TypeTable

/-- Visits that give a node the same type are recorded in either order. -/
theorem set_comm (types : TypeTable) {v w : NodeId × Ty} (h : v.1 = w.1 → v.2 = w.2) :
    (types.set v.1 v.2).set w.1 w.2 = (types.set w.1 w.2).set v.1 v.2 := by
  rcases v with ⟨i, t⟩
  rcases w with ⟨j, u⟩
  by_cases hid : i = j
  · have htu : t = u := h hid
    rw [hid, htu]
  · have hne : i.toNat ≠ j.toNat := by
      intro heq
      apply hid
      cases i
      cases j
      simpa [NodeId.toNat, UInt32.toNat_inj] using heq
    simp only [set]
    rw [Array.setIfInBounds_comm _ _ hne]

/-- Visits that agree are recorded alike in all orders. -/
theorem record_perm (types : TypeTable) {xs ys : List (NodeId × Ty)} (h : xs.Perm ys)
    (hagree : ∀ v ∈ xs, ∀ w ∈ xs, v.1 = w.1 → v.2 = w.2) : types.record xs = types.record ys :=
  h.foldl_eq' (fun v hv w hw types => types.set_comm (hagree v hv w hw)) types

end TypeTable

namespace SoundProgram

variable {p : SoundProgram} {i : Nat}

theorem avoidsMarkers_exchanged (hm : p.AvoidsMarkers) (i : Nat) :
    (p.exchanged i).AvoidsMarkers := by
  intro s hs
  rw [stmts_exchanged, (exchange_perm i p.stmts).mem_iff] at hs
  exact hm s hs

/-- What inference finds when two independent statements have changed places. -/
theorem infer_exchanged (hc : p.infer.complaints = []) (hm : p.AvoidsMarkers)
    (hind : IndependentAt p.infer.signatures i) :
    (p.exchanged i).infer.complaints = [] ∧
      (p.exchanged i).infer.signatures =
        Signature.renumbered 0 (exchange i p.infer.signatures) ∧
      (p.exchanged i).visits.Perm p.visits := by
  have hinfer := inferStmts_exchange hm i 0 .empty hc hind
  rw [← p.stmts_exchanged] at hinfer
  exact hinfer

/-- No node is given two types, and the table has the types that it had. -/
theorem table_exchanged (hc : p.infer.complaints = []) (hv : p.VisitsAgree) (hm : p.AvoidsMarkers)
    (hind : IndependentAt p.infer.signatures i) :
    (p.exchanged i).VisitsAgree ∧ (p.exchanged i).infer.table = p.infer.table := by
  have hvisits := (infer_exchanged hc hm hind).2.2
  refine ⟨?_, ?_⟩
  · intro v hmem w hmem'
    exact hv v (hvisits.mem_iff.1 hmem) w (hvisits.mem_iff.1 hmem')
  · exact (TypeTable.record_perm _ hvisits.symm hv).symm

end SoundProgram

/-! ## Code -/

namespace Lowered

/-- The statement at another position. -/
def movedTo (index : Nat) (l : Lowered) : Lowered :=
  { l with signature := l.signature.movedTo index }

/-- Statements with the print markers of their positions. -/
def renumbered (index : Nat) (ls : List Lowered) : List Lowered :=
  (ls.zipIdx index).map fun x => x.1.movedTo x.2

theorem renumbered_cons (index : Nat) (l : Lowered) (rest : List Lowered) :
    renumbered index (l :: rest) = l.movedTo index :: renumbered (index + 1) rest :=
  rfl

@[simp]
theorem function_movedTo (index : Nat) (l : Lowered) : (l.movedTo index).function = l.function := by
  simp [function, movedTo, Signature.profile]

theorem map_stmt_renumbered (index : Nat) (ls : List Lowered) :
    (renumbered index ls).map stmt = ls.map stmt := by
  induction ls generalizing index with
  | nil => rfl
  | cons l rest ih =>
    rw [renumbered_cons, List.map_cons, List.map_cons, ih]
    rfl

theorem map_signature_renumbered (index : Nat) (ls : List Lowered) :
    (renumbered index ls).map signature = Signature.renumbered index (ls.map signature) := by
  induction ls generalizing index with
  | nil => rfl
  | cons l rest ih =>
    rw [renumbered_cons, List.map_cons, List.map_cons, Signature.renumbered_cons, ih]
    rfl

theorem exists_of_mem_renumbered {index : Nat} {ls : List Lowered} {l : Lowered}
    (h : l ∈ renumbered index ls) : ∃ k ∈ ls, ∃ position, l = k.movedTo position := by
  rcases List.mem_map.1 h with ⟨⟨k, position⟩, hk, rfl⟩
  exact ⟨k, List.fst_mem_of_mem_zipIdx hk, position, rfl⟩

/-- Signatures, values and a table of types determine the code. -/
theorem eq_of_lower (types : TypeTable) (b : Backend) {ls ls' : List Lowered}
    (hstmts : ls.map stmt = ls'.map stmt) (hsigs : ls.map signature = ls'.map signature)
    (h : ∀ l ∈ ls, l.signature.lower b types l.stmt.value = .ok l.function)
    (h' : ∀ l ∈ ls', l.signature.lower b types l.stmt.value = .ok l.function) : ls = ls' := by
  induction ls generalizing ls' with
  | nil => exact (List.map_eq_nil_iff.1 hstmts.symm).symm
  | cons l rest ih =>
    cases ls' with
    | nil => contradiction
    | cons l' rest' =>
      rw [List.map_cons, List.map_cons, List.cons.injEq] at hstmts hsigs
      have hl := h l List.mem_cons_self
      rw [hstmts.1, hsigs.1, h' l' List.mem_cons_self, Except.ok.injEq] at hl
      have hbody : l'.body = l.body := congrArg Function.body hl
      have hsame : l = l' := by
        cases l
        cases l'
        simp_all
      rw [hsame, ih hstmts.2 hsigs.2 (fun k hk => h k (List.mem_cons_of_mem l hk))
        fun k hk => h' k (List.mem_cons_of_mem l' hk)]

end Lowered

/-- The position of a statement plays no part in its code. -/
theorem Signature.lower_movedTo (index : Nat) (s : Signature) (b : Backend) (types : TypeTable)
    (value : Expr) : (s.movedTo index).lower b types value = s.lower b types value := by
  simp only [Signature.lower, Signature.profile, inputs_movedTo, ty_movedTo]

/-- A backend that addresses the inputs of statements addresses them in the new order. -/
theorem SoundProgram.addressedBy_of_exchange {p q : SoundProgram} {i : Nat}
    (hsigs : q.infer.signatures = Signature.renumbered 0 (exchange i p.infer.signatures))
    {b : Backend} (h : p.AddressedBy b) : q.AddressedBy b := by
  have hinputs : ∀ r : SoundProgram, r.AddressedBy b ↔
      ∀ inputs ∈ r.infer.signatures.map Signature.inputs, b.Addresses inputs.length := by
    intro r
    rw [AddressedBy, List.forall_mem_map]
  rw [hinputs, hsigs, Signature.map_inputs_renumbered, map_exchange]
  intro inputs hmem
  exact (hinputs p).1 h inputs ((exchange_perm i _).mem_iff.1 hmem)

/-- The code of the statements remains the same, in the new order. -/
theorem SoundProgram.prepared_exchanged {p : SoundProgram} {i : Nat}
    (hc : p.infer.complaints = []) (hv : p.VisitsAgree) (hm : p.AvoidsMarkers)
    (hind : IndependentAt p.infer.signatures i) :
    ∃ ls : List Lowered, Lowered.Prepared 0 .empty ls ∧ ls.map Lowered.stmt = p.stmts ∧
      (∀ b, p.AddressedBy b → ∀ limit, p.compile b limit = .ok (ls.map (Lowered.statement b))) ∧
      Lowered.Prepared 0 .empty (Lowered.renumbered 0 (exchange i ls)) ∧
      ∀ b, p.AddressedBy b → ∀ limit, (p.exchanged i).compile b limit =
        .ok ((Lowered.renumbered 0 (exchange i ls)).map (Lowered.statement b)) := by
  rcases p.prepared hc hv with ⟨ls, hprep, hstmts, hsigs, hlower, hcompile, -⟩
  rcases infer_exchanged hc hm hind with ⟨hc', hsigs', -⟩
  rcases table_exchanged hc hv hm hind with ⟨hv', htable⟩
  rcases (p.exchanged i).prepared hc' hv' with 
    ⟨ls', hprep', hstmts', hinfer', hlower', hcompile', -⟩
  have hsame : ls' = Lowered.renumbered 0 (exchange i ls) := by
    refine Lowered.eq_of_lower p.infer.table .interp ?_ ?_ ?_ ?_
    · rw [hstmts', Lowered.map_stmt_renumbered, map_exchange, hstmts, stmts_exchanged]
    · rw [hinfer', hsigs', Lowered.map_signature_renumbered, map_exchange, hsigs]
    · intro l hl
      rw [← htable]
      exact (hlower' l hl .interp).trans l.taken_interp
    · intro l hl
      rcases Lowered.exists_of_mem_renumbered hl with ⟨k, hk, position, rfl⟩
      rw [Lowered.function_movedTo]
      have hk' := hlower k ((exchange_perm i ls).mem_iff.1 hk) .interp
      exact (Signature.lower_movedTo _ _ _ _ _).trans (hk'.trans k.taken_interp)
  subst hsame
  exact ⟨ls, hprep, hstmts, hcompile, hprep',
    fun b h => hcompile' b (addressedBy_of_exchange hsigs' h)⟩

/-! ## Runs -/

theorem forall₂_exchange {α β : Type} {R : α → β → Prop} {xs : List α} {ys : List β}
    (h : List.Forall₂ R xs ys) (i : Nat) : List.Forall₂ R (exchange i xs) (exchange i ys) := by
  induction h generalizing i with
  | nil =>
    rw [exchange_nil, exchange_nil]
    exact .nil
  | cons hx hrest ih =>
    cases i with
    | succ i => exact .cons hx (ih i)
    | zero =>
      cases hrest with
      | nil => exact .cons hx .nil
      | cons hy hrest => exact .cons hy (.cons hx hrest)

/-- The lines of executed statements, with their values: each print statement has one. -/
def linesOf (done : List (Stmt × Value)) : List String :=
  (done.filter fun x => x.1.target.isNone).map fun x => x.2.text

namespace Lowered

variable {ls : List Lowered} {l : Lowered} {b : Backend} {mode : Mode} {m : Memory}
  {values : List Value}

/-- The position of a statement plays no part in its value. -/
theorem HasValueIn.movedTo {value : Value} (h : l.HasValueIn b mode m value)
    (hmark : l.signature.output.isPrintMarker = l.stmt.target.isNone) (index : Nat) :
    (l.movedTo index).HasValueIn b mode m value := by
  refine ⟨?_, fun htarget => ?_⟩
  · rcases h.1 with ⟨args, hreads, hresult⟩
    refine ⟨args, ?_, ?_⟩
    · have hinputs : ((l.movedTo index).statement b).inputs = (l.statement b).inputs :=
        l.signature.inputs_movedTo index
      rw [Statement.Reads, hinputs]
      exact hreads
    · have hcallable : ((l.movedTo index).statement b).callable = (l.statement b).callable := by
        funext mode args
        exact congrArg (fun f => Answer.mk (b.eval mode f args) false) (l.function_movedTo index)
      rw [hcallable]
      exact hresult
  · have hsome : l.stmt.target.isSome := htarget
    have hunmarked : l.signature.output.isPrintMarker = false := by
      rw [hmark, Option.isNone_eq_false_iff]
      exact hsome
    have hsame : (l.movedTo index).signature.output = l.signature.output :=
      congrArg Signature.output (Signature.movedTo_of_not_isPrintMarker hunmarked index)
    rw [hsame]
    exact h.2 hsome

theorem hasValueIn_renumbered (h : List.Forall₂ (HasValueIn b mode m) ls values)
    (hmark : ∀ l ∈ ls, l.signature.output.isPrintMarker = l.stmt.target.isNone) (index : Nat) :
    List.Forall₂ (HasValueIn b mode m) (renumbered index ls) values := by
  induction h generalizing index with
  | nil => exact .nil
  | @cons l value rest values hl _ ih =>
    rw [renumbered_cons]
    exact .cons (hl.movedTo (hmark l List.mem_cons_self) index)
      (ih (fun k hk => hmark k (List.mem_cons_of_mem l hk)) (index + 1))

/-- At the end of a run that succeeds all statements have their values. -/
theorem hasValueIn_executed (hlength : (executed mode .empty (ls.map (statement b))).length =
      ls.length) (hvalues : values = (executed mode .empty (ls.map (statement b))).map Prod.snd) :
    List.Forall₂ (HasValueIn b mode ⟨(ls.map fun l => l.signature.output).zip values⟩) ls
      values := by
  have hcancels : ∀ s ∈ ls.map (statement b), s.NeverCancels := by
    intro s hs
    rcases List.mem_map.1 hs with ⟨l, -, rfl⟩
    exact l.neverCancels_statement b
  have hzip := eq_zip_of_map_fst (execute_eq_executed mode _ hcancels .empty []).2.2
  rw [← hvalues] at hzip
  refine List.forall₂_iff_zip.2 ⟨?_, fun {l value} hmem => ?_⟩
  · rw [hvalues, List.length_map, hlength]
  · have hx : (l.statement b, value) ∈ executed mode .empty (ls.map (statement b)) := by
      rw [hzip, List.zip_map_left]
      exact List.mem_map.2 ⟨(l, value), hmem, rfl⟩
    have hmemory : (executed mode .empty (ls.map (statement b))).map
        (fun x => (x.1.output, x.2)) = (ls.map fun l => l.signature.output).zip values := by
      rw [hzip, List.zip_map_left, List.zip_map_left, List.map_map]
      rfl
    have hend := computes_of_executed mode (ls.map (statement b)) .empty _ hx
    rw [hmemory] at hend
    exact ⟨hend.1, fun _ => hend.2⟩

/-- The print markers are those of the print statements. -/
theorem Prepared.isPrintMarker (h : Prepared 0 .empty ls)
    (hnames : ∀ l ∈ ls, l.stmt.AvoidsMarkers) :
    ∀ l ∈ ls, l.signature.output.isPrintMarker = l.stmt.target.isNone := by
  intro l hl
  exact ((h.fresh hnames).1 l hl).isPrintMarker (hnames l hl)

/-- A run of all statements leaves their lines, and their values under the names they define. -/
theorem Prepared.execute_of_executed (h : Prepared 0 .empty ls)
    (hnames : ∀ l ∈ ls, l.stmt.AvoidsMarkers)
    (hvalues : values = (executed mode .empty (ls.map (statement b))).map Prod.snd)
    (hlength : values.length = ls.length) :
    (execute mode (.fresh (.buffer [])) (ls.map (statement b))).1 = .ok () ∧
      (execute mode (.fresh (.buffer [])) (ls.map (statement b))).2.sink =
        .buffer (linesOf ((ls.map stmt).zip values)) ∧
      ∀ x ∈ (ls.map stmt).zip values, ∀ name ∈ x.1.target,
        (execute mode (.fresh (.buffer [])) (ls.map (statement b))).2.memory.lookup? name =
          some x.2 := by
  rcases execute_statements ls b mode hvalues with ⟨-, hresult, hstate⟩
  rcases h.fresh hnames with ⟨hfresh, hnodup⟩
  refine ⟨hresult.2 hlength, ?_, fun x hx name htarget => ?_⟩
  · rw [hstate, printedLines_zip (h.isPrintMarker hnames)]
    rfl
  · rcases List.mem_iff_getElem?.1 hx with ⟨j, hj⟩
    rw [List.getElem?_zip_eq_some] at hj
    have hdefines : (ls.map stmt)[j]?.bind Stmt.target = some name := by
      rw [hj.1]
      exact htarget
    rw [hstate, lookup?_zip_outputs hnodup hfresh hdefines, hj.2]

end Lowered

/-! ## Programs -/

namespace SoundProgram

/--
What the runs of a program and of the program with two statements exchanged have in common, if the
former succeeds: `done` are its statements with their values.
-/
structure RunsAlike (p : SoundProgram) (i : Nat) (program program' : CompiledProgram)
    (done : List (Stmt × Value)) : Prop where
  /-- All statements of the program are executed. -/
  map_fst_done : done.map Prod.fst = p.stmts
  values_eq : (executed .sequential .empty program).map Prod.snd = done.map Prod.snd
  /-- The other run succeeds too, and the statements have the same values in it. -/
  ok : (execute .sequential (.fresh (.buffer [])) program').1 = .ok ()
  values_exchanged : (executed .sequential .empty program').map Prod.snd =
    (exchange i done).map Prod.snd
  /-- Every definition is bound, and to the same value. -/
  lookup?_eq : ∀ name ∈ p.defined, ∃ value,
    (execute .sequential (.fresh (.buffer [])) program).2.memory.lookup? name = some value ∧
      (execute .sequential (.fresh (.buffer [])) program').2.memory.lookup? name = some value
  /-- Both print the lines of their statements, each in its own order. -/
  sink_eq : (execute .sequential (.fresh (.buffer [])) program).2.sink = .buffer (linesOf done)
  sink_exchanged : (execute .sequential (.fresh (.buffer [])) program').2.sink =
    .buffer (linesOf (exchange i done))

/-- Runs of statements of which two have changed places, if the first run succeeds. -/
theorem runsAlike {p : SoundProgram} {i : Nat} {ls : List Lowered} (hm : p.AvoidsMarkers)
    (hstmts : ls.map Lowered.stmt = p.stmts) (hprep : Lowered.Prepared 0 .empty ls)
    (hprep' : Lowered.Prepared 0 .empty (Lowered.renumbered 0 (exchange i ls))) (b : Backend)
    (hok : (execute .sequential (.fresh (.buffer [])) (ls.map (Lowered.statement b))).1 = .ok ()) :
    ∃ done, p.RunsAlike i (ls.map (Lowered.statement b))
      ((Lowered.renumbered 0 (exchange i ls)).map (Lowered.statement b)) done := by
  have hstmts' : (Lowered.renumbered 0 (exchange i ls)).map Lowered.stmt = exchange i p.stmts := by
    rw [Lowered.map_stmt_renumbered, map_exchange, hstmts]
  have hnames : ∀ l ∈ ls, l.stmt.AvoidsMarkers := by
    intro l hl
    exact hm l.stmt (hstmts ▸ List.mem_map_of_mem hl)
  have hnames' : ∀ l ∈ Lowered.renumbered 0 (exchange i ls), l.stmt.AvoidsMarkers := by
    intro l hl
    have hmem := List.mem_map_of_mem (f := Lowered.stmt) hl
    rw [hstmts', (exchange_perm i p.stmts).mem_iff] at hmem
    exact hm l.stmt hmem
  generalize hvalues : (executed .sequential .empty (ls.map (Lowered.statement b))).map Prod.snd =
    values
  have hlength : values.length = ls.length :=
    (Lowered.execute_statements ls b .sequential hvalues.symm).2.1.1 hok
  have hall : (executed .sequential .empty (ls.map (Lowered.statement b))).length = ls.length := by
    rw [← hlength, ← hvalues, List.length_map]
  -- the memory at the end of the run says what the statements come to in the other order
  have hhas := Lowered.hasValueIn_executed hall hvalues.symm
  have hhas' := Lowered.hasValueIn_renumbered (forall₂_exchange hhas i)
    (fun l hl => hprep.isPrintMarker hnames l ((exchange_perm i ls).mem_iff.1 hl)) 0
  have hexecuted := hprep'.executed_eq hhas' .empty hnames' Memory.ready_empty
    (fun v hv => absurd hv List.not_mem_nil)
  have hvalues' : (executed .sequential .empty
      ((Lowered.renumbered 0 (exchange i ls)).map (Lowered.statement b))).map Prod.snd =
        exchange i values := by
    rw [hexecuted, List.map_snd_zip]
    rw [List.length_map]
    exact hhas'.length_eq.ge
  rcases hprep.execute_of_executed hnames hvalues.symm hlength with ⟨-, hsink, hbound⟩
  rcases hprep'.execute_of_executed hnames' hvalues'.symm hhas'.length_eq.symm with
    ⟨hok', hsink', hbound'⟩
  -- the statements with their values are exchanged as pairs
  have hlen : p.stmts.length = values.length := by rw [hlength, ← hstmts, List.length_map]
  have hfst : (p.stmts.zip values).map Prod.fst = p.stmts := List.map_fst_zip hlen.le
  have hsnd : (p.stmts.zip values).map Prod.snd = values := List.map_snd_zip hlen.ge
  have hpairs : exchange i (p.stmts.zip values) = (exchange i p.stmts).zip (exchange i values) :=
    List.zip_of_prod (by rw [map_exchange, hfst]) (by rw [map_exchange, hsnd])
  rw [hstmts] at hsink hbound
  rw [hstmts', ← hpairs] at hsink' hbound'
  refine ⟨p.stmts.zip values, hfst, hvalues.trans hsnd.symm, hok', ?_, ?_, hsink, hsink'⟩
  · rw [hvalues', map_exchange, hsnd]
  · intro name hname
    rcases List.mem_filterMap.1 hname with ⟨s, hs, htarget⟩
    rw [← hfst] at hs
    rcases List.mem_map.1 hs with ⟨⟨s, value⟩, hmem, rfl⟩
    exact ⟨value, hbound _ hmem name htarget,
      hbound' _ ((exchange_perm i _).mem_iff.2 hmem) name htarget⟩

/--
Independent statements commute.  Take a program without complaints, in which inference gives no node
two types and no definition has the name of a print marker, and exchange two adjacent statements of
which the second does not read what the first one writes.  Again there are no complaints and no node
is given two types; all nodes have the types that they had, and the signatures are exchanged with
their statements, with the print markers of their new positions.  Both programs compile, on every
machine that addresses their inputs.  If the sequential run of the first one on an empty memory
succeeds, so does that of the other one.  Every statement has the same value in both runs, every
definition ends up bound to the same value, and each print statement prints the same line, in the
order of the statements.
-/
theorem independent_statements_commute (p : SoundProgram) (hc : p.infer.complaints = [])
    (hv : p.VisitsAgree) (hm : p.AvoidsMarkers) (i : Nat)
    (hind : IndependentAt p.infer.signatures i) (b : Backend) :
    (p.exchanged i).stmts = exchange i p.stmts ∧
      (p.exchanged i).infer.complaints = [] ∧
      (p.exchanged i).infer.signatures =
        Signature.renumbered 0 (exchange i p.infer.signatures) ∧
      (p.exchanged i).infer.table = p.infer.table ∧
      (p.exchanged i).VisitsAgree ∧ (p.exchanged i).AvoidsMarkers ∧
      ∃ program program' : CompiledProgram,
        (p.AddressedBy b → ∀ limit, p.compile b limit = .ok program) ∧
        (p.AddressedBy b → ∀ limit, (p.exchanged i).compile b limit = .ok program') ∧
        ((execute .sequential (.fresh (.buffer [])) program).1 = .ok () →
          ∃ done, p.RunsAlike i program program' done) := by
  rcases infer_exchanged hc hm hind with ⟨hc', hsigs', -⟩
  rcases table_exchanged hc hv hm hind with ⟨hv', htable⟩
  rcases prepared_exchanged hc hv hm hind with
    ⟨ls, hprep, hstmts, hcompile, hprep', hcompile'⟩
  exact ⟨p.stmts_exchanged i, hc', hsigs', htable, hv', avoidsMarkers_exchanged hm i, _, _,
    hcompile b, hcompile' b, runsAlike hm hstmts hprep hprep' b⟩

/-- `var a = 2`, `print a + 1` and `print map({1, a}, x -> x * x)`. -/
def twoPrints : SoundProgram where
  program :=
    { arena :=
        { nodes := #[
            ⟨.int 2, .nowhere⟩, ⟨.ident ⟨0⟩, .nowhere⟩, ⟨.int 1, .nowhere⟩,
            ⟨.binary .add ⟨1⟩ ⟨2⟩, .nowhere⟩, ⟨.range ⟨2⟩ ⟨1⟩, .nowhere⟩,
            ⟨.ident ⟨1⟩, .nowhere⟩, ⟨.binary .mul ⟨5⟩ ⟨5⟩, .nowhere⟩,
            ⟨.lambda ⟨0, 1⟩ ⟨6⟩, .nowhere⟩, ⟨.map ⟨4⟩ ⟨7⟩, .nowhere⟩]
          names := #["a", "x"]
          params := #[⟨1⟩] }
      stmts := #[⟨.define ⟨0⟩ ⟨0⟩, .nowhere⟩, ⟨.print ⟨3⟩, .nowhere⟩, ⟨.print ⟨8⟩, .nowhere⟩] }
  sound := by decide +kernel

/-- The two print statements share nodes, and change their markers with their places. -/
theorem independent_statements_commute_twoPrints :
    twoPrints.infer.complaints = [] ∧ twoPrints.VisitsAgree ∧ twoPrints.AvoidsMarkers ∧
      IndependentAt twoPrints.infer.signatures 1 ∧
      (twoPrints.exchanged 1).infer.complaints = [] ∧
      (twoPrints.exchanged 1).infer.signatures.map Signature.output =
        [⟨"a", .int⟩, .printMarker 1 Ty.int.sequenceOf, .printMarker 2 .int] ∧
      ∀ b, ∃ program program' : CompiledProgram,
        (∀ limit, twoPrints.compile b limit = .ok program) ∧
        (∀ limit, (twoPrints.exchanged 1).compile b limit = .ok program') ∧
        (execute .sequential (.fresh (.buffer [])) program).1 = .ok () ∧
        ∃ done, twoPrints.RunsAlike 1 program program' done := by
  have hc : twoPrints.infer.complaints = [] := by decide +kernel
  have hv : twoPrints.VisitsAgree := by decide +kernel
  have hm : twoPrints.AvoidsMarkers := by decide +kernel
  have hind : IndependentAt twoPrints.infer.signatures 1 := by decide +kernel
  have hruns : ∀ b, (twoPrints.run? b).map Prod.fst = some (.ok ()) := by
    intro b
    cases b <;> decide +kernel
  have hcommute := independent_statements_commute twoPrints hc hv hm 1 hind
  rcases hcommute .interp with ⟨-, hc', hsigs, -, -, -, -⟩
  refine ⟨hc, hv, hm, hind, hc', ?_, fun b => ?_⟩
  · rw [hsigs]
    decide +kernel
  · have haddressed : twoPrints.AddressedBy b := by cases b <;> decide +kernel
    rcases hcommute b with ⟨-, -, -, -, -, -, program, program', hold, hnew, hrun⟩
    have hcompile := hold haddressed
    have hok : (execute .sequential (.fresh (.buffer [])) program).1 = .ok () := by
      have hresult := hruns b
      rw [run?, hcompile none] at hresult
      exact Option.some.inj hresult
    exact ⟨program, program', hcompile, hnew haddressed, hok, hrun hok⟩

/-- The lines of the two print statements are exchanged. -/
example : twoPrints.run? .interp = some (.ok (), some ["3", "[1, 4]"]) ∧
    (twoPrints.exchanged 1).run? .native = some (.ok (), some ["[1, 4]", "3"]) := by
  decide +kernel

end SoundProgram
end SeqCalc
