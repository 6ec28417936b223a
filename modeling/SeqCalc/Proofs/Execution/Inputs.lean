import SeqCalc.Proofs.Code.Loads
import SeqCalc.Proofs.Execution.Isolation
import SeqCalc.Proofs.Semantics.ByName
import SeqCalc.Proofs.Typing.Scopes

/-!
# The inputs of statements

Inference notes which variables a statement reads, and lowering later turns names into positions
among them.  The inputs of a statement are the variables of the names in its value, function
literals left out, each of them once and where its name occurs first.  They are what the earliest
definitions of these names write, whatever inference complains about.  In the code of a checked
statement each name loads the slot of its own variable, and that is where the value of the variable
is when the statement is executed.

Main results:

- `firstUses_filterMap`: first uses of variables are found for the first uses of their names.
- `SoundProgram.lookup?_scopeAt`: a scope has the earliest definition of a name.
- `SoundProgram.inputs_exact`: the inputs of a statement, and the slots that its code loads.
-/

namespace SeqCalc

/-! ## First uses -/

section FirstUses

variable {α β : Type} [DecidableEq α] [DecidableEq β]

/-- First uses are in the order in which they occur. -/
theorem pairwise_firstUses (xs : List α) :
    (firstUses xs).Pairwise fun x y => xs.idxOf x < xs.idxOf y := by
  induction xs with
  | nil => exact .nil
  | cons x xs ih =>
    have hne : ∀ y ∈ (firstUses xs).filter (· ≠ x), x ≠ y := by
      intro y hy
      exact Ne.symm (of_decide_eq_true (List.mem_filter.1 hy).2)
    refine List.pairwise_cons.2 ⟨fun y hy => ?_, ?_⟩
    · rw [List.idxOf_cons_self, List.idxOf_cons_ne xs (hne y hy)]
      exact Nat.succ_pos _
    · refine (ih.filter _).imp_of_mem fun {y z} hy hz hlt => ?_
      rw [List.idxOf_cons_ne xs (hne y hy), List.idxOf_cons_ne xs (hne z hz)]
      exact Nat.succ_lt_succ hlt

/-- If different items are mapped to different ones, first uses are found by mapping first uses. -/
theorem firstUses_filterMap {f : α → Option β}
    (hf : ∀ x y z, f x = some z → f y = some z → x = y) (xs : List α) :
    firstUses (xs.filterMap f) = (firstUses xs).filterMap f := by
  induction xs with
  | nil => rfl
  | cons x xs ih =>
    rw [firstUses, List.filterMap_cons, List.filterMap_cons, List.filterMap_filter]
    cases hx : f x with
    | none =>
      rw [ih]
      apply List.filterMap_congr
      intro y _
      by_cases hyx : y = x
      · simp [hyx, hx]
      · simp [hyx]
    | some z =>
      rw [firstUses, ih, List.filter_filterMap]
      congr 1
      apply List.filterMap_congr
      intro y _
      by_cases hyx : y = x
      · simp [hyx, hx]
      · cases hy : f y with
        | none => simp
        | some w =>
          have hwz : w ≠ z := by
            rintro rfl
            exact hyx (hf y x w hy hx)
          simp [hyx, hwz]

end FirstUses

/-! ## One statement -/

namespace Scope

/-- The scope after a definition: a definition whose name is taken leaves it as it is. -/
def extended (scope : Scope) (v : Variable) : Scope :=
  match scope.define v with
  | .ok wider => wider
  | .error _ => scope

theorem lookup?_extended (scope : Scope) (v : Variable) (name : String) :
    (scope.extended v).lookup? name =
      (scope.lookup? name).or (if v.name = name then some v else none) := by
  cases hold : scope.lookup? v.name with
  | some old =>
    have hextended : scope.extended v = scope := by rw [extended, define, hold]
    rw [hextended]
    by_cases hname : v.name = name
    · rw [← hname, hold, Option.some_or]
    · rw [if_neg hname, Option.or_none]
  | none =>
    have hdefine : scope.define v = .ok (scope.extended v) := by rw [extended, define, hold]
    rw [lookup?_define hdefine]
    by_cases hname : v.name = name
    · rw [if_pos hname, ← hname, hold, Option.none_or, if_pos rfl]
    · rw [if_neg hname, if_neg hname, Option.or_none]

theorem eq_of_lookup? {scope : Scope} (x y : String) (v : Variable)
    (hx : scope.lookup? x = some v) (hy : scope.lookup? y = some v) : x = y :=
  (name_of_lookup? hx).symm.trans (name_of_lookup? hy)

end Scope

namespace Stmt

variable (index : Nat) (scope : Scope)

theorem infer_define (name : String) (value : Expr) (span : Span) :
    (Stmt.infer index scope ⟨some name, value, span⟩).value =
      (⟨⟨name, (value.infer ⟨scope, false⟩).value⟩,
        firstUses (value.infer ⟨scope, false⟩).findings.reads⟩,
        scope.extended ⟨name, (value.infer ⟨scope, false⟩).value⟩) := by
  simp only [Stmt.infer, Inferred.value_bind, Scope.extended]
  cases scope.define ⟨name, (value.infer ⟨scope, false⟩).value⟩ <;> rfl

/-- The inputs of a statement are what its scope has for the first uses of its names. -/
theorem inputs_infer (s : Stmt) :
    (s.infer index scope).value.1.inputs = (firstUses s.value.names).filterMap scope.lookup? := by
  have hinputs : (s.infer index scope).value.1.inputs =
      firstUses (s.value.infer ⟨scope, false⟩).findings.reads := by
    rcases s with ⟨_ | name, value, span⟩
    · rfl
    · rw [infer_define]
  rw [hinputs, s.value.reads_infer.1]
  exact firstUses_filterMap Scope.eq_of_lookup? _

theorem name_output_infer {s : Stmt} {name : String} (h : s.target = some name) :
    (s.infer index scope).value.1.output.name = name := by
  rcases s with ⟨target, value, span⟩
  cases h
  rw [infer_define]

/-- A definition adds what it writes, unless its name is taken; a print statement adds nothing. -/
theorem lookup?_infer (s : Stmt) (name : String) :
    (s.infer index scope).value.2.lookup? name =
      (scope.lookup? name).or
        (if s.target = some name then some (s.infer index scope).value.1.output else none) := by
  rcases s with ⟨_ | target, value, span⟩
  · rw [infer_print, if_neg (Option.some_ne_none name).symm, Option.or_none]
  · simp only [infer_define, Scope.lookup?_extended, Option.some.injEq]

end Stmt

/-! ## Scopes and signatures of statements in a row -/

theorem scopeAfter_append (index : Nat) (scope : Scope) (stmts rest : List Stmt) :
    scopeAfter index scope (stmts ++ rest) =
      scopeAfter (index + stmts.length) (scopeAfter index scope stmts) rest := by
  induction stmts generalizing index scope with
  | nil => rfl
  | cons s stmts ih =>
    rw [List.cons_append, scopeAfter, ih, scopeAfter, List.length_cons, Nat.add_right_comm,
      Nat.add_assoc]

/-- Each signature is inferred in the scope that the statements before leave. -/
theorem getElem?_inferStmts (index : Nat) (scope : Scope) (stmts : List Stmt) (k : Nat) :
    (inferStmts index scope stmts).value[k]? =
      stmts[k]?.map fun s =>
        (s.infer (index + k) (scopeAfter index scope (stmts.take k))).value.1 := by
  induction stmts generalizing index scope k with
  | nil => rfl
  | cons s stmts ih =>
    rw [inferStmts_cons]
    cases k with
    | zero => rfl
    | succ k =>
      rw [List.getElem?_cons_succ, List.getElem?_cons_succ, ih, Nat.add_right_comm]
      rfl

namespace SoundProgram

variable {p : SoundProgram} {i : Nat} {s : Stmt}

theorem scopeAt_succ (h : p.stmts[i]? = some s) :
    p.scopeAt (i + 1) = (s.infer i (p.scopeAt i)).value.2 := by
  have hlength : (p.stmts.take i).length = i :=
    List.length_take_of_le (Nat.le_of_lt (List.getElem?_eq_some_iff.1 h).1)
  rw [scopeAt, List.take_add_one, h, scopeAfter_append, hlength, Nat.zero_add]
  rfl

theorem scopeAt_succ_of_none (h : p.stmts[i]? = none) : p.scopeAt (i + 1) = p.scopeAt i := by
  rw [scopeAt, List.take_add_one, h, Option.toList_none, List.append_nil, scopeAt]

theorem signature_eq (h : p.stmts[i]? = some s) :
    p.infer.signatures[i]? = some (s.infer i (p.scopeAt i)).value.1 := by
  have hget := getElem?_inferStmts 0 .empty p.stmts i
  rw [h, Nat.zero_add] at hget
  exact hget

/-! ## Earliest definitions -/

/-- A statement before `i` defines the variable, and none before that defines its name. -/
def DefinesFirst (p : SoundProgram) (i : Nat) (v : Variable) : Prop :=
  ∃ j < i, p.Defines j v ∧ ∀ k < j, p.stmts[k]?.bind Stmt.target ≠ some v.name

/-- A scope has no variable of a name that no statement before defines. -/
theorem lookup?_scopeAt_eq_none_iff (p : SoundProgram) (i : Nat) (name : String) :
    (p.scopeAt i).lookup? name = none ↔ ∀ j < i, p.stmts[j]?.bind Stmt.target ≠ some name := by
  induction i with
  | zero => simp [scopeAt, scopeAfter, Scope.lookup?, Scope.empty]
  | succ i ih =>
    rw [Nat.forall_lt_succ_right, ← ih]
    cases h : p.stmts[i]? with
    | none => simp [scopeAt_succ_of_none h]
    | some s => simp [scopeAt_succ h, s.lookup?_infer]

/-- A scope has what the earliest definition of a name writes, and only that. -/
theorem lookup?_scopeAt (p : SoundProgram) (i : Nat) (name : String) (v : Variable) :
    (p.scopeAt i).lookup? name = some v ↔ v.name = name ∧ p.DefinesFirst i v := by
  induction i with
  | zero => simp [scopeAt, scopeAfter, Scope.lookup?, Scope.empty, DefinesFirst]
  | succ i ih =>
    have hstep : p.DefinesFirst (i + 1) v ↔ p.DefinesFirst i v ∨
        p.Defines i v ∧ ∀ k < i, p.stmts[k]?.bind Stmt.target ≠ some v.name := by
      simp only [DefinesFirst, Nat.exists_lt_succ_right]
    rw [hstep]
    cases h : p.stmts[i]? with
    | none => simp [scopeAt_succ_of_none h, ih, Defines, h]
    | some s =>
      have hdefines : p.Defines i v ↔
          s.target = some v.name ∧ (s.infer i (p.scopeAt i)).value.1.output = v := by
        simp [Defines, h, signature_eq h]
      rw [scopeAt_succ h, s.lookup?_infer, Option.or_eq_some_iff, ih, and_or_left, hdefines,
        ← p.lookup?_scopeAt_eq_none_iff]
      apply or_congr_right
      constructor
      · rintro ⟨hnone, hoption⟩
        split at hoption
        · rename_i htarget
          have hname := s.name_output_infer i (p.scopeAt i) htarget
          cases hoption
          rw [hname]
          exact ⟨rfl, ⟨htarget, rfl⟩, hnone⟩
        · contradiction
      · rintro ⟨rfl, ⟨htarget, houtput⟩, hnone⟩
        exact ⟨hnone, by rw [if_pos htarget, houtput]⟩

end SoundProgram

/-! ## Lowered statements -/

/-- A program without complaints has none about any of its statements. -/
theorem complaints_infer {stmts : List Stmt} {index : Nat} {scope : Scope}
    (hc : (inferStmts index scope stmts).findings.complaints = []) {k : Nat} {s : Stmt}
    (hs : stmts[k]? = some s) :
    (s.infer (index + k) (scopeAfter index scope (stmts.take k))).findings.complaints = [] := by
  induction stmts generalizing index scope k with
  | nil => contradiction
  | cons first rest ih =>
    rw [inferStmts_cons, Findings.complaints_append, List.append_eq_nil_iff] at hc
    cases k with
    | zero =>
      cases hs
      exact hc.1
    | succ k =>
      rw [← Nat.add_assoc, Nat.add_right_comm]
      exact ih hc.2 hs

/-- A program that is compiled has the function of each of its statements. -/
theorem exists_lower_of_compileStmts {b : Backend} {types : TypeTable} {stmts : List Stmt}
    {signatures : List Signature} {program : CompiledProgram}
    (h : compileStmts b types stmts signatures = .ok program) {i : Nat} {s : Stmt} {σ : Signature}
    (hs : stmts[i]? = some s) (hσ : signatures[i]? = some σ) :
    ∃ f, σ.lower b types s.value = .ok f ∧
      program[i]? = some (.ofFunction b f σ s.span) := by
  induction stmts generalizing signatures program i with
  | nil => contradiction
  | cons first stmts ih =>
    cases signatures with
    | nil => contradiction
    | cons signature signatures =>
      rcases exists_of_bind_eq_ok h with ⟨f, hf, h⟩
      rcases exists_of_bind_eq_ok h with ⟨rest, hrest, h⟩
      cases h
      cases i with
      | zero =>
        cases hs
        cases hσ
        exact ⟨f, hf, rfl⟩
      | succ i => exact ih hrest hs hσ

/--
The statement has the variable as its input at this slot and at no other, and whenever it is
executed with all its inputs bound, the argument at the slot is the value of the variable.
-/
structure Statement.Passes (st : Statement) (v : Variable) (slot : Nat) : Prop where
  input : ∀ k, st.inputs[k]? = some v ↔ k = slot
  argument : ∀ m args, st.arguments m = .ok args →
    ∃ value, m.get v = .ok value ∧ args[slot]? = some value

theorem Statement.passes_of_nodup {st : Statement} {v : Variable} {slot : Nat}
    (hnodup : st.inputs.Nodup) (h : st.inputs[slot]? = some v) : st.Passes v slot := by
  have hslot : slot < st.inputs.length := (List.getElem?_eq_some_iff.1 h).1
  refine ⟨fun k => ⟨fun hk => ?_, fun hk => hk ▸ h⟩, fun m args hargs => ?_⟩
  · exact ((List.getElem?_inj hslot hnodup).1 (h.trans hk.symm)).symm
  · have hvalues := mapM_eq_ok_iff.1 hargs
    have hslot' : slot < args.length := hvalues.length_eq ▸ hslot
    have hget := hvalues.get hslot hslot'
    rw [List.get_eq_getElem, (List.getElem?_eq_some_iff.1 h).2] at hget
    exact ⟨args[slot], hget, List.getElem?_eq_getElem hslot'⟩

namespace SoundProgram

/-- Conversely, the statements of a program that is compiled are. -/
theorem compileStmts_of_compile {p : SoundProgram} (hc : p.infer.complaints = []) {b : Backend}
    {limit : Option Nat} {program : CompiledProgram} (h : p.compile b limit = .ok program) :
    compileStmts b p.infer.table p.stmts p.infer.signatures = .ok program := by
  rw [compile_eq hc] at h
  cases hstmts : compileStmts b p.infer.table p.stmts p.infer.signatures with
  | error e =>
    rw [hstmts] at h
    contradiction
  | ok statements =>
    rw [hstmts] at h
    exact congrArg _ (Except.ok.inj h)

/-- The inputs of the statement at a position are those that its value asks for, in this order. -/
structure ReadsExactly (p : SoundProgram) (i : Nat) (value : Expr) (inputs : List Variable) :
    Prop where
  nodup : inputs.Nodup
  /-- They are the variables of the names in the value, function literals left out. -/
  mem_iff : ∀ v, v ∈ inputs ↔ ∃ name ∈ value.names, (p.scopeAt i).lookup? name = some v
  /-- A variable whose name occurs earlier is an earlier input. -/
  ordered : inputs.Pairwise fun v w => value.names.idxOf v.name < value.names.idxOf w.name
  /-- Each of them is what the earliest definition of its name writes. -/
  defined : ∀ v ∈ inputs, p.DefinesFirst i v

/-- In the code of the statement at a position each name loads its own variable. -/
structure LoadsInputs (p : SoundProgram) (i : Nat) (s : Stmt) (σ : Signature) (b : Backend) :
    Prop where
  /-- The program can be compiled if it gives no node two types and its inputs are addressed. -/
  compiles : p.VisitsAgree → p.AddressedBy b → ∃ program, ∀ limit, p.compile b limit = .ok program
  /-- A compiled program has the function of the statement. -/
  lowered : ∀ limit program, p.compile b limit = .ok program →
    ∃ f, σ.lower b p.infer.table s.value = .ok f ∧ program[i]? = some (.ofFunction b f σ s.span)
  /-- The loads of the function are, name by name, the slots where the variables are passed. -/
  loads : ∀ f, σ.lower b p.infer.table s.value = .ok f →
    List.Forall₂
      (fun name slot => ∃ v, (p.scopeAt i).lookup? name = some v ∧
        (Statement.ofFunction b f σ s.span).Passes v slot)
      s.value.names f.body.loads

section Inputs

variable {p : SoundProgram} {i : Nat} {s : Stmt}

theorem readsExactly (p : SoundProgram) (i : Nat) (s : Stmt) :
    p.ReadsExactly i s.value (s.infer i (p.scopeAt i)).value.1.inputs := by
  have hmem : ∀ v, v ∈ (s.infer i (p.scopeAt i)).value.1.inputs ↔
      ∃ name ∈ s.value.names, (p.scopeAt i).lookup? name = some v := by
    intro v
    rw [s.inputs_infer, List.mem_filterMap]
    simp only [mem_firstUses]
  have hordered : (s.infer i (p.scopeAt i)).value.1.inputs.Pairwise fun v w =>
      s.value.names.idxOf v.name < s.value.names.idxOf w.name := by
    rw [s.inputs_infer, List.pairwise_filterMap]
    refine (pairwise_firstUses s.value.names).imp fun hlt v hv w hw => ?_
    rwa [Scope.name_of_lookup? hv, Scope.name_of_lookup? hw]
  refine ⟨?_, hmem, hordered, ?_⟩
  · refine hordered.imp ?_
    rintro v w hlt rfl
    exact Nat.lt_irrefl _ hlt
  · intro v hv
    rcases (hmem v).1 hv with ⟨name, -, hname⟩
    exact ((p.lookup?_scopeAt i name v).1 hname).2

theorem isSome_lookup?_scopeAt (hc : p.infer.complaints = []) (hs : p.stmts[i]? = some s) :
    ∀ name ∈ s.value.names, ((p.scopeAt i).lookup? name).isSome := by
  have hstmt := complaints_infer hc hs
  rw [Nat.zero_add] at hstmt
  exact s.value.isSome_of_complaints (Stmt.infer_cases rfl hstmt).1

theorem loadsInputs (hc : p.infer.complaints = []) (hs : p.stmts[i]? = some s) (b : Backend) :
    p.LoadsInputs i s (s.infer i (p.scopeAt i)).value.1 b := by
  have hreads := p.readsExactly i s
  refine ⟨fun hv haddressed => ?_, fun limit program hcompile => ?_, fun f hf => ?_⟩
  · rcases p.prepared hc hv with ⟨ls, -, -, -, -, hcompile, -⟩
    exact ⟨_, hcompile b haddressed⟩
  · exact exists_lower_of_compileStmts (compileStmts_of_compile hc hcompile) hs (signature_eq hs)
  · rcases exists_of_bind_eq_ok hf with ⟨body, hbody, hf⟩
    cases hf
    have hmade := Backend.eq_ok_of_addressed (Backend.eq_ok_of_wrap hbody)
    have hloads := s.value.loads_lower body hmade
    have hfound := isSome_lookup?_scopeAt hc hs
    refine ((List.forall₂_and_left _ _).2 ⟨hfound, hloads⟩).imp ?_
    rintro name slot ⟨hsome, hslot⟩
    rcases Option.isSome_iff_exists.1 hsome with ⟨v, hv⟩
    refine ⟨v, hv, Statement.passes_of_nodup hreads.nodup ?_⟩
    -- the input at the slot has the name, and the scope has one variable of that name
    have hat := (slot?_eq_some_iff.1 hslot).1
    rw [List.getElem?_map, Option.map_eq_some_iff] at hat
    rcases hat with ⟨w, hw, rfl⟩
    rcases (hreads.mem_iff w).1 (List.mem_of_getElem? hw) with ⟨name, -, hname⟩
    rw [Scope.name_of_lookup? hname, hname, Option.some.injEq] at hv
    rwa [← hv]

end Inputs

/--
The inputs of a statement are exactly the variables that its value asks for, in the order of first
use.  If inference makes no complaint, each name in the value loads the slot of its own variable.
-/
theorem inputs_exact (p : SoundProgram) {i : Nat} {s : Stmt} (hs : p.stmts[i]? = some s) :
    ∃ σ, p.infer.signatures[i]? = some σ ∧ p.ReadsExactly i s.value σ.inputs ∧
      (p.infer.complaints = [] → ∀ b, p.LoadsInputs i s σ b) :=
  ⟨_, signature_eq hs, p.readsExactly i s, fun hc b => loadsInputs hc hs b⟩

/--
`var a = 1`, `var b = 2.0`, `var c = 3` and `print (b + a) * reduce({a, 3}, b, c x -> c + x)`, where
the function literal has a parameter of the name of a variable.
-/
def shadowedSum : SoundProgram where
  program :=
    { arena :=
        { nodes := #[
            ⟨.int 1, .nowhere⟩, ⟨.float 0x4000000000000000, .nowhere⟩, ⟨.int 3, .nowhere⟩,
            ⟨.ident ⟨1⟩, .nowhere⟩, ⟨.ident ⟨0⟩, .nowhere⟩, ⟨.binary .add ⟨3⟩ ⟨4⟩, .nowhere⟩,
            ⟨.ident ⟨0⟩, .nowhere⟩, ⟨.int 3, .nowhere⟩, ⟨.range ⟨6⟩ ⟨7⟩, .nowhere⟩,
            ⟨.ident ⟨1⟩, .nowhere⟩, ⟨.ident ⟨2⟩, .nowhere⟩, ⟨.ident ⟨3⟩, .nowhere⟩,
            ⟨.binary .add ⟨10⟩ ⟨11⟩, .nowhere⟩, ⟨.lambda ⟨0, 2⟩ ⟨12⟩, .nowhere⟩,
            ⟨.reduce ⟨8⟩ ⟨9⟩ ⟨13⟩, .nowhere⟩, ⟨.binary .mul ⟨5⟩ ⟨14⟩, .nowhere⟩]
          names := #["a", "b", "c", "x"]
          params := #[⟨2⟩, ⟨3⟩] }
      stmts := #[
        ⟨.define ⟨0⟩ ⟨0⟩, .nowhere⟩, ⟨.define ⟨1⟩ ⟨1⟩, .nowhere⟩, ⟨.define ⟨2⟩ ⟨2⟩, .nowhere⟩,
        ⟨.print ⟨15⟩, .nowhere⟩] }
  sound := by decide +kernel

/-- The last statement reads `b` and `a` in this order and does not read `c`. -/
theorem inputs_exact_shadowedSum :
    ∃ s σ f, shadowedSum.stmts[3]? = some s ∧ shadowedSum.infer.complaints = [] ∧
      shadowedSum.infer.signatures[3]? = some σ ∧ σ.inputs = [⟨"b", .float⟩, ⟨"a", .int⟩] ∧
      shadowedSum.ReadsExactly 3 s.value σ.inputs ∧
      σ.lower .native shadowedSum.infer.table s.value = .ok f ∧
      s.value.names = ["b", "a", "a", "b"] ∧ f.body.loads = [0, 1, 1, 0] ∧
      List.Forall₂
        (fun name slot => ∃ v, (shadowedSum.scopeAt 3).lookup? name = some v ∧
          (Statement.ofFunction .native f σ s.span).Passes v slot)
        ["b", "a", "a", "b"] [0, 1, 1, 0] := by
  have hc : shadowedSum.infer.complaints = [] := by decide +kernel
  have hv : shadowedSum.VisitsAgree := by decide +kernel
  have hsome : (shadowedSum.stmts[3]?).isSome := by decide +kernel
  rcases Option.isSome_iff_exists.1 hsome with ⟨s, hs⟩
  rcases inputs_exact shadowedSum hs with ⟨σ, hσ, hreads, hloads⟩
  have hnative := hloads hc .native
  rcases hnative.compiles hv (by decide +kernel) with ⟨program, hprogram⟩
  rcases hnative.lowered none program (hprogram none) with ⟨f, hf, -⟩
  have hnames : shadowedSum.stmts[3]?.map (fun s => s.value.names) =
      some ["b", "a", "a", "b"] := by decide +kernel
  have hinputs : shadowedSum.infer.signatures[3]?.map Signature.inputs =
      some [⟨"b", .float⟩, ⟨"a", .int⟩] := by decide +kernel
  have hslots : (shadowedSum.stmts[3]?.bind fun s =>
      shadowedSum.infer.signatures[3]?.bind fun σ =>
        (σ.lower .native shadowedSum.infer.table s.value).toOption.map fun f => f.body.loads) =
      some [0, 1, 1, 0] := by decide +kernel
  rw [hs, Option.map_some, Option.some.injEq] at hnames
  rw [hσ, Option.map_some, Option.some.injEq] at hinputs
  rw [hs, hσ, Option.bind_some, Option.bind_some, hf] at hslots
  have hslots : f.body.loads = [0, 1, 1, 0] := Option.some.inj hslots
  have hall := hnative.loads f hf
  rw [hnames, hslots] at hall
  exact ⟨s, σ, f, hs, hc, hσ, hinputs, hreads, hf, hnames, hslots, hall⟩

end SoundProgram
end SeqCalc
