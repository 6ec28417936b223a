import SeqCalc.Execution.Compile
import SeqCalc.Proofs.Code.Loads
import SeqCalc.Proofs.Code.Lowering

/-!
# Compiling checked programs

If inference makes no complaint and gives no node two types, then both backends take every statement
of a program, and it is the same code that they take.  Each statement reads inputs that earlier
statements define, and its code follows the rules for the type of its output.  The code loads every
input, so the one reason for which a statement can still be refused is that it has more inputs than
the native machine addresses.

Main results:

- `Stmt.infer_cases`: what a statement without complaints writes, and the scope after it.
- `Stmt.exists_lowered`: what the backends make of a statement without complaints.
- `SoundProgram.prepared`: the lowered statements of a program, and when it compiles to them.
-/

namespace SeqCalc

/-! ## Inputs -/

theorem mem_firstUses {α : Type} [DecidableEq α] {x : α} {xs : List α} :
    x ∈ firstUses xs ↔ x ∈ xs := by
  induction xs with
  | nil => rfl
  | cons y ys ih =>
    rw [firstUses, List.mem_cons, List.mem_filter, ih, List.mem_cons]
    by_cases h : x = y
    · simp [h]
    · simp [h]

theorem nodup_firstUses {α : Type} [DecidableEq α] (xs : List α) : (firstUses xs).Nodup := by
  induction xs with
  | nil => exact List.nodup_nil
  | cons x xs ih =>
    rw [firstUses, List.nodup_cons]
    exact ⟨fun h => of_decide_eq_true (List.mem_filter.1 h).2 rfl, ih.filter _⟩

theorem Scope.name_of_lookup? {scope : Scope} {name : String} {v : Variable}
    (h : scope.lookup? name = some v) : v.name = name := by
  simpa using List.find?_some h

/-- Variables that a scope knows by their names. -/
def Scope.Knows (scope : Scope) (inputs : List Variable) : Prop :=
  ∀ v ∈ inputs, scope.lookup? v.name = some v

/-- The variables that an expression reads have slots for all its names. -/
theorem Scope.slotsFor_of_reads {scope : Scope} {names : List String} {inputs : List Variable}
    (h : ∀ v, v ∈ inputs ↔ v ∈ names.filterMap scope.lookup?) :
    scope.Knows inputs ∧ scope.types.SlotsFor inputs names := by
  have hknows : scope.Knows inputs := by
    intro v hv
    rcases List.mem_filterMap.1 ((h v).1 hv) with ⟨name, -, hname⟩
    rw [name_of_lookup? hname]
    exact hname
  refine ⟨hknows, ?_⟩
  intro name hname t ht
  rcases Option.map_eq_some_iff.1 ht with ⟨v, hv, rfl⟩
  have hvname : v.name = name := name_of_lookup? hv
  have hmem : v ∈ inputs := (h v).2 (List.mem_filterMap.2 ⟨name, hname, hv⟩)
  have hslot : (slot? (inputs.map Variable.name) name).isSome := by
    rw [slot?, List.findIdx?_isSome, List.any_eq_true]
    exact ⟨name, List.mem_map.2 ⟨v, hmem, hvname⟩, beq_self_eq_true name⟩
  rcases Option.isSome_iff_exists.1 hslot with ⟨slot, hs⟩
  refine ⟨slot, hs, ?_⟩
  -- the input at the slot has the name, and the scope knows only one variable of that name
  have hat := (slot?_eq_some_iff.1 hs).1
  rw [List.getElem?_map, Option.map_eq_some_iff] at hat
  rcases hat with ⟨w, hw, hwname⟩
  have hlookup := hknows w (List.mem_of_getElem? hw)
  rw [hwname, hv, Option.some.injEq] at hlookup
  subst hlookup
  rw [hw, ← hvname]

/-- Code that loads the slots of all names loads every input, since each has one of the names. -/
theorem Scope.mem_loads_iff {scope : Scope} {names : List String} {inputs : List Variable}
    (h : ∀ v, v ∈ inputs ↔ v ∈ names.filterMap scope.lookup?) (hnodup : inputs.Nodup) {result : Ty}
    {code : Code} (hloads : (Scaffold.ofInputs result inputs).LoadsNames names code) (slot : Nat) :
    slot ∈ code.loads ↔ slot < inputs.length := by
  have hslots : names.map (slot? (inputs.map Variable.name)) = code.loads.map some := by
    rw [← List.forall₂_eq_eq_eq, List.forall₂_map_left_iff, List.forall₂_map_right_iff]
    exact hloads
  have hmem : slot ∈ code.loads ↔
      ∃ name ∈ names, slot? (inputs.map Variable.name) name = some slot := by
    rw [← List.mem_map_of_injective fun _ _ => Option.some.inj, ← hslots, List.mem_map]
  rw [hmem]
  constructor
  · rintro ⟨name, -, hslot⟩
    have hat := List.getElem?_eq_some_iff.1 (slot?_eq_some_iff.1 hslot).1
    exact List.length_map Variable.name ▸ hat.1
  · intro hlt
    have hinput : inputs[slot]? = some inputs[slot] := List.getElem?_eq_getElem hlt
    rcases List.mem_filterMap.1 ((h inputs[slot]).1 (List.getElem_mem hlt)) with
      ⟨name, hname, hlookup⟩
    have htype : scope.types name = some inputs[slot].ty := by rw [types, hlookup, Option.map_some]
    rcases (slotsFor_of_reads h).2 name hname _ htype with ⟨other, hother, hat⟩
    rw [← name_of_lookup? hlookup] at hat
    have hsame : other = slot := by
      have hlt' := (List.getElem?_eq_some_iff.1 hat).1
      exact (List.getElem?_inj hlt' hnodup).1 (hat.trans hinput.symm)
    exact ⟨name, hname, hsame ▸ hother⟩

/-! ## Statements -/

namespace Stmt

theorem infer_print (index : Nat) (scope : Scope) (value : Expr) (span : Span) :
    (Stmt.infer index scope ⟨none, value, span⟩).value =
      (⟨.printMarker index (value.infer ⟨scope, false⟩).value,
        firstUses (value.infer ⟨scope, false⟩).findings.reads⟩, scope) :=
  rfl

/-- What a statement without complaints writes, and the scope after it. -/
theorem infer_cases {index : Nat} {scope next : Scope} {s : Stmt} {signature : Signature}
    (hvalue : (s.infer index scope).value = (signature, next))
    (hc : (s.infer index scope).findings.complaints = []) :
    (s.value.infer ⟨scope, false⟩).findings.complaints = [] ∧
      signature.output.ty = (s.value.infer ⟨scope, false⟩).value ∧
      signature.inputs = firstUses (s.value.infer ⟨scope, false⟩).findings.reads ∧
      ((s.target = none ∧ signature.output = .printMarker index signature.output.ty ∧
          next = scope) ∨
        (s.target = some signature.output.name ∧ scope.define signature.output = .ok next)) := by
  rcases s with ⟨target, value, span⟩
  cases target with
  | none =>
    rw [infer_print, Prod.mk.injEq] at hvalue
    rcases hvalue with ⟨rfl, rfl⟩
    refine ⟨?_, rfl, rfl, .inl ⟨rfl, rfl, rfl⟩⟩
    simpa [Stmt.infer] using hc
  | some name =>
    simp only [Stmt.infer, Inferred.findings_bind, Findings.complaints_append,
      List.append_eq_nil_iff, Inferred.value_bind] at hc hvalue
    cases hd : scope.define ⟨name, (value.infer ⟨scope, false⟩).value⟩ with
    | error old => simp [hd] at hc
    | ok wider =>
      rw [hd] at hvalue
      simp only [Inferred.value_pure, Prod.mk.injEq] at hvalue
      rcases hvalue with ⟨rfl, rfl⟩
      exact ⟨hc.1, rfl, rfl, .inr ⟨rfl, hd⟩⟩

/-- A statement without complaints has a value of the type of its output. -/
theorem hasType_of_infer {index : Nat} {scope next : Scope} {s : Stmt} {signature : Signature}
    (hscope : scope.types.IsProper) (hvalue : (s.infer index scope).value = (signature, next))
    (hc : (s.infer index scope).findings.complaints = []) :
    s.value.HasType scope.types signature.output.ty := by
  rcases infer_cases hvalue hc with ⟨hvc, hty, -, -⟩
  rw [hty]
  exact Expr.hasType_of_infer ⟨scope, false⟩ hscope hvc

/-- Conversely, a statement with a typed value has no complaints if its name is free. -/
theorem infer_of_cases {index : Nat} {scope next : Scope} {s : Stmt} {signature : Signature}
    (hvalue : (s.value.infer ⟨scope, false⟩).value = signature.output.ty)
    (hc : (s.value.infer ⟨scope, false⟩).findings.complaints = [])
    (hinputs : firstUses (s.value.infer ⟨scope, false⟩).findings.reads = signature.inputs)
    (hnext : (s.target = none ∧ signature.output = .printMarker index signature.output.ty ∧
        next = scope) ∨
      (s.target = some signature.output.name ∧ scope.define signature.output = .ok next)) :
    (s.infer index scope).value = (signature, next) ∧
      (s.infer index scope).findings.complaints = [] := by
  rcases s with ⟨target, value, span⟩
  rcases signature with ⟨⟨name, ty⟩, inputs⟩
  rcases hnext with ⟨rfl, hmarker, rfl⟩ | ⟨rfl, hdefine⟩
  · refine ⟨?_, by simpa [Stmt.infer] using hc⟩
    rw [infer_print, hvalue, hinputs, ← hmarker]
  · simp [Stmt.infer, hvalue, hc, hinputs, hdefine]

end Stmt

/-- A statement with its signature and the body of its function. -/
structure Lowered where
  stmt : Stmt
  signature : Signature
  body : Code

namespace Lowered

def function (l : Lowered) : Function :=
  ⟨l.signature.profile, l.body⟩

/-- What a backend makes of the statement: its function, or nothing if there are too many inputs. -/
def taken (b : Backend) (l : Lowered) : Except BackendError Function :=
  if b.Addresses l.signature.inputs.length then .ok l.function
  else .error (.malformed .slotOutOfRange)

theorem taken_interp (l : Lowered) : l.taken .interp = .ok l.function :=
  if_pos (Backend.addresses_interp _)

/-- The compiled statement. -/
def statement (b : Backend) (l : Lowered) : Statement :=
  .ofFunction b l.function l.signature l.stmt.span

/-- A statement whose inputs are bound calls its function and binds the result. -/
theorem exec_of_arguments {l : Lowered} {b : Backend} {mode : Mode} {m : Memory}
    {args : List Value} (h : l.signature.inputs.mapM m.get = .ok args) :
    (l.statement b).exec mode m =
      ((do
        let value ← b.eval mode l.function args
        let memory ← m.bind l.signature.output value
        return (value, memory)), false) := by
  have harguments : (l.statement b).arguments m = .ok args := h
  rw [Statement.exec, harguments]
  rfl

/-- A statement with an input that is not bound has that as its fault. -/
theorem exec_of_missing {l : Lowered} {b : Backend} {mode : Mode} {m : Memory} {e : Fault}
    (h : l.signature.inputs.mapM m.get = .error e) :
    (l.statement b).exec mode m = (.error e, false) := by
  have harguments : (l.statement b).arguments m = .error e := h
  rw [Statement.exec, harguments]

/-- The statement reads variables of a scope, and its body is the code of its value. -/
structure FitsIn (l : Lowered) (scope : Scope) : Prop where
  proper : scope.types.IsProper
  knows : scope.Knows l.signature.inputs
  elaborates : l.stmt.value.Elaborates scope.types l.signature.inputs l.signature.output.ty l.body

theorem FitsIn.inputs_isProper {l : Lowered} {scope : Scope} (h : l.FitsIn scope) :
    ∀ v ∈ l.signature.inputs, v.ty.IsProper := by
  intro v hv
  apply h.proper v.name v.ty
  rw [Scope.types, h.knows v hv]
  rfl

theorem FitsIn.codeHasType {l : Lowered} {scope : Scope} (h : l.FitsIn scope) :
    l.body.HasType l.function.profile.params l.function.profile.result :=
  h.elaborates.codeHasType

/-- Lowered statements from a position on, each in the scope that those before it leave. -/
inductive Prepared : Nat → Scope → List Lowered → Prop
  | nil {index : Nat} {scope : Scope} : Prepared index scope []
  | cons {index : Nat} {scope next : Scope} {l : Lowered} {rest : List Lowered} :
      (l.stmt.infer index scope).value = (l.signature, next) →
      (l.stmt.infer index scope).findings.complaints = [] → l.FitsIn scope →
      Prepared (index + 1) next rest → Prepared index scope (l :: rest)

theorem Prepared.exists_fitsIn {index : Nat} {scope : Scope} {ls : List Lowered}
    (h : Prepared index scope ls) {l : Lowered} (hl : l ∈ ls) : ∃ s, l.FitsIn s := by
  induction h with
  | nil => contradiction
  | cons _ _ hfits _ ih =>
    rcases List.mem_cons.1 hl with rfl | hl
    · exact ⟨_, hfits⟩
    · exact ih hl

end Lowered

/-- What backends make of a complaint-free statement, with the types that inference gave. -/
theorem Stmt.exists_lowered {index : Nat} {scope next : Scope} {s : Stmt} {signature : Signature}
    {types : TypeTable} (hscope : scope.types.IsProper)
    (hvalue : (s.infer index scope).value = (signature, next))
    (hc : (s.infer index scope).findings.complaints = [])
    (hrec : types.Records (s.infer index scope).findings.visits) :
    next.types.IsProper ∧ ∃ body, Lowered.FitsIn ⟨s, signature, body⟩ scope ∧
      ∀ b, signature.lower b types s.value = Lowered.taken b ⟨s, signature, body⟩ := by
  rcases infer_cases hvalue hc with ⟨-, -, hinputs, hnext⟩
  have htyped := hasType_of_infer hscope hvalue hc
  have hreads : ∀ v, v ∈ signature.inputs ↔ v ∈ s.value.names.filterMap scope.lookup? := by
    intro v
    rw [hinputs, mem_firstUses, s.value.reads_infer.1]
    rfl
  rcases Scope.slotsFor_of_reads hreads with ⟨hknows, hslots⟩
  rw [visits_inferStmt] at hrec
  have hcode := htyped.hasCode types ⟨scope, false⟩ signature.inputs rfl hrec hslots
  rcases hcode with ⟨body, helab, hlower⟩
  have hfits : Lowered.FitsIn ⟨s, signature, body⟩ scope := ⟨hscope, hknows, helab⟩
  refine ⟨?_, body, hfits, ?_⟩
  · rcases hnext with ⟨-, -, rfl⟩ | ⟨-, hdefine⟩
    · exact hscope
    · rw [Scope.types_define hdefine]
      exact hscope.extend (htyped.isProper hscope) _
  · intro b
    have hproper : ∀ t ∈ signature.profile.params, t.IsProper := by
      intro t ht
      rcases List.mem_map.1 ht with ⟨v, hv, rfl⟩
      exact hfits.inputs_isProper v hv
    have hbody : s.value.lower b types ⟨signature.profile, signature.inputs.map Variable.name⟩ =
        .ok body := hlower b signature.output.ty
    have hnodup : signature.inputs.Nodup := hinputs ▸ nodup_firstUses _
    have hloads := Scope.mem_loads_iff hreads hnodup (s.value.loads_lower body hbody)
    rw [Signature.lower, hbody, b.wrap_addressed hproper helab.codeHasType hloads, Lowered.taken]
    by_cases hroom : b.Addresses signature.inputs.length
    · rw [if_pos hroom, if_pos hroom]
      rfl
    · rw [if_neg hroom, if_neg hroom]
      rfl

/-! ## Programs -/

theorem exists_prepared {types : TypeTable} (stmts : List Stmt) :
    ∀ (index : Nat) (scope : Scope), scope.types.IsProper →
      (inferStmts index scope stmts).findings.complaints = [] →
      types.Records (inferStmts index scope stmts).findings.visits →
      ∃ ls : List Lowered, Lowered.Prepared index scope ls ∧ ls.map Lowered.stmt = stmts ∧
        ls.map Lowered.signature = (inferStmts index scope stmts).value ∧
        ∀ l ∈ ls, ∀ b, l.signature.lower b types l.stmt.value = l.taken b := by
  induction stmts with
  | nil =>
    intro index scope _ _ _
    exact ⟨[], .nil, rfl, rfl, by simp⟩
  | cons s rest ih =>
    intro index scope hscope hc hrec
    simp only [inferStmts, Inferred.findings_bind, Findings.complaints_append,
      Findings.visits_append, List.append_eq_nil_iff, TypeTable.records_append] at hc hrec
    rcases s.exists_lowered hscope rfl hc.1 hrec.1 with ⟨hnext, body, hfits, hlower⟩
    rcases ih (index + 1) _ hnext hc.2.1 hrec.2.1 with ⟨ls, hprep, hstmts, hsigs, hall⟩
    refine ⟨⟨s, (s.infer index scope).value.1, body⟩ :: ls, ?_, ?_, ?_, ?_⟩
    · exact .cons rfl hc.1 hfits hprep
    · rw [List.map_cons, hstmts]
    · rw [List.map_cons, hsigs]
      rfl
    · intro l hl b
      rcases List.mem_cons.1 hl with rfl | hl
      · exact hlower b
      · exact hall l hl b

/-- Statements compile if each of them is taken. -/
theorem compileStmts_eq {b : Backend} {types : TypeTable} {ls : List Lowered}
    (h : ∀ l ∈ ls, l.signature.lower b types l.stmt.value = l.taken b) :
    compileStmts b types (ls.map Lowered.stmt) (ls.map Lowered.signature) =
      if ∀ l ∈ ls, b.Addresses l.signature.inputs.length then .ok (ls.map (Lowered.statement b))
      else .error (.malformed .slotOutOfRange) := by
  induction ls with
  | nil => rfl
  | cons l ls ih =>
    have hrest := ih fun k hk => h k (List.mem_cons_of_mem l hk)
    have hcons := List.forall_mem_cons (p := fun k => b.Addresses k.signature.inputs.length)
      (a := l) (l := ls)
    rw [List.map_cons, List.map_cons, compileStmts, h l List.mem_cons_self, Lowered.taken]
    by_cases hl : b.Addresses l.signature.inputs.length
    · rw [if_pos hl, ok_bind, hrest]
      by_cases hls : ∀ k ∈ ls, b.Addresses k.signature.inputs.length
      · rw [if_pos hls, if_pos (hcons.2 ⟨hl, hls⟩)]
        rfl
      · rw [if_neg hls, if_neg fun hall => hls (hcons.1 hall).2]
        rfl
    · rw [if_neg hl, if_neg fun hall => hl (hcons.1 hall).1]
      rfl

namespace SoundProgram

theorem check_of_complaints {p : SoundProgram} (hc : p.infer.complaints = [])
    (limit : Option Nat) : (p.check (.withLimit limit)).1 = .ok p.infer := by
  simp only [check, TypedProgram.diagnostics, hc]
  rfl

/-- A program without complaints compiles if its statements do. -/
theorem compile_eq {p : SoundProgram} (hc : p.infer.complaints = []) (b : Backend)
    (limit : Option Nat) :
    p.compile b limit =
      (compileStmts b p.infer.table p.stmts p.infer.signatures).mapError .backend := by
  rw [compile, check_of_complaints hc]
  dsimp only
  cases compileStmts b p.infer.table p.stmts p.infer.signatures <;> rfl

/-- No statement has more inputs than the backend addresses. -/
def AddressedBy (p : SoundProgram) (b : Backend) : Prop :=
  ∀ s ∈ p.infer.signatures, b.Addresses s.inputs.length

instance (p : SoundProgram) (b : Backend) : Decidable (p.AddressedBy b) :=
  inferInstanceAs (Decidable (∀ s ∈ p.infer.signatures, b.Addresses s.inputs.length))

theorem addressedBy_interp (p : SoundProgram) : p.AddressedBy .interp :=
  fun s _ => Backend.addresses_interp s.inputs.length

/-- The native machine addresses up to `2 ^ 28` inputs. -/
theorem addressedBy_native {p : SoundProgram} :
    p.AddressedBy .native ↔ ∀ s ∈ p.infer.signatures, s.inputs.length ≤ 2 ^ 28 :=
  forall₂_congr fun _ _ => Backend.addresses_native

/--
A program that inference makes no complaint about and in which no node is given two types: its
lowered statements, and that a backend compiles it to them exactly if it addresses their inputs.
-/
theorem prepared (p : SoundProgram) (hc : p.infer.complaints = []) (hv : p.VisitsAgree) :
    ∃ ls : List Lowered, Lowered.Prepared 0 .empty ls ∧ ls.map Lowered.stmt = p.stmts ∧
      ls.map Lowered.signature = p.infer.signatures ∧
      (∀ l ∈ ls, ∀ b, l.signature.lower b p.infer.table l.stmt.value = l.taken b) ∧
      (∀ b, p.AddressedBy b → ∀ limit, p.compile b limit = .ok (ls.map (Lowered.statement b))) ∧
      ∀ b, ¬ p.AddressedBy b → ∀ limit,
        p.compile b limit = .error (.backend (.malformed .slotOutOfRange)) := by
  obtain ⟨ls, hprep, hstmts, hsigs, hlower⟩ :=
    exists_prepared p.stmts 0 .empty Context.isProper_empty hc (p.records_visits hv)
  change ls.map Lowered.signature = p.infer.signatures at hsigs
  have haddressed : ∀ b : Backend,
      (∀ l ∈ ls, b.Addresses l.signature.inputs.length) ↔ p.AddressedBy b := by
    intro b
    rw [AddressedBy, ← hsigs, List.forall_mem_map]
  have hcompiled : ∀ b, compileStmts b p.infer.table p.stmts p.infer.signatures =
      if ∀ l ∈ ls, b.Addresses l.signature.inputs.length then .ok (ls.map (Lowered.statement b))
      else .error (.malformed .slotOutOfRange) := by
    intro b
    rw [← hstmts, ← hsigs]
    exact compileStmts_eq fun l hl => hlower l hl b
  refine ⟨ls, hprep, hstmts, hsigs, hlower, ?_, ?_⟩
  · intro b h limit
    rw [compile_eq hc, hcompiled, if_pos ((haddressed b).2 h)]
    rfl
  · intro b h limit
    rw [compile_eq hc, hcompiled, if_neg ((haddressed b).not.2 h)]
    rfl

/-- How a run of the program ends and the lines that it prints, if it compiles. -/
def run? (p : SoundProgram) (b : Backend) : Option (Except ExecError Unit × Option (List String)) :=
  match p.compile b none with
  | .ok program =>
    let (result, state) := execute .sequential (.fresh (.buffer [])) program
    some (result, state.sink.lines?)
  | .error _ => none

/--
A program that has all of it: `var xs = map({1, 3}, x -> x * x)` and
`print reduce(xs, 0.5, acc x -> acc + x)`, which folds integers into a float.
-/
def sumOfSquares : SoundProgram where
  program :=
    { arena :=
        { nodes := #[
            ⟨.int 1, .nowhere⟩, ⟨.int 3, .nowhere⟩, ⟨.range ⟨0⟩ ⟨1⟩, .nowhere⟩,
            ⟨.ident ⟨1⟩, .nowhere⟩, ⟨.ident ⟨1⟩, .nowhere⟩, ⟨.binary .mul ⟨3⟩ ⟨4⟩, .nowhere⟩,
            ⟨.lambda ⟨0, 1⟩ ⟨5⟩, .nowhere⟩, ⟨.map ⟨2⟩ ⟨6⟩, .nowhere⟩,
            ⟨.ident ⟨0⟩, .nowhere⟩, ⟨.float 0x3FE0000000000000, .nowhere⟩,
            ⟨.ident ⟨2⟩, .nowhere⟩, ⟨.ident ⟨1⟩, .nowhere⟩, ⟨.binary .add ⟨10⟩ ⟨11⟩, .nowhere⟩,
            ⟨.lambda ⟨1, 2⟩ ⟨12⟩, .nowhere⟩, ⟨.reduce ⟨8⟩ ⟨9⟩ ⟨13⟩, .nowhere⟩]
          names := #["xs", "x", "acc"]
          params := #[⟨1⟩, ⟨2⟩, ⟨1⟩] }
      stmts := #[⟨.define ⟨0⟩ ⟨7⟩, .nowhere⟩, ⟨.print ⟨14⟩, .nowhere⟩] }
  sound := by decide +kernel

end SoundProgram
end SeqCalc
