import SeqCalc.Proofs.Code.Outcomes
import SeqCalc.Proofs.Execution.Isolation
import SeqCalc.Proofs.Semantics.Correctness

/-!
# Modes of whole runs

A program whose folds are by associative functions does not depend on the mode that it is run in: if
its sequential run succeeds, then so does every parallel one, and with the same values, printed
lines and memory, however each fold puts its brackets, at whatever depth it stands.  That the
functions are associative is said of the function literals themselves, as functions on accumulators.

Main results:

- `Expr.Elaborates.foldsAssociate`: associative function literals have associative code.
- `Lowered.Schedules.exec`: one statement, as any schedule has it.
- `SoundProgram.modes_agree`: whole runs.
-/

namespace SeqCalc

/-! ## Folds of expressions -/

theorem AssociativeOn.congr {α : Type} {P : α → Prop} {op op' : α → α → Except Fault α}
    (h : AssociativeOn P op) (hclosed : ∀ a b, P a → P b → Yields P (op' a b))
    (hsame : ∀ a b, P a → P b → op' a b = op a b) : AssociativeOn P op' := by
  refine ⟨?_, ?_⟩
  · intro a b ha hb
    rw [hsame a b ha hb]
    exact h.total a b ha hb
  · intro a b c ha hb hc
    have hassoc := h.assoc a b c ha hb hc
    have hyab := hclosed a b ha hb
    have hybc := hclosed b c hb hc
    rcases h.total a b ha hb with ⟨v, hv⟩
    rcases h.total b c hb hc with ⟨w, hw⟩
    rw [hsame a b ha hb, hv] at hyab
    rw [hsame b c hb hc, hw] at hybc
    rw [hv, hw, ok_bind, ok_bind] at hassoc
    rw [hsame a b ha hb, hsame b c hb hc, hv, hw, ok_bind, ok_bind, hsame v c hyab hc,
      hsame a w ha hybc]
    exact hassoc

namespace Expr

/-- The folds of an expression, at any depth, by their sites and their function literals. -/
def folds : Expr → List (Site × Expr)
  | .int _ _ | .float _ _ | .ident _ _ => []
  | .unary _ _ operand => operand.folds
  | .binary _ _ left right => left.folds ++ right.folds
  | .range _ first last => first.folds ++ last.folds
  | .map _ seq function => seq.folds ++ function.folds
  | .reduce site seq neutral function =>
    seq.folds ++ neutral.folds ++ function.folds ++ [(site, function)]
  | .lambda _ _ body => body.folds

/-- Applied to two values of a type, a function literal never fails and does not mind brackets. -/
def AssociatesOn (function : Expr) (t : Ty) : Prop :=
  AssociativeOn (fun v => v.HasType t) fun a b => function.applied [t, t] [a, b]

/-- The function literals of all folds are associative on the types that a table has for them. -/
def FoldsAssociate (types : TypeTable) (e : Expr) : Prop :=
  ∀ fold ∈ e.folds, fold.2.AssociatesOn (types.get fold.1.id)

end Expr

theorem Code.foldsAssociate_coerced {code : Code} {own target : Scalar}
    (h : code.FoldsAssociate) : (code.coerced own target).FoldsAssociate := by
  unfold coerced
  split
  · exact h
  · exact h

namespace Expr

theorem foldsAssociate_reduce {types : TypeTable} {site : Site} {seq neutral function : Expr} :
    (Expr.reduce site seq neutral function).FoldsAssociate types ↔
      seq.FoldsAssociate types ∧ neutral.FoldsAssociate types ∧ function.FoldsAssociate types ∧
        function.AssociatesOn (types.get site.id) := by
  simp only [FoldsAssociate, folds, List.forall_mem_append, List.forall_mem_singleton, and_assoc]

/-- If the function literals of all folds are associative, then so is their code. -/
theorem Elaborates.foldsAssociate {types : TypeTable} {Γ : Context} {inputs : List Variable}
    {e : Expr} {t : Ty} {code : Code} (h : Elaborates Γ inputs e t code) :
    ∀ env : Env, env.scope.types = Γ → types.Records (e.infer env).findings.visits →
      e.FoldsAssociate types → code.FoldsAssociate := by
  induction h with
  | int => exact fun _ _ _ _ => trivial
  | float => exact fun _ _ _ _ => trivial
  | ident => exact fun _ _ _ _ => trivial
  | plus _ _ ih =>
    intro env henv hrec hassoc
    rw [visits_unary, TypeTable.records_append] at hrec
    exact ih env henv hrec.1 hassoc
  | neg _ _ ih =>
    intro env henv hrec hassoc
    rw [visits_unary, TypeTable.records_append] at hrec
    exact ih env henv hrec.1 hassoc
  | binary _ _ _ _ ihl ihr =>
    intro env henv hrec hassoc
    rw [visits_binary, TypeTable.records_append, TypeTable.records_append] at hrec
    have hparts := List.forall_mem_append.1 hassoc
    exact ⟨Code.foldsAssociate_coerced (ihl env henv hrec.1.1 hparts.1),
      Code.foldsAssociate_coerced (ihr env henv hrec.1.2 hparts.2)⟩
  | range _ _ ihf ihl =>
    intro env henv hrec hassoc
    rw [visits_range, TypeTable.records_append, TypeTable.records_append] at hrec
    have hparts := List.forall_mem_append.1 hassoc
    exact ⟨ihf env henv hrec.1.1 hparts.1, ihl env henv hrec.1.2 hparts.2⟩
  | @map Γ inputs site inner seq body x t u s b ht _ hs hb ihs ihb =>
    rintro env rfl hrec hassoc
    rw [hs.hasType.visits_map ht hb.hasType] at hrec
    simp only [TypeTable.records_append] at hrec
    have hparts := List.forall_mem_append.1 hassoc
    exact ⟨ihs env rfl hrec.1.1 hparts.1,
      ihb ⟨⟨[⟨x, t⟩]⟩, true⟩ (Scope.types_one x t) hrec.1.2.1 hparts.2⟩
  | @reduce Γ inputs site inner seq neutral body acc x p q r s n b hp hq hne hr hs hn hb ihs ihn
      ihb =>
    rintro env rfl hrec hassoc
    have htyped : HasType env.scope.types (.reduce site seq neutral (.lambda inner [acc, x] body))
        (.scalar r) := (Elaborates.reduce hp hq hne hr hs hn hb).hasType
    have hsite : types.get site.id = .scalar r := htyped.get_root hrec
    rw [hs.hasType.visits_reduce hp hq hne hr hn.hasType hb.hasType] at hrec
    simp only [TypeTable.records_append] at hrec
    rw [foldsAssociate_reduce, hsite] at hassoc
    rcases hassoc with ⟨hassocs, hassocn, hassocb, hassoc⟩
    refine ⟨ihs env rfl hrec.1.1.1 hassocs,
      Code.foldsAssociate_coerced (ihn env rfl hrec.1.1.2 hassocn),
      ihb ⟨⟨[⟨acc, .scalar r⟩, ⟨x, .scalar r⟩]⟩, true⟩ (Scope.types_two hne _ _) hrec.1.2.1 hassocb,
      ?_⟩
    refine AssociativeOn.congr hassoc ?_ ?_
    · intro v w hv hw
      exact hb.codeHasType.yields_eval .sequential [v, w] (.cons hv (.cons hw .nil))
    · intro v w hv hw
      exact step_applied inner hne hb.realizes hv hw

end Expr

/-! ## Scheduled statements -/

namespace Lowered

/--
A statement in the place of a compiled one, on some schedule: on all arguments it answers with one
of the outcomes of the code.
-/
structure Schedules (mode : Mode) (l : Lowered) (s : Statement) : Prop where
  inputs_eq : s.inputs = l.signature.inputs
  output_eq : s.output = l.signature.output
  span_eq : s.span = l.stmt.span
  answers : ∀ args, (l.body.outcomes mode args).Admits (s.callable mode args).result
  goesOn : ∀ args, (s.callable mode args).cancels = false

/-- The interpreter's own schedule. -/
theorem schedules_statement (mode : Mode) (l : Lowered) :
    l.Schedules mode (l.statement .interp) :=
  ⟨rfl, rfl, rfl, l.body.admits_eval mode, fun _ => rfl⟩

section Steps

variable {l : Lowered} {scope : Scope} {mode : Mode} {s : Statement}

/-- Where a statement has a value in order, it has that value on every schedule. -/
theorem Schedules.exec (hs : l.Schedules mode s) (hfits : l.FitsIn scope)
    (hassoc : l.body.FoldsAssociate) {m m' : Memory} (hm : m.WellTyped) {value : Value}
    (h : ((l.statement .interp).exec .sequential m).1 = .ok (value, m')) :
    s.exec mode m = (.ok (value, m'), false) := by
  rcases Statement.exec_eq_ok_iff.1 h with ⟨⟨⟨args, hreads, hresult⟩, hfree⟩, rfl⟩
  have hargs : l.signature.inputs.mapM m.get = .ok args :=
    Statement.arguments_eq_ok_iff.2 hreads
  have hfollows := hfits.codeHasType.follows_eval mode hassoc args (hm.arguments hargs)
  have hanswer : (s.callable mode args).result = .ok value :=
    hfollows value hresult _ (hs.answers args)
  have harguments : s.arguments m = .ok args := by
    rw [Statement.arguments, hs.inputs_eq]
    exact hargs
  have hbind : m.bind s.output value = .ok ⟨m.bindings ++ [(l.signature.output, value)]⟩ := by
    rw [hs.output_eq]
    exact Memory.bind_of_find?_eq_none value hfree
  rw [Statement.exec, harguments]
  simp only [hanswer, ok_bind, hbind, hs.goesOn]
  rfl

/-- Where a run in order goes on, every schedule goes on in the same way. -/
theorem Schedules.exists_step (hs : l.Schedules mode s) (hfits : l.FitsIn scope)
    (hassoc : l.body.FoldsAssociate) {m m' : Memory} (hm : m.WellTyped) {value : Value}
    (h : ((l.statement .interp).exec .sequential m).1 = .ok (value, m')) (sink : Sink) :
    ∃ sink', RunState.step ⟨m, sink, false⟩ .sequential (l.statement .interp) =
        (.ok (), ⟨m', sink', false⟩) ∧
      RunState.step ⟨m, sink, false⟩ mode s = (.ok (), ⟨m', sink', false⟩) := by
  have hown : (l.statement .interp).exec .sequential m = (.ok (value, m'), false) :=
    Prod.ext h ((l.neverCancels_statement .interp).exec .sequential m)
  have hprints : s.prints = (l.statement .interp).prints := by
    rw [Statement.prints, hs.output_eq]
    rfl
  refine ⟨if s.prints then sink.printValue value else sink, ?_, ?_⟩
  · simp only [RunState.step, RunState.complete, hown, hprints]
    rfl
  · simp only [RunState.step, RunState.complete, hs.exec hfits hassoc hm h]
    rfl

end Steps

end Lowered

/-! ## Scheduled runs -/

section Runs

variable {mode : Mode} {ls : List Lowered} {scheduled : CompiledProgram}

/-- If a run in order succeeds, it is the run of every schedule, and the values are the same. -/
theorem execute_scheduled_eq (hsched : List.Forall₂ (Lowered.Schedules mode) ls scheduled)
    (hfits : AllFit ls) (hassoc : ∀ l ∈ ls, l.body.FoldsAssociate) :
    ∀ (m : Memory) (sink : Sink), m.WellTyped →
      (execute .sequential ⟨m, sink, false⟩ (ls.map (Lowered.statement .interp))).1 = .ok () →
      execute mode ⟨m, sink, false⟩ scheduled =
          execute .sequential ⟨m, sink, false⟩ (ls.map (Lowered.statement .interp)) ∧
        (executed mode m scheduled).map Prod.snd =
          (executed .sequential m (ls.map (Lowered.statement .interp))).map Prod.snd := by
  induction hsched with
  | nil =>
    intro m sink _ _
    exact ⟨rfl, rfl⟩
  | @cons l s ls scheduled hs _ ih =>
    intro m sink hm hok
    rcases hfits l List.mem_cons_self with ⟨scope, hl⟩
    have hl' := hassoc l List.mem_cons_self
    rw [List.map_cons, execute_cons] at hok
    rw [List.map_cons, execute_cons, execute_cons, executed, executed]
    cases hexec : ((l.statement .interp).exec .sequential m).1 with
    | error e =>
      rw [step_of_error (l.neverCancels_statement .interp) hexec] at hok
      contradiction
    | ok bound =>
      rcases bound with ⟨value, m'⟩
      rcases hs.exists_step hl hl' hm hexec sink with ⟨sink', hown, hstep⟩
      rw [hown] at hok ⊢
      rw [hstep]
      rcases ih (fun k hk => hfits k (List.mem_cons_of_mem l hk))
        (fun k hk => hassoc k (List.mem_cons_of_mem l hk)) m' sink'
        (Lowered.wellTyped_of_exec hl hm hexec) hok with ⟨hrun, hvalues⟩
      refine ⟨hrun, ?_⟩
      simp only [hs.exec hl hl' hm hexec, List.map_cons, hvalues]

end Runs

/-! ## Programs -/

/-- The code of prepared statements is associative where their expressions are. -/
theorem Lowered.Prepared.foldsAssociate {types : TypeTable} {index : Nat} {scope : Scope}
    {ls : List Lowered} (h : Prepared index scope ls) :
    types.Records (inferStmts index scope (ls.map Lowered.stmt)).findings.visits →
      (∀ l ∈ ls, l.stmt.value.FoldsAssociate types) → ∀ l ∈ ls, l.body.FoldsAssociate := by
  induction h with
  | nil => simp
  | @cons index scope next l rest hvalue hc hfits _ ih =>
    intro hrec hassoc k hk
    simp only [List.map_cons, inferStmts, Inferred.findings_bind, Findings.visits_append,
      TypeTable.records_append, hvalue, visits_inferStmt] at hrec
    rcases List.mem_cons.1 hk with rfl | hk
    · exact hfits.elaborates.foldsAssociate ⟨scope, false⟩ rfl hrec.1
        (hassoc k List.mem_cons_self)
    · exact ih hrec.2.1 (fun k hk => hassoc k (List.mem_cons_of_mem l hk)) k hk

namespace SoundProgram

/-- The function literals of all folds are associative functions on accumulators of their type. -/
def FoldsAssociate (p : SoundProgram) : Prop :=
  ∀ s ∈ p.stmts, s.value.FoldsAssociate p.infer.table

/--
Mode independence.  Take a program without complaints, in which inference gives no node two types
and in which the function literal of every fold never fails and is associative on accumulators.  It
compiles to functions for its statements, and the interpreter's own way of running these in a mode
is one of many schedules.  If the sequential run succeeds, then on every schedule of every mode the
run is the same, with its result, memory and printed lines, and each statement has the same value;
the run of the native machine is that run, too, if the machine addresses the inputs.
-/
theorem modes_agree (p : SoundProgram) (hc : p.infer.complaints = []) (hv : p.VisitsAgree)
    (hassoc : p.FoldsAssociate) :
    ∃ ls : List Lowered, ls.map Lowered.stmt = p.stmts ∧
      ls.map Lowered.signature = p.infer.signatures ∧
      (∀ l ∈ ls, ∀ b : Backend, b.Addresses l.signature.inputs.length →
        l.signature.lower b p.infer.table l.stmt.value = .ok l.function) ∧
      ∃ program native, program = ls.map (Lowered.statement .interp) ∧
        (∀ limit, p.compile .interp limit = .ok program) ∧
        (p.AddressedBy .native → ∀ limit, p.compile .native limit = .ok native) ∧
        (∀ mode, List.Forall₂ (Lowered.Schedules mode) ls program) ∧
        ∀ sink, (execute .sequential (.fresh sink) program).1 = .ok () →
          ∀ mode scheduled, List.Forall₂ (Lowered.Schedules mode) ls scheduled →
            execute mode (.fresh sink) scheduled = execute .sequential (.fresh sink) program ∧
            (executed mode .empty scheduled).map Prod.snd =
              (executed .sequential .empty program).map Prod.snd ∧
            execute mode (.fresh sink) native = execute .sequential (.fresh sink) program := by
  rcases p.prepared hc hv with ⟨ls, hprep, hstmts, hsigs, hlower, hcompile, -⟩
  have hfits : AllFit ls := fun l hl => hprep.exists_fitsIn hl
  have hbodies : ∀ l ∈ ls, l.body.FoldsAssociate := by
    have hrec : p.infer.table.Records
        (inferStmts 0 .empty (ls.map Lowered.stmt)).findings.visits := by
      rw [hstmts]
      exact p.records_visits hv
    exact hprep.foldsAssociate hrec fun l hl => hassoc l.stmt (hstmts ▸ List.mem_map_of_mem hl)
  have hown : ∀ mode, List.Forall₂ (Lowered.Schedules mode) ls
      (ls.map (Lowered.statement .interp)) := by
    intro mode
    rw [List.forall₂_map_right_iff]
    exact List.forall₂_same.2 fun l _ => l.schedules_statement mode
  refine ⟨ls, hstmts, hsigs, fun l hl b h => (hlower l hl b).trans (if_pos h), _, _, rfl,
    hcompile .interp p.addressedBy_interp, hcompile .native, hown, ?_⟩
  intro sink hok mode scheduled hsched
  have hrun := execute_scheduled_eq hsched hfits hbodies .empty sink Memory.wellTyped_empty hok
  refine ⟨hrun.1, hrun.2, ?_⟩
  rw [execute_native_eq hfits mode (.fresh sink) Memory.wellTyped_empty]
  exact (execute_scheduled_eq (hown mode) hfits hbodies .empty sink Memory.wellTyped_empty hok).1

/-- `print reduce(map({1, 5}, x -> reduce({1, x}, 0, a b -> a + b)), 1, a b -> a * b)`. -/
def productOfSums : SoundProgram where
  program :=
    { arena :=
        { nodes := #[
            ⟨.int 1, .nowhere⟩, ⟨.int 5, .nowhere⟩, ⟨.range ⟨0⟩ ⟨1⟩, .nowhere⟩,
            ⟨.int 1, .nowhere⟩, ⟨.ident ⟨0⟩, .nowhere⟩, ⟨.range ⟨3⟩ ⟨4⟩, .nowhere⟩,
            ⟨.int 0, .nowhere⟩, ⟨.ident ⟨1⟩, .nowhere⟩, ⟨.ident ⟨2⟩, .nowhere⟩,
            ⟨.binary .add ⟨7⟩ ⟨8⟩, .nowhere⟩, ⟨.lambda ⟨1, 2⟩ ⟨9⟩, .nowhere⟩,
            ⟨.reduce ⟨5⟩ ⟨6⟩ ⟨10⟩, .nowhere⟩, ⟨.lambda ⟨0, 1⟩ ⟨11⟩, .nowhere⟩,
            ⟨.map ⟨2⟩ ⟨12⟩, .nowhere⟩, ⟨.int 1, .nowhere⟩, ⟨.ident ⟨1⟩, .nowhere⟩,
            ⟨.ident ⟨2⟩, .nowhere⟩, ⟨.binary .mul ⟨15⟩ ⟨16⟩, .nowhere⟩,
            ⟨.lambda ⟨1, 2⟩ ⟨17⟩, .nowhere⟩, ⟨.reduce ⟨13⟩ ⟨14⟩ ⟨18⟩, .nowhere⟩]
          names := #["x", "a", "b"]
          params := #[⟨0⟩, ⟨1⟩, ⟨2⟩] }
      stmts := #[⟨.print ⟨19⟩, .nowhere⟩] }
  sound := by decide +kernel

theorem foldsAssociate_productOfSums : productOfSums.FoldsAssociate := by
  have hfolds : productOfSums.stmts.map (fun s => s.value.folds) =
      [[(⟨⟨11⟩, .nowhere⟩, .lambda ⟨⟨10⟩, .nowhere⟩ ["a", "b"] (.binary ⟨⟨9⟩, .nowhere⟩ .add
          (.ident ⟨⟨7⟩, .nowhere⟩ "a") (.ident ⟨⟨8⟩, .nowhere⟩ "b"))),
        (⟨⟨19⟩, .nowhere⟩, .lambda ⟨⟨18⟩, .nowhere⟩ ["a", "b"] (.binary ⟨⟨17⟩, .nowhere⟩ .mul
          (.ident ⟨⟨15⟩, .nowhere⟩ "a") (.ident ⟨⟨16⟩, .nowhere⟩ "b")))]] := by
    decide +kernel
  have hinner : productOfSums.infer.table.get ⟨11⟩ = .int := by decide +kernel
  have houter : productOfSums.infer.table.get ⟨19⟩ = .int := by decide +kernel
  intro s hs fold hfold
  have hmem : s.value.folds ∈ productOfSums.stmts.map (fun s => s.value.folds) :=
    List.mem_map_of_mem hs
  rw [hfolds, List.mem_singleton] at hmem
  rw [hmem, List.mem_cons, List.mem_singleton] at hfold
  rcases hfold with rfl | rfl
  · rw [hinner]
    refine ⟨?_, ?_⟩
    · intro v w hv hw
      rcases Value.hasType_int_iff.1 hv with ⟨n, rfl⟩
      rcases Value.hasType_int_iff.1 hw with ⟨m, rfl⟩
      exact ⟨.int (n + m), rfl⟩
    · intro u v w hu hv hw
      rcases Value.hasType_int_iff.1 hu with ⟨l, rfl⟩
      rcases Value.hasType_int_iff.1 hv with ⟨n, rfl⟩
      rcases Value.hasType_int_iff.1 hw with ⟨m, rfl⟩
      exact congrArg (fun k => Except.ok (Value.int k)) (Int64.add_assoc l n m)
  · rw [houter]
    refine ⟨?_, ?_⟩
    · intro v w hv hw
      rcases Value.hasType_int_iff.1 hv with ⟨n, rfl⟩
      rcases Value.hasType_int_iff.1 hw with ⟨m, rfl⟩
      exact ⟨.int (n * m), rfl⟩
    · intro u v w hu hv hw
      rcases Value.hasType_int_iff.1 hu with ⟨l, rfl⟩
      rcases Value.hasType_int_iff.1 hv with ⟨n, rfl⟩
      rcases Value.hasType_int_iff.1 hw with ⟨m, rfl⟩
      exact congrArg (fun k => Except.ok (Value.int k)) (Int64.mul_assoc l n m)

theorem modes_agree_productOfSums :
    productOfSums.infer.complaints = [] ∧ productOfSums.VisitsAgree ∧
      productOfSums.FoldsAssociate ∧
      ∃ program, productOfSums.compile .interp none = .ok program ∧
        (execute .sequential (.fresh (.buffer [])) program).1 = .ok () ∧
        ∀ n, execute (.parallel n) (.fresh (.buffer [])) program =
          execute .sequential (.fresh (.buffer [])) program := by
  have hc : productOfSums.infer.complaints = [] := by decide +kernel
  have hv : productOfSums.VisitsAgree := by decide +kernel
  have hassoc := foldsAssociate_productOfSums
  rcases modes_agree productOfSums hc hv hassoc with
    ⟨ls, -, -, -, program, native, -, hcompile, -, hown, hrun⟩
  have hlines : productOfSums.run? .interp = some (.ok (), some ["2700"]) := by decide +kernel
  have hok : (execute .sequential (.fresh (.buffer [])) program).1 = .ok () := by
    rw [run?, hcompile none] at hlines
    exact congrArg Prod.fst (Option.some.inj hlines)
  exact ⟨hc, hv, hassoc, program, hcompile none, hok,
    fun n => (hrun (.buffer []) hok (.parallel n) program (hown (.parallel n))).1⟩

end SoundProgram
end SeqCalc
