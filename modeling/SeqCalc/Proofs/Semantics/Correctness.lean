import SeqCalc.Proofs.Execution.Preparation
import SeqCalc.Proofs.Semantics.ByName

/-!
# Compiled statements mean what their expressions mean

The code of a typed expression, evaluated on its arguments by position, gives what the expression
gives by name.  Three things have to come out even: slots against names, casts against the
conversions that the types of the operands call for, and the conversion of a whole sequence before
a fold against that of its elements.

Main results:

- `Code.eval_arith`: casts convert the operand that the types tell to convert, and no other.
- `Expr.realizes_map`, `Expr.realizes_reduce`: nested functions and their function literals.
- `Expr.Elaborates.realizes`: the code of an expression, by induction on its rules.
- `SoundProgram.callable_eq_evaluate`: every statement of a program on the interpreter.
-/

namespace SeqCalc

/-! ## Lists -/

theorem mapM_congr {α β ε : Type} {f g : α → Except ε β} {xs : List α}
    (h : ∀ a ∈ xs, f a = g a) : xs.mapM f = xs.mapM g := by
  induction xs with
  | nil => rfl
  | cons x xs ih =>
    rw [List.mapM_cons, List.mapM_cons, h x List.mem_cons_self,
      ih fun a ha => h a (List.mem_cons_of_mem x ha)]

theorem mapM_eq_ok {α β ε : Type} {f : α → Except ε β} {k : α → β} {xs : List α}
    (h : ∀ a ∈ xs, f a = .ok (k a)) : xs.mapM f = .ok (xs.map k) := by
  rw [mapM_congr h]
  exact List.mapM_pure

/-- Folds by steps that are the same on all values that come up. -/
theorem foldlM_congr {α β : Type} {P : β → Prop} {f g : β → α → Except Fault β} {xs : List α}
    {b : β} (hb : P b) (hf : ∀ a ∈ xs, ∀ b, P b → Yields P (f b a))
    (h : ∀ a ∈ xs, ∀ b, P b → f b a = g b a) : xs.foldlM f b = xs.foldlM g b := by
  induction xs generalizing b with
  | nil => rfl
  | cons x xs ih =>
    have hyields := hf x List.mem_cons_self b hb
    rw [List.foldlM_cons, List.foldlM_cons, ← h x List.mem_cons_self b hb]
    cases hx : f b x with
    | error e => rfl
    | ok c =>
      rw [hx] at hyields
      exact ih hyields (fun a ha => hf a (List.mem_cons_of_mem x ha))
        fun a ha => h a (List.mem_cons_of_mem x ha)

/-! ## Environments -/

/-- An environment binds the inputs to arguments of their types. -/
def Bindings.Binds (ρ : Bindings) (inputs : List Variable) (args : List Value) : Prop :=
  List.Forall₂ (fun v a => ρ v.name = some a ∧ a.HasType v.ty) inputs args

namespace Bindings

theorem Binds.typed {ρ : Bindings} {inputs : List Variable} {args : List Value}
    (h : ρ.Binds inputs args) : List.Forall₂ Value.HasType args (inputs.map Variable.ty) := by
  induction h with
  | nil => exact .nil
  | cons hv _ ih => exact .cons hv.2 ih

theorem binds_one {x : String} {t : Ty} {v : Value} (hv : v.HasType t) :
    (ofParams [x] [v]).Binds [⟨x, t⟩] [v] :=
  .cons ⟨by simp [ofParams], hv⟩ .nil

theorem binds_two {x y : String} (hxy : x ≠ y) {t u : Ty} {v w : Value} (hv : v.HasType t)
    (hw : w.HasType u) : (ofParams [x, y] [v, w]).Binds [⟨x, t⟩, ⟨y, u⟩] [v, w] := by
  refine .cons ⟨by simp [ofParams], hv⟩ (.cons ⟨?_, hw⟩ .nil)
  have hne : (y == x) = false := beq_eq_false_iff_ne.2 hxy.symm
  simp [ofParams, List.lookup_cons, hne]

end Bindings

/-! ## Types -/

namespace Expr

theorem HasType.typeIn_eq {scope : Scope} {e : Expr} {t : Ty} (h : HasType scope.types e t) :
    e.typeIn scope = t :=
  (h.infer ⟨scope, true⟩ rfl).1

theorem HasType.elementTypeIn_eq {scope : Scope} {e : Expr} {t : Ty} (ht : t.IsProper)
    (h : HasType scope.types e t.sequenceOf) : e.elementTypeIn scope = t := by
  rw [elementTypeIn, h.typeIn_eq, ht.element?_sequenceOf]
  rfl

end Expr

/-! ## Conversions -/

theorem Code.eval_coerced {code : Code} {own target : Scalar} {mode : Mode} {args : List Value}
    (hw : own.WidensTo target) :
    (code.coerced own target).eval mode args =
      code.eval mode args >>= Value.converted (.scalar own) (.scalar target) := by
  rcases hw with rfl | ⟨rfl, rfl⟩
  · rw [coerced, if_pos rfl]
    cases code.eval mode args with
    | error e => rfl
    | ok v => cases own <;> rfl
  · rfl

/-- An operator on cast operands converts exactly the integer that meets a float. -/
theorem Code.eval_arith {left right : Code} {p q : Scalar} {mode : Mode} {args : List Value}
    (op : BinaryOp) (hp : p.isNumeric = true) (hq : q.isNumeric = true)
    (hleft : Yields (fun v => v.HasType (.scalar p)) (left.eval mode args))
    (hright : Yields (fun v => v.HasType (.scalar q)) (right.eval mode args)) :
    (Code.arith (p.widest q) op (left.coerced p (p.widest q))
        (right.coerced q (p.widest q))).eval mode args =
      (do
        let v ← left.eval mode args
        let w ← right.eval mode args
        v.combined op (.scalar p) (.scalar q) w) := by
  rw [eval, eval_coerced (Scalar.widensTo_widest_left hp q),
    eval_coerced (Scalar.widensTo_widest_right p hq)]
  cases hl : left.eval mode args with
  | error e => cases p <;> cases q <;> rfl
  | ok v =>
    rw [hl] at hleft
    cases hr : right.eval mode args with
    | error e =>
      rcases hleft.int_or_float with ⟨rfl, n, rfl⟩ | ⟨rfl, x, rfl⟩
      · cases q <;> rfl
      · cases q <;> rfl
    | ok w =>
      rw [hr] at hright
      rcases hleft.int_or_float with ⟨rfl, n, rfl⟩ | ⟨rfl, x, rfl⟩
      · rcases hright.int_or_float with ⟨rfl, m, rfl⟩ | ⟨rfl, y, rfl⟩
        · rfl
        · rfl
      · rcases hright.int_or_float with ⟨rfl, m, rfl⟩ | ⟨rfl, y, rfl⟩
        · rfl
        · rfl

/-- Bounds that are integers make a range that includes both. -/
theorem Code.eval_range {first last : Code} {mode : Mode} {args : List Value}
    (hfirst : Yields (fun v => v.HasType .int) (first.eval mode args))
    (hlast : Yields (fun v => v.HasType .int) (last.eval mode args)) :
    (Code.range true first last).eval mode args =
      (do
        let v ← first.eval mode args
        let w ← last.eval mode args
        return .seq (.ints (← Range.closed (← v.asInt) (← w.asInt)))) := by
  rw [eval]
  cases hv : first.eval mode args with
  | error e => rfl
  | ok v =>
    rw [hv] at hfirst
    rcases Value.hasType_int_iff.1 hfirst with ⟨n, rfl⟩
    cases hw : last.eval mode args with
    | error e => rfl
    | ok w =>
      rw [hw] at hlast
      rcases Value.hasType_int_iff.1 hlast with ⟨m, rfl⟩
      rfl

namespace Sequence

/-- Typed values are stored as they are. -/
theorem ofValues_eq {vs : List Value} {t : Ty} (h : ∀ v ∈ vs, v.HasType t) :
    ofValues t vs = .ok (Native.collect t.storedKind vs) := by
  cases t with
  | seq element depth => rfl
  | scalar p =>
    cases p with
    | unknown => rfl
    | int =>
      have hvs : vs.mapM Value.asInt = .ok (vs.map Value.toInt) :=
        mapM_eq_ok fun v hv => (h v hv).asInt_eq
      rw [ofValues, hvs]
      rfl
    | float =>
      have hvs : vs.mapM Value.asFloat = .ok (vs.map Value.toFloat) :=
        mapM_eq_ok fun v hv => (h v hv).asFloat_eq
      rw [ofValues, hvs]
      rfl

/-- The elements of a sequence, converted one by one or all at once. -/
theorem mapM_converted {s : Sequence} {p r : Scalar} (hpr : p.WidensTo r)
    (hs : (Value.seq s).HasType (Ty.scalar p).sequenceOf) :
    s.elements.mapM (Value.converted (.scalar p) (.scalar r)) =
      .ok (s.elementsAs (Ty.scalar r).storedKind) := by
  have hsame : ∀ v : Value, v.converted (.scalar p) (.scalar p) = .ok v := by
    intro v
    cases p <;> rfl
  rcases hpr with rfl | ⟨rfl, rfl⟩
  · rw [mapM_eq_ok fun v _ => hsame v, List.map_id']
    cases hs <;> rfl
  · cases hs with
    | ints xs =>
      change (xs.map Value.int).mapM (Value.converted (.scalar .int) (.scalar .float)) =
        Except.ok (xs.map fun n => Value.float (.ofInt64 n))
      rw [List.mapM_map]
      exact mapM_eq_ok fun n _ => rfl

end Sequence

/-! ## Function literals -/

/-- Code that gives on arguments by position what an expression gives by name. -/
def Code.Realizes (code : Code) (Γ : Context) (inputs : List Variable) (e : Expr) : Prop :=
  ∀ (scope : Scope) (ρ : Bindings) (args : List Value), scope.types = Γ → ρ.Binds inputs args →
    code.eval .sequential args = e.evaluate scope ρ

namespace Expr

/-- A nested function on typed elements, and the function literal that it comes from. -/
theorem map_applied (inner : Site) {body : Expr} {x : String} {t u : Ty} {b : Code}
    (hb : Elaborates (Context.empty.extend x t) [⟨x, t⟩] body u b)
    (hbody : b.Realizes (Context.empty.extend x t) [⟨x, t⟩] body)
    {source : Sequence} (hsource : ∀ v ∈ source.elements, v.HasType t) :
    source.mapM .sequential u.storedKind (fun v => b.eval .sequential [v]) =
      (do
        let results ← source.elements.mapM fun v =>
          (Expr.lambda inner [x] body).applied [t] [v]
        Sequence.ofValues ((Expr.lambda inner [x] body).resultType [t]) results) := by
  have hscope : (paramScope inner.span [x] [t]).types = Context.empty.extend x t :=
    Scope.types_one x t
  have hresult : (Expr.lambda inner [x] body).resultType [t] = u := by
    apply HasType.typeIn_eq
    rw [hscope]
    exact hb.hasType
  have happlied : ∀ v ∈ source.elements,
      b.eval .sequential [v] = (Expr.lambda inner [x] body).applied [t] [v] := by
    intro v hv
    rw [applied]
    exact hbody _ _ [v] hscope (Bindings.binds_one (hsource v hv))
  have hyields : ∀ v ∈ source.elements,
      Yields (fun r => r.HasType u) (b.eval .sequential [v]) := by
    intro v hv
    exact hb.codeHasType.yields_eval .sequential [v] (.cons (hsource v hv) .nil)
  -- the machine unwraps each result as it comes, evaluation by name all of them at the end
  rw [Sequence.mapM_eq_collect .sequential hyields, ← mapM_congr happlied, hresult]
  have hall := Yields.mapM hyields
  cases hvs : source.elements.mapM fun v => b.eval .sequential [v] with
  | error e => rfl
  | ok vs =>
    rw [hvs] at hall
    rw [ok_bind, Sequence.ofValues_eq hall]
    rfl

/-- The step of a fold on two accumulators, and the function literal that it comes from. -/
theorem step_applied (inner : Site) {body : Expr} {acc x : String} {t : Ty} {b : Code}
    (hne : acc ≠ x)
    (hbody : b.Realizes ((Context.empty.extend acc t).extend x t) [⟨acc, t⟩, ⟨x, t⟩] body)
    {v w : Value} (hv : v.HasType t) (hw : w.HasType t) :
    b.eval .sequential [v, w] = (Expr.lambda inner [acc, x] body).applied [t, t] [v, w] := by
  have hscope : (paramScope inner.span [acc, x] [t, t]).types =
      (Context.empty.extend acc t).extend x t := by
    rw [paramScope, bindParams_two _ hne]
    exact Scope.types_two hne _ _
  rw [applied]
  exact hbody _ _ [v, w] hscope (Bindings.binds_two hne hv hw)

/-- A nested fold over converted numbers, and the function literal that its step comes from. -/
theorem fold_applied (inner : Site) {body : Expr} {acc x : String} {p r : Scalar} {b : Code}
    (hne : acc ≠ x) (hr : r.isNumeric = true) (hpr : p.WidensTo r)
    (hb : Elaborates ((Context.empty.extend acc (.scalar r)).extend x (.scalar r))
      [⟨acc, .scalar r⟩, ⟨x, .scalar r⟩] body (.scalar r) b)
    (hbody : b.Realizes ((Context.empty.extend acc (.scalar r)).extend x (.scalar r))
      [⟨acc, .scalar r⟩, ⟨x, .scalar r⟩] body)
    {source : Sequence} (hsource : (Value.seq source).HasType (Ty.scalar p).sequenceOf)
    {start : Value} (hstart : start.HasType (.scalar r)) :
    source.reduceM .sequential (fun v w => b.eval .sequential [v, w]) start =
      (do
        let items ← source.elements.mapM (Value.converted (.scalar p) (.scalar r))
        items.foldlM (fun v w =>
          (Expr.lambda inner [acc, x] body).applied [.scalar r, .scalar r] [v, w]) start) := by
  have hwidens : p = .float → r = .float := by
    intro hfloat
    rcases hpr with rfl | ⟨-, rfl⟩
    · exact hfloat
    · rfl
  have hitems := Sequence.hasType_elementsAs hr hwidens hsource
  have hyields : ∀ w ∈ source.elementsAs (Ty.scalar r).storedKind, ∀ v, v.HasType (.scalar r) →
      Yields (fun c => c.HasType (.scalar r)) (b.eval .sequential [v, w]) := by
    intro w hw v hv
    exact hb.codeHasType.yields_eval .sequential [v, w] (.cons hv (.cons (hitems w hw) .nil))
  have happlied : ∀ w ∈ source.elementsAs (Ty.scalar r).storedKind, ∀ v, v.HasType (.scalar r) →
      b.eval .sequential [v, w] =
        (Expr.lambda inner [acc, x] body).applied [.scalar r, .scalar r] [v, w] :=
    fun w hw v hv => step_applied inner hne hbody hv (hitems w hw)
  rw [Sequence.mapM_converted hpr hsource, ok_bind, Sequence.reduceM, ← hstart.storedKind_eq]
  exact foldlM_congr hstart hyields happlied

/-! ## Expressions -/

variable {Γ : Context} {inputs : List Variable}

theorem realizes_ident {site : Site} {name : String} {t : Ty} {slot : Nat}
    (hslot : HasSlot inputs ⟨name, t⟩ slot) :
    (Code.param slot).Realizes Γ inputs (.ident site name) := by
  intro scope ρ args _ hρ
  rcases List.getElem?_eq_some_iff.1 hslot.2 with ⟨hlt, hget⟩
  have hltArgs : slot < args.length := hρ.length_eq ▸ hlt
  have hbound := (hρ.get hlt hltArgs).1
  simp only [List.get_eq_getElem, hget] at hbound
  rw [Code.eval, evaluate, List.getElem?_eq_getElem hltArgs, hbound]

theorem realizes_map {site inner : Site} {seq body : Expr} {x : String} {t u : Ty} {s b : Code}
    (ht : t.IsProper) (hs : Elaborates Γ inputs seq t.sequenceOf s)
    (hb : Elaborates (Context.empty.extend x t) [⟨x, t⟩] body u b)
    (hseq : s.Realizes Γ inputs seq)
    (hbody : b.Realizes (Context.empty.extend x t) [⟨x, t⟩] body) :
    (Code.map s ⟨u, [t]⟩ b t u).Realizes Γ inputs (.map site seq (.lambda inner [x] body)) := by
  rintro scope ρ args rfl hρ
  have hyields := hs.codeHasType.yields_eval .sequential args hρ.typed
  rw [evaluate, ← hseq scope ρ args rfl hρ, hs.hasType.elementTypeIn_eq ht, Code.eval]
  cases hv : s.eval .sequential args with
  | error e => rfl
  | ok v =>
    rw [hv] at hyields
    rcases hyields.exists_seq with ⟨source, rfl⟩
    have helements := ((Value.hasType_sequenceOf_iff ht).1 hyields).2
    have hmap : source.mapM .sequential (u.kind?.getD .object) (fun v => b.eval .sequential [v]) =
        _ := map_applied inner hb hbody helements
    simp only [ok_bind, Value.asSeq, hmap, bind_assoc]

/-- The sequence comes first, then the neutral element, and only then is anything converted. -/
theorem realizes_reduce {site inner : Site} {seq neutral body : Expr} {acc x : String}
    {p q r : Scalar} {s n b : Code} (hp : p.isNumeric = true) (hq : q.isNumeric = true)
    (hne : acc ≠ x) (hr : r = p.widest q)
    (hs : Elaborates Γ inputs seq (Ty.scalar p).sequenceOf s)
    (hn : Elaborates Γ inputs neutral (.scalar q) n)
    (hb : Elaborates ((Context.empty.extend acc (.scalar r)).extend x (.scalar r))
      [⟨acc, .scalar r⟩, ⟨x, .scalar r⟩] body (.scalar r) b)
    (hseq : s.Realizes Γ inputs seq) (hneutral : n.Realizes Γ inputs neutral)
    (hbody : b.Realizes ((Context.empty.extend acc (.scalar r)).extend x (.scalar r))
      [⟨acc, .scalar r⟩, ⟨x, .scalar r⟩] body) :
    (Code.reduce s (n.coerced q r) ⟨.scalar r, [.scalar r, .scalar r]⟩ b p r).Realizes Γ inputs
      (.reduce site seq neutral (.lambda inner [acc, x] body)) := by
  rintro scope ρ args rfl hρ
  have hcommon : (Ty.scalar p).common (.scalar q) = .scalar r := by
    rw [Ty.common, Scalar.promote_eq_widest hp hq, hr]
  have hnum : r.isNumeric = true := hr ▸ Scalar.isNumeric_widest p q
  have hpr : p.WidensTo r := hr ▸ Scalar.widensTo_widest_left hp q
  have hqr : q.WidensTo r := hr ▸ Scalar.widensTo_widest_right p hq
  have hyseq := hs.codeHasType.yields_eval .sequential args hρ.typed
  have hystart := (Code.hasType_coerced hqr hn.codeHasType).yields_eval .sequential args hρ.typed
  rw [evaluate, ← hseq scope ρ args rfl hρ, ← hneutral scope ρ args rfl hρ,
    hs.hasType.elementTypeIn_eq (t := .scalar p) hp, hn.hasType.typeIn_eq, Code.eval]
  rw [Code.eval_coerced hqr] at hystart ⊢
  simp only [hcommon]
  cases hv : s.eval .sequential args with
  | error e => rfl
  | ok v =>
    rw [hv] at hyseq
    rcases hyseq.exists_seq with ⟨source, rfl⟩
    cases hw : n.eval .sequential args with
    | error e => rfl
    | ok w =>
      rw [hw] at hystart
      simp only [ok_bind, Value.asSeq] at hystart ⊢
      cases hc : w.converted (.scalar q) (.scalar r) with
      | error e =>
        -- by name the elements are converted first, and that always succeeds
        rw [Sequence.mapM_converted hpr hyseq]
        rfl
      | ok start =>
        rw [hc] at hystart
        exact fold_applied inner hne hnum hpr hb hbody hyseq hystart

/-- The code of an expression, on arguments by position, gives its value by name. -/
theorem Elaborates.realizes {e : Expr} {t : Ty} {code : Code} (h : Elaborates Γ inputs e t code) :
    code.Realizes Γ inputs e := by
  induction h with
  | int =>
    intro scope ρ args _ _
    rfl
  | float =>
    intro scope ρ args _ _
    rfl
  | ident _ hslot => exact realizes_ident hslot
  | plus _ _ ih =>
    intro scope ρ args hscope hρ
    rw [evaluate, ← ih scope ρ args hscope hρ]
    exact (bind_pure _).symm
  | @neg Γ inputs site operand p code hp hoperand ih =>
    rintro scope ρ args rfl hρ
    rw [evaluate, ← ih scope ρ args rfl hρ, hoperand.hasType.typeIn_eq, Code.eval]
    cases code.eval .sequential args with
    | error e => rfl
    | ok v => cases p <;> rfl
  | @binary Γ inputs site op left right p q l r hp hq hl hr ihl ihr =>
    rintro scope ρ args rfl hρ
    rw [evaluate, ← ihl scope ρ args rfl hρ, ← ihr scope ρ args rfl hρ, hl.hasType.typeIn_eq,
      hr.hasType.typeIn_eq]
    exact Code.eval_arith op hp hq (hl.codeHasType.yields_eval .sequential args hρ.typed)
      (hr.codeHasType.yields_eval .sequential args hρ.typed)
  | @range Γ inputs site first last a z ha hz ihf ihl =>
    rintro scope ρ args rfl hρ
    rw [evaluate, ← ihf scope ρ args rfl hρ, ← ihl scope ρ args rfl hρ]
    exact Code.eval_range (ha.codeHasType.yields_eval .sequential args hρ.typed)
      (hz.codeHasType.yields_eval .sequential args hρ.typed)
  | map ht _ hs hb ihs ihb => exact realizes_map ht hs hb ihs ihb
  | reduce hp hq hne hr hs hn hb ihs ihn ihb =>
    exact realizes_reduce hp hq hne hr hs hn hb ihs ihn ihb

end Expr

/-! ## Programs -/

/-- A prepared statement fits in the scope that the statements before it leave. -/
theorem Lowered.Prepared.fitsIn_scopeAfter {index : Nat} {scope : Scope} {ls : List Lowered}
    (h : Prepared index scope ls) :
    ∀ (i : Nat) (l : Lowered), ls[i]? = some l →
      l.FitsIn (scopeAfter index scope ((ls.map stmt).take i)) := by
  induction h with
  | nil =>
    intro i l hl
    simp at hl
  | @cons index scope next k rest hvalue _ hfits _ ih =>
    intro i l hl
    cases i with
    | zero =>
      cases hl
      exact hfits
    | succ i =>
      rw [List.map_cons, List.take_succ_cons, scopeAfter, hvalue]
      exact ih i l hl

namespace SoundProgram

/--
Compiler correctness.  A program without complaints, in which inference gives no node two types,
compiles for the interpreter to one statement for each of its own, with the inputs that inference
lists.  In every environment that binds the inputs of a statement to values of their types, what the
compiled statement answers on those values by position is what its expression evaluates to by name:
the same value or the same fault.
-/
theorem callable_eq_evaluate (p : SoundProgram) (hc : p.infer.complaints = [])
    (hv : p.VisitsAgree) :
    ∃ program, (∀ limit, p.compile .interp limit = .ok program) ∧
      program.length = p.stmts.length ∧
      program.map Statement.inputs = p.infer.signatures.map Signature.inputs ∧
      ∀ (i : Nat) (s : Stmt) (compiled : Statement), p.stmts[i]? = some s →
        program[i]? = some compiled → ∀ (ρ : Bindings) (args : List Value),
          ρ.Binds compiled.inputs args →
          compiled.callable .sequential args = ⟨s.value.evaluate (p.scopeAt i) ρ, false⟩ := by
  rcases p.prepared hc hv with ⟨ls, hprep, hstmts, hsigs, -, hcompile, -⟩
  refine ⟨_, hcompile .interp p.addressedBy_interp, ?_, ?_, ?_⟩
  · rw [← hstmts, List.length_map, List.length_map]
  · rw [← hsigs, List.map_map, List.map_map]
    rfl
  · intro i s compiled hs hcompiled ρ args hρ
    rw [List.getElem?_map, Option.map_eq_some_iff] at hcompiled
    rcases hcompiled with ⟨l, hl, rfl⟩
    rw [← hstmts, List.getElem?_map, hl, Option.map_some, Option.some.injEq] at hs
    subst hs
    have hfits := hprep.fitsIn_scopeAfter i l hl
    rw [hstmts] at hfits
    have hbody := hfits.elaborates.realizes (p.scopeAt i) ρ args rfl hρ
    exact congrArg (fun result => (⟨result, false⟩ : Answer)) hbody

theorem callable_eq_evaluate_sumOfSquares :
    sumOfSquares.infer.complaints = [] ∧ sumOfSquares.VisitsAgree ∧
      ∃ program, (∀ limit, sumOfSquares.compile .interp limit = .ok program) ∧
        ∃ compiled, program[1]? = some compiled ∧
          compiled.callable .sequential [.seq (.ints [1, 4, 9])] =
            ⟨.ok (.float (Arith.floatOp .add (Arith.floatOp .add (Arith.floatOp .add
              ⟨0x3FE0000000000000⟩ (.ofInt64 1)) (.ofInt64 4)) (.ofInt64 9))), false⟩ := by
  have hc : sumOfSquares.infer.complaints = [] := by decide +kernel
  have hv : sumOfSquares.VisitsAgree := by decide +kernel
  rcases callable_eq_evaluate sumOfSquares hc hv with ⟨program, hcompile, -, hinputs, hanswer⟩
  refine ⟨hc, hv, program, hcompile, ?_⟩
  have hat : (program.map Statement.inputs)[1]? = some [⟨"xs", Ty.int.sequenceOf⟩] := by
    rw [hinputs]
    decide +kernel
  rw [List.getElem?_map, Option.map_eq_some_iff] at hat
  rcases hat with ⟨compiled, hcompiled, hreads⟩
  have hbinds : (Bindings.ofParams ["xs"] [.seq (.ints [1, 4, 9])]).Binds compiled.inputs
      [.seq (.ints [1, 4, 9])] := by
    rw [hreads]
    exact Bindings.binds_one (.ints [1, 4, 9])
  refine ⟨compiled, hcompiled, ?_⟩
  rw [hanswer 1 _ compiled rfl hcompiled _ _ hbinds]
  rfl

end SoundProgram
end SeqCalc
