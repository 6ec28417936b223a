import SeqCalc.Proofs.Code.Simulation
import SeqCalc.Proofs.Code.Typing

/-!
# The machines agree on typed code

On registers that hold values of the right types, the native machine computes what the interpreter
evaluates.  Operands and lanes hold what they are read as, so no conversion is ever out of place,
and the only faults are those of arithmetic, at which one machine stops and which the other one
records.

Main results:

- `Native.computes_mapLanes`, `Native.computes_reduceLanes`: traversals of typed sequences.
- `Code.agrees_arith_int`, `Code.agrees_range`: the operations that record faults.
- `Code.HasType.agrees`: typed code, by induction on its typing.
- `Native.call_eq_eval`: calling a typed function on either machine.
-/

namespace SeqCalc

/-! ## Registers of values -/

/-- The register that holds a value. -/
def Register.ofValue : Value → Register
  | .int n => .int n
  | .float x => .float x
  | .seq s => .seq (some s)

@[simp]
theorem Register.toInt_ofValue (v : Value) : (ofValue v).toInt = v.toInt := by
  cases v <;> rfl

@[simp]
theorem Register.toFloat_ofValue (v : Value) : (ofValue v).toFloat = v.toFloat := by
  cases v <;> rfl

theorem Ty.nativeKind_eq {t : Ty} (h : t.IsProper) : t.nativeKind = t.storedKind := by
  rw [nativeKind, storedKind, kind?_eq_storedKind h]
  rfl

namespace Native

theorem element_ofValue {v : Value} {t : Ty} (h : v.HasType t) :
    element t.storedKind (.ofValue v) = .ok v := by
  cases h <;> rfl

theorem argument_eq {v : Value} {t : Ty} (h : v.HasType t) :
    argument t.storedKind v = .ok (.ofValue v) := by
  cases h <;> rfl

/-- A typed sequence is read element by element. -/
theorem lane?_eq {s : Sequence} {t : Ty} (ht : t.IsProper)
    (h : (Value.seq s).HasType t.sequenceOf) :
    lane? t.storedKind s = some (s.elements.map .ofValue) := by
  cases t with
  | scalar p =>
    cases h with
    | ints xs => simp [lane?, Ty.storedKind, Ty.kind?, Sequence.elements, Register.ofValue]
    | floats xs => simp [lane?, Ty.storedKind, Ty.kind?, Sequence.elements, Register.ofValue]
  | seq element depth =>
    cases h with
    | ints | floats => exact absurd ht.2 (Nat.lt_irrefl 0)
    | @objects xs _ depth _ hall =>
      simp only [lane?, Ty.storedKind, Ty.kind?, Option.getD_some, Sequence.elements,
        Option.some.injEq]
      apply List.map_congr_left
      intro v hv
      cases hall v hv <;> rfl

/-- A sequence of numbers is read as numbers of the kind that they are folded into. -/
theorem lane?_elementsAs {s : Sequence} {p r : Scalar} (hr : r.isNumeric = true)
    (hpr : p = .float → r = .float) (h : (Value.seq s).HasType (Ty.scalar p).sequenceOf) :
    lane? (Ty.scalar r).storedKind s =
      some ((s.elementsAs (Ty.scalar r).storedKind).map .ofValue) := by
  cases h with
  | ints xs =>
    cases r with
    | int => simp [lane?, Ty.storedKind, Ty.kind?, Sequence.elementsAs, Register.ofValue]
    | float => simp [lane?, Ty.storedKind, Ty.kind?, Sequence.elementsAs, Register.ofValue]
    | unknown => exact Bool.noConfusion hr
  | floats xs =>
    rcases hpr rfl with rfl
    simp [lane?, Ty.storedKind, Ty.kind?, Sequence.elementsAs, Sequence.elements, Register.ofValue]

theorem openLane_clear {kind : Kind} {s : Sequence} {lane : List Register}
    (h : lane? kind s = some lane) :
    (openLane kind (some s)).run .clear = (some lane, .clear) := by
  simp only [openLane, h]
  rfl

/-- A map over a typed sequence. -/
theorem computes_mapLanes {s : Sequence} {t u : Ty} {f : Register → Native Register}
    {g : Value → Except Fault Value} (mode : Mode) (ht : t.IsProper)
    (hs : (Value.seq s).HasType t.sequenceOf)
    (hg : ∀ v, v.HasType t → Yields (fun r => r.HasType u) (g v))
    (hf : ∀ v, v.HasType t → Computes Register.ofValue (f (.ofValue v)) (g v)) :
    Computes Register.ofValue (mapLanes mode t.storedKind u.storedKind f (some s))
      (Value.seq <$> s.mapM mode u.storedKind g) := by
  have helements : ∀ v ∈ s.elements, v.HasType t := ((Value.hasType_sequenceOf_iff ht).1 hs).2
  rw [Sequence.mapM_eq_collect mode fun v hv => hg v (helements v hv)]
  refine .map_right (.map_right ?_)
  have hlane : Stops id ((s.elements.map Register.ofValue).mapM fun r =>
      guarded do return element u.storedKind (← f r)) (s.elements.mapM g) := by
    apply Stops.mapM
    intro v hv
    have htyped := helements v hv
    exact Stops.guarded (hf v htyped) (hg v htyped) fun r hr => element_ofValue hr
  have hwrapped := Stops.map (fun es => Register.seq (some (collect u.storedKind es))) hlane
  have hsettled : Computes (fun es => Register.ofValue (.seq (collect u.storedKind es)))
      (settle .object _) _ := .settle hwrapped
  refine Computes.congr ?_ hsettled
  rw [mapLanes, run_bind, openLane_clear (lane?_eq ht hs)]
  rfl

/-- A fold of a sequence of numbers. -/
theorem computes_reduceLanes {s : Sequence} {p r : Scalar}
    {f : Register → Register → Native Register} {g : Value → Value → Except Fault Value}
    {start : Value} (mode : Mode) (hr : r.isNumeric = true) (hpr : p = .float → r = .float)
    (hs : (Value.seq s).HasType (Ty.scalar p).sequenceOf) (hstart : start.HasType (.scalar r))
    (hg : ∀ v w, v.HasType (.scalar r) → w.HasType (.scalar r) →
      Yields (fun u => u.HasType (.scalar r)) (g v w))
    (hf : ∀ v w, v.HasType (.scalar r) → w.HasType (.scalar r) →
      Computes Register.ofValue (f (.ofValue v) (.ofValue w)) (g v w)) :
    Computes Register.ofValue
      (reduceLanes mode (Ty.scalar r).storedKind f (.ofValue start) (some s))
      (s.reduceM mode g start) := by
  have helements := Sequence.hasType_elementsAs hr hpr hs
  have hlane : Stops Register.ofValue
      (mode.reduceM (fun a b => guarded do return Except.ok (← f a b)) (Register.ofValue start)
        ((s.elementsAs (Ty.scalar r).storedKind).map Register.ofValue))
      (mode.reduceM g start (s.elementsAs (Ty.scalar r).storedKind)) := by
    refine Stops.reduceM mode (Q := fun v => v.HasType (.scalar r)) hstart helements hg ?_
    intro v w hv hw
    exact Stops.guarded (hf v w hv hw) (hg v w hv hw) fun u _ => rfl
  have hsettled : Computes Register.ofValue (settle (Ty.scalar r).storedKind _) _ := .settle hlane
  rw [Sequence.reduceM, ← hstart.storedKind_eq]
  refine Computes.congr ?_ hsettled
  rw [reduceLanes, run_bind, openLane_clear (lane?_elementsAs hr hpr hs)]
  rfl

end Native

/-! ## Code -/

namespace Code

/-- On registers that hold the arguments, the native machine computes what code evaluates to. -/
def Agrees (mode : Mode) (code : Code) (args : List Value) : Prop :=
  Native.Computes Register.ofValue (code.execute mode (args.map Register.ofValue))
    (code.eval mode args)

section Operators

variable {mode : Mode} {args : List Value}

theorem agrees_neg {kind : Scalar} {operand : Code} (h : operand.Agrees mode args)
    (hyields : Yields (fun v => v.HasType (.scalar kind)) (operand.eval mode args)) :
    (Code.neg kind operand).Agrees mode args := by
  refine Native.Computes.bind h hyields ?_ ?_
  · intro v hv
    rcases hv.int_or_float with ⟨rfl, n, rfl⟩ | ⟨rfl, x, rfl⟩
    · exact .pure (Value.int (-n))
    · exact .pure (Value.float (-x))
  · intro r
    cases kind <;> exact .pure _

theorem agrees_arith_int {op : BinaryOp} {left right : Code} (hleft : left.Agrees mode args)
    (hright : right.Agrees mode args)
    (hyleft : Yields (fun v => v.HasType .int) (left.eval mode args))
    (hyright : Yields (fun v => v.HasType .int) (right.eval mode args)) :
    (Code.arith .int op left right).Agrees mode args := by
  refine Native.Computes.bind hleft hyleft ?_ ?_
  · intro v hv
    rw [hv.asInt_eq, ok_bind]
    refine Native.Computes.bind hright hyright ?_ ?_
    · intro w hw
      rw [hw.asInt_eq, ok_bind, Register.toInt_ofValue, Register.toInt_ofValue]
      exact Native.Computes.bind (.checked _) (Arith.yields_intOp op v.toInt w.toInt)
        (fun n _ => .pure (Value.int n)) fun n => .pure _
    · exact fun r => .bind (.checked _) fun n => .pure _
  · intro r
    exact .bind (Native.sticky_execute _ right _) fun r => .bind (.checked _) fun n => .pure _

theorem agrees_arith_float {op : BinaryOp} {left right : Code} (hleft : left.Agrees mode args)
    (hright : right.Agrees mode args)
    (hyleft : Yields (fun v => v.HasType .float) (left.eval mode args))
    (hyright : Yields (fun v => v.HasType .float) (right.eval mode args)) :
    (Code.arith .float op left right).Agrees mode args := by
  refine Native.Computes.bind hleft hyleft ?_ ?_
  · intro v hv
    rw [hv.asFloat_eq, ok_bind]
    refine Native.Computes.bind hright hyright ?_ ?_
    · intro w hw
      rw [hw.asFloat_eq, ok_bind, Register.toFloat_ofValue, Register.toFloat_ofValue]
      exact .pure (Value.float (Arith.floatOp op v.toFloat w.toFloat))
    · exact fun r => .pure _
  · intro r
    exact .bind (Native.sticky_execute _ right _) fun r => .pure _

theorem agrees_widen {operand : Code} (h : operand.Agrees mode args)
    (hyields : Yields (fun v => v.HasType .int) (operand.eval mode args)) :
    (Code.cast .int .float operand).Agrees mode args := by
  refine Native.Computes.bind h hyields ?_ ?_
  · intro v hv
    rcases Value.hasType_int_iff.1 hv with ⟨n, rfl⟩
    exact .pure (Value.float (.ofInt64 n))
  · intro r
    exact .pure _

/-- Bounds of a range stand in registers as zero after a fault, and then no range is made. -/
theorem agrees_range {closed : Bool} {first last : Code} (hfirst : first.Agrees mode args)
    (hlast : last.Agrees mode args)
    (hyfirst : Yields (fun v => v.HasType .int) (first.eval mode args))
    (hylast : Yields (fun v => v.HasType .int) (last.eval mode args)) :
    (Code.range closed first last).Agrees mode args := by
  have hsticky : ∀ a b : Int64, Native.Sticky (if closed = true then do
        return Register.seq (← Native.rangeClosed a b)
      else do
        return Register.seq (← Native.range a b)) := by
    intro a b
    split <;> exact .bind (.newRange _) fun xs => .pure _
  refine Native.Computes.bind hfirst hyfirst ?_ ?_
  · intro v hv
    rw [hv.asInt_eq, ok_bind]
    refine Native.Computes.bind hlast hylast ?_ fun r => hsticky _ _
    intro w hw
    rw [hw.asInt_eq, ok_bind, Register.toInt_ofValue, Register.toInt_ofValue]
    have hyields := Range.yields_elements closed v.toInt w.toInt
    cases closed with
    | true =>
      exact Native.Computes.bind (.newRange _) hyields (fun xs _ => .pure (Value.seq (.ints xs)))
        fun r => .pure _
    | false =>
      exact Native.Computes.bind (.newRange _) hyields (fun xs _ => .pure (Value.seq (.ints xs)))
        fun r => .pure _
  · exact fun r => .bind (Native.sticky_execute _ last _) fun r => hsticky _ _

end Operators

/-- Typed code, on registers that hold values of its types. -/
theorem HasType.agrees (mode : Mode) {params : List Ty} {code : Code} {t : Ty}
    (h : HasType params code t) :
    ∀ args, List.Forall₂ Value.HasType args params → code.Agrees mode args := by
  -- after a fault the registers need not be typed any more; that is left to `sticky_execute`
  induction h with
  | @param params slot t hslot =>
    intro args hargs
    have hlt : slot < args.length := by
      rw [hargs.length_eq]
      exact (List.getElem?_eq_some_iff.1 hslot).1
    have harg : (args.map Register.ofValue).getD slot (.int 0) = Register.ofValue args[slot] := by
      simp [hlt]
    rw [Agrees, eval, execute, List.getElem?_eq_getElem hlt, harg]
    exact .pure args[slot]
  | int n =>
    intro args _
    exact .pure (Value.int n)
  | float x =>
    intro args _
    exact .pure (Value.float x)
  | neg _ hoperand ih =>
    intro args hargs
    exact agrees_neg (ih args hargs) (hoperand.yields_eval mode args hargs)
  | @arith params kind op left right hk hleft hright ihl ihr =>
    intro args hargs
    have hyleft := hleft.yields_eval mode args hargs
    have hyright := hright.yields_eval mode args hargs
    cases kind with
    | unknown => exact Bool.noConfusion hk
    | int => exact agrees_arith_int (ihl args hargs) (ihr args hargs) hyleft hyright
    | float => exact agrees_arith_float (ihl args hargs) (ihr args hargs) hyleft hyright
  | widen hoperand ih =>
    intro args hargs
    exact agrees_widen (ih args hargs) (hoperand.yields_eval mode args hargs)
  | range hfirst hlast ihf ihl =>
    intro args hargs
    exact agrees_range (ihf args hargs) (ihl args hargs)
      (hfirst.yields_eval mode args hargs) (hlast.yields_eval mode args hargs)
  | @map params seq body t u ht hu hseq hbody ihs ihb =>
    intro args hargs
    have hyseq := hseq.yields_eval mode args hargs
    refine Native.Computes.bind (ihs args hargs) hyseq ?_ fun r => .mapLanes _ _ _ _ _
    intro v hv
    rcases hv.exists_seq with ⟨s, rfl⟩
    have hmap := Native.computes_mapLanes mode (u := u)
      (f := fun r => body.execute mode [r])
      (g := fun w => body.eval mode [w]) ht hv
      (fun w hw => hbody.yields_eval mode [w] (.cons hw .nil))
      (fun w hw => ihb [w] (.cons hw .nil))
    rw [Value.asSeq, ok_bind, Ty.nativeKind_eq ht, Ty.nativeKind_eq hu, bind_pure_comp]
    exact hmap
  | @reduce params seq neutral body p r hp hr hpr hseq hneutral hbody ihs ihn ihb =>
    intro args hargs
    have hyseq := hseq.yields_eval mode args hargs
    have hyneutral := hneutral.yields_eval mode args hargs
    refine Native.Computes.bind (ihs args hargs) hyseq ?_
      fun r => .bind (Native.sticky_execute _ neutral _) fun r => .reduceLanes _ _ _ _ _
    intro v hv
    rcases hv.exists_seq with ⟨s, rfl⟩
    refine Native.Computes.bind (ihn args hargs) hyneutral ?_ fun r => .reduceLanes _ _ _ _ _
    intro start hstart
    rw [Value.asSeq, ok_bind, Ty.nativeKind_eq (Ty.isProper_scalar.2 hr)]
    exact Native.computes_reduceLanes mode hr hpr hv hstart
      (fun a b ha hb => hbody.yields_eval mode [a, b] (.cons ha (.cons hb .nil)))
      (fun a b ha hb => ihb [a, b] (.cons ha (.cons hb .nil)))

end Code

/-! ## Calls -/

namespace Native

/-- Typed arguments are passed in registers as they are. -/
theorem arguments_eq {params : List Ty} {args : List Value}
    (h : List.Forall₂ Value.HasType args params) :
    arguments params args = .ok (args.map .ofValue) := by
  rw [arguments, if_pos h.length_eq]
  induction h with
  | nil => rfl
  | @cons v t args params hv _ ih =>
    rw [List.zip_cons_cons, List.mapM_cons, Ty.nativeKind_eq hv.isProper, argument_eq hv, ok_bind,
      ih, ok_bind]
    rfl

/-- A typed function gives the same result when it is called and when it is evaluated. -/
theorem call_eq_eval (mode : Mode) {f : Function} {args : List Value}
    (hbody : f.body.HasType f.profile.params f.profile.result)
    (hargs : List.Forall₂ Value.HasType args f.profile.params) :
    call mode f args = f.body.eval mode args := by
  have hcomputes := hbody.agrees mode args hargs
  have hyields := hbody.yields_eval mode args hargs
  rw [call, arguments_eq hargs, ok_bind]
  cases hresult : f.body.eval mode args with
  | ok v =>
    rw [hresult] at hyields
    rw [Code.Agrees, hresult] at hcomputes
    have hrun : (f.body.execute mode (args.map .ofValue)).run .clear =
      (Register.ofValue v, .clear) := hcomputes
    have htyped : v.HasType f.profile.result := hyields
    rw [hrun]
    dsimp only [FaultRecord.clear]
    rw [Ty.nativeKind_eq htyped.isProper]
    exact element_ofValue htyped
  | error e =>
    rw [Code.Agrees, hresult] at hcomputes
    have hrun : ((f.body.execute mode (args.map .ofValue)).run .clear).2 = .of e := hcomputes
    generalize (f.body.execute mode (args.map .ofValue)).run .clear = after at hrun ⊢
    rcases after with ⟨result, record⟩
    cases hrun
    rfl

end Native
end SeqCalc
