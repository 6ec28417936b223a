import Mathlib.Data.List.Forall2
import SeqCalc.Code.Backend
import SeqCalc.Proofs.Typing.Rules
import SeqCalc.Proofs.Value.Typing

/-!
# Typed code

The typing rules of slot code, in the types of its arguments.  The one cast that they allow widens
an integer.  Both backends take typed code, and evaluating it on arguments of its types yields a
value of its type.

Main results:

- `Code.HasType.casts_eq`: typed code never casts a float to an integer.
- `Backend.build_of_hasType`, `Backend.wrap_of_hasType`: both backends take typed code.
- `Code.HasType.yields_eval`: typed code yields values of its type.
-/

namespace SeqCalc

/-! ## Rules -/

namespace Code

/-- The typing rules of code, whose arguments have the given types. -/
inductive HasType : List Ty → Code → Ty → Prop
  | param {params : List Ty} {slot : Nat} {t : Ty} :
      params[slot]? = some t → HasType params (.param slot) t
  | int {params : List Ty} (n : Int64) : HasType params (.int n) .int
  | float {params : List Ty} (x : Binary64) : HasType params (.float x) .float
  | neg {params : List Ty} {kind : Scalar} {operand : Code} :
      kind.isNumeric = true → HasType params operand (.scalar kind) →
      HasType params (.neg kind operand) (.scalar kind)
  | arith {params : List Ty} {kind : Scalar} {op : BinaryOp} {left right : Code} :
      kind.isNumeric = true → HasType params left (.scalar kind) →
      HasType params right (.scalar kind) →
      HasType params (.arith kind op left right) (.scalar kind)
  | widen {params : List Ty} {operand : Code} :
      HasType params operand .int → HasType params (.cast .int .float operand) .float
  | range {params : List Ty} {closed : Bool} {first last : Code} :
      HasType params first .int → HasType params last .int →
      HasType params (.range closed first last) Ty.int.sequenceOf
  | map {params : List Ty} {seq body : Code} {t u : Ty} :
      t.IsProper → u.IsProper → HasType params seq t.sequenceOf → HasType [t] body u →
      HasType params (.map seq ⟨u, [t]⟩ body t u) u.sequenceOf
  | reduce {params : List Ty} {seq neutral body : Code} {p r : Scalar} :
      p.isNumeric = true → r.isNumeric = true → (p = .float → r = .float) →
      HasType params seq (Ty.scalar p).sequenceOf → HasType params neutral (.scalar r) →
      HasType [.scalar r, .scalar r] body (.scalar r) →
      HasType params (.reduce seq neutral ⟨.scalar r, [.scalar r, .scalar r]⟩ body p r) (.scalar r)

variable {params : List Ty} {code : Code} {t : Ty}

theorem HasType.isProper (h : HasType params code t) (hp : ∀ u ∈ params, u.IsProper) :
    t.IsProper := by
  cases h with
  | param hslot => exact hp t (List.mem_of_getElem? hslot)
  | int => exact Ty.isProper_int
  | float => exact Ty.isProper_float
  | neg hk _ => exact hk
  | arith hk _ _ => exact hk
  | widen _ => exact Ty.isProper_float
  | range _ _ => exact Ty.isProper_int.sequenceOf
  | map _ hu _ _ => exact hu.sequenceOf
  | reduce _ hr _ _ _ _ => exact hr

/-! ## Casts -/

/-- The casts of some code and of its nested functions, with source and target. -/
def casts : Code → List (Scalar × Scalar)
  | .param _ | .int _ | .float _ => []
  | .neg _ operand => operand.casts
  | .arith _ _ left right => left.casts ++ right.casts
  | .cast source target operand => operand.casts ++ [(source, target)]
  | .range _ first last => first.casts ++ last.casts
  | .map seq _ body _ _ => seq.casts ++ body.casts
  | .reduce seq neutral _ body _ _ => seq.casts ++ neutral.casts ++ body.casts

/-- Every cast of typed code widens an integer. -/
theorem HasType.casts_eq (h : HasType params code t) : ∀ c ∈ code.casts, c = (.int, .float) := by
  induction h with
  | param | int | float => simp [casts]
  | neg _ _ ih => exact ih
  | arith _ _ _ ihl ihr => exact List.forall_mem_append.2 ⟨ihl, ihr⟩
  | widen _ ih => exact List.forall_mem_append.2 ⟨ih, by simp⟩
  | range _ _ ihf ihl => exact List.forall_mem_append.2 ⟨ihf, ihl⟩
  | map _ _ _ _ ihs ihb => exact List.forall_mem_append.2 ⟨ihs, ihb⟩
  | reduce _ _ _ _ _ _ ihs ihn ihb =>
    exact List.forall_mem_append.2 ⟨List.forall_mem_append.2 ⟨ihs, ihn⟩, ihb⟩

/-! ## Registers -/

theorem ofTy_sequenceOf (t : Ty) : RegisterClass.ofTy t.sequenceOf = .word := by
  cases t <;> rfl

/-- Typed code leaves its value in a register of the class of its type. -/
theorem HasType.registerClass?_eq (h : HasType params code t) :
    code.registerClass? params = some (.ofTy t) := by
  induction h with
  | param hslot => simp [registerClass?, hslot]
  | int | float => rfl
  | neg _ _ ih => simp [registerClass?, ih, RegisterClass.ofScalar]
  | arith _ _ _ ihl ihr => simp [registerClass?, ihl, ihr, RegisterClass.ofScalar]
  | widen _ ih => simp [registerClass?, ih, RegisterClass.ofScalar, Ty.int, Ty.float]
  | range _ _ ihf ihl =>
    rw [registerClass?, ihf, ihl]
    rfl
  | map _ _ _ _ ihs _ => simp [registerClass?, ihs, ofTy_sequenceOf]
  | reduce _ _ _ _ _ _ ihs ihn _ =>
    simp [registerClass?, ihs, ihn, ofTy_sequenceOf, RegisterClass.ofScalar]

end Code

/-! ## Admission -/

namespace Backend

theorem requireKind_of_isProper (b : Backend) {t : Ty} (h : t.IsProper) :
    b.requireKind t = .ok () := by
  rw [requireKind, Ty.kind?_eq_storedKind h]

theorem requireNumeric_of_isNumeric (b : Backend) {p : Scalar} (h : p.isNumeric = true) :
    b.requireNumeric p = .ok () :=
  b.requireKind_of_isProper (t := .scalar p) h

/-- Both backends build typed code. -/
theorem build_of_hasType (b : Backend) {p : Profile} {code : Code} {t : Ty}
    (h : code.HasType p.params t) : b.build p code = .ok code := by
  have hadmits : b.admits p code = .ok () := by
    generalize hp : p.params = params at h
    cases h with
    | @param _ slot _ hslot =>
      have hlt : slot < p.params.length := by
        rw [hp]
        exact (List.getElem?_eq_some_iff.1 hslot).1
      rw [admits, if_pos hlt]
    | int | float | range => rfl
    | neg hk _ => exact b.requireNumeric_of_isNumeric hk
    | arith hk _ _ => exact b.requireNumeric_of_isNumeric hk
    | widen _ => rfl
    | map ht hu _ _ =>
      cases b with
      | interp => exact requireKind_of_isProper _ hu
      | native => simp [admits, requireKind_of_isProper _ ht, requireKind_of_isProper _ hu]
    | @reduce _ _ _ _ q r hq hr hqr _ _ _ =>
      have hint : ¬(q = .float ∧ r = .int) := by
        rintro ⟨hf, hi⟩
        rw [hqr hf] at hi
        contradiction
      cases b with
      | interp =>
        simp [admits, requireNumeric_of_isNumeric _ hq, requireNumeric_of_isNumeric _ hr]
      | native =>
        simp [admits, requireNumeric_of_isNumeric _ hq, requireNumeric_of_isNumeric _ hr, hint]
  rw [build, hadmits, ok_bind]
  rfl

theorem opens_of_isProper (b : Backend) {p : Profile} (hresult : p.result.IsProper)
    (hparams : ∀ t ∈ p.params, t.IsProper) : b.opens p = .ok () := by
  cases b with
  | interp => rfl
  | native =>
    rw [opens, requireKind_of_isProper _ hresult, ok_bind]
    generalize p.params = params at hparams
    induction params with
    | nil => rfl
    | cons t rest ih =>
      have hrest := ih fun u hu => hparams u (List.mem_cons_of_mem t hu)
      change (native.requireKind t >>= fun _ => rest.forM native.requireKind) = .ok ()
      rw [requireKind_of_isProper _ (hparams t List.mem_cons_self), ok_bind]
      exact hrest

/-- Both backends take a typed function body. -/
theorem wrap_of_hasType (b : Backend) {p : Profile} {body : Code}
    (hparams : ∀ t ∈ p.params, t.IsProper) (h : body.HasType p.params p.result) :
    b.wrap p (.ok body) = .ok body := by
  have hcloses : b.closes p body = .ok () := by
    cases b with
    | interp => rfl
    | native => rw [closes, h.registerClass?_eq, if_pos rfl]
  rw [wrap, b.opens_of_isProper (h.isProper hparams) hparams, ok_bind, ok_bind, hcloses, ok_bind]
  rfl

/-- A function on proper types is refused for the reason that its body is. -/
theorem wrap_error (b : Backend) {p : Profile} (hresult : p.result.IsProper)
    (hparams : ∀ t ∈ p.params, t.IsProper) (e : BackendError) :
    b.wrap p (.error e) = .error e := by
  rw [wrap, b.opens_of_isProper hresult hparams, ok_bind]
  rfl

end Backend

/-! ## Evaluation -/

namespace Code

section Operators

variable {mode : Mode} {args : List Value}

theorem yields_neg {kind : Scalar} {operand : Code}
    (h : Yields (fun v => v.HasType (.scalar kind)) (operand.eval mode args)) :
    Yields (fun v => v.HasType (.scalar kind)) ((Code.neg kind operand).eval mode args) := by
  apply h.bind
  intro v hv
  rcases hv.int_or_float with ⟨rfl, n, rfl⟩ | ⟨rfl, x, rfl⟩
  · exact .int (-n)
  · exact .float (-x)

theorem yields_arith {kind : Scalar} {op : BinaryOp} {left right : Code}
    (hk : kind.isNumeric = true)
    (hleft : Yields (fun v => v.HasType (.scalar kind)) (left.eval mode args))
    (hright : Yields (fun v => v.HasType (.scalar kind)) (right.eval mode args)) :
    Yields (fun v => v.HasType (.scalar kind))
      ((Code.arith kind op left right).eval mode args) := by
  cases kind with
  | unknown => exact Bool.noConfusion hk
  | int =>
    apply hleft.bind
    intro v hv
    rw [hv.asInt_eq, ok_bind]
    apply hright.bind
    intro w hw
    rw [hw.asInt_eq, ok_bind]
    exact (Arith.yields_intOp op v.toInt w.toInt).bind fun n _ => .int n
  | float =>
    apply hleft.bind
    intro v hv
    rw [hv.asFloat_eq, ok_bind]
    apply hright.bind
    intro w hw
    rw [hw.asFloat_eq, ok_bind]
    exact .float (Arith.floatOp op v.toFloat w.toFloat)

theorem yields_range {closed : Bool} {first last : Code}
    (hfirst : Yields (fun v => v.HasType .int) (first.eval mode args))
    (hlast : Yields (fun v => v.HasType .int) (last.eval mode args)) :
    Yields (fun v => v.HasType Ty.int.sequenceOf)
      ((Code.range closed first last).eval mode args) := by
  apply hfirst.bind
  intro v hv
  rw [hv.asInt_eq, ok_bind]
  apply hlast.bind
  intro w hw
  rw [hw.asInt_eq, ok_bind]
  exact (Range.yields_elements _ v.toInt w.toInt).bind fun xs _ => .ints xs

theorem yields_map {seq body : Code} {profile : Profile} {t u : Ty} (ht : t.IsProper)
    (hu : u.IsProper) (hseq : Yields (fun v => v.HasType t.sequenceOf) (seq.eval mode args))
    (hbody : ∀ w, w.HasType t → Yields (fun r => r.HasType u) (body.eval mode [w])) :
    Yields (fun v => v.HasType u.sequenceOf)
      ((Code.map seq profile body t u).eval mode args) := by
  apply hseq.bind
  intro v hv
  rcases hv.exists_seq with ⟨s, rfl⟩
  rw [Value.asSeq, ok_bind]
  have helements := ((Value.hasType_sequenceOf_iff ht).1 hv).2
  exact (Sequence.yields_mapM mode hu fun w hw => hbody w (helements w hw)).bind fun r hr => hr

theorem yields_reduce {seq neutral body : Code} {profile : Profile} {p r : Scalar}
    (hr : r.isNumeric = true) (hpr : p = .float → r = .float)
    (hseq : Yields (fun v => v.HasType (Ty.scalar p).sequenceOf) (seq.eval mode args))
    (hneutral : Yields (fun v => v.HasType (.scalar r)) (neutral.eval mode args))
    (hbody : ∀ a b, a.HasType (.scalar r) → b.HasType (.scalar r) →
      Yields (fun v => v.HasType (.scalar r)) (body.eval mode [a, b])) :
    Yields (fun v => v.HasType (.scalar r))
      ((Code.reduce seq neutral profile body p r).eval mode args) := by
  apply hseq.bind
  intro v hv
  rcases hv.exists_seq with ⟨s, rfl⟩
  apply hneutral.bind
  intro start hstart
  rw [Value.asSeq, ok_bind, Sequence.reduceM, ← hstart.storedKind_eq]
  exact mode.yields_reduceM hbody hstart (Sequence.hasType_elementsAs hr hpr hv)

end Operators

/-- Typed code on arguments of its types yields a value of its type. -/
theorem HasType.yields_eval (mode : Mode) {params : List Ty} {code : Code} {t : Ty}
    (h : HasType params code t) :
    ∀ args, List.Forall₂ Value.HasType args params →
      Yields (fun v => v.HasType t) (code.eval mode args) := by
  induction h with
  | @param params slot t hslot =>
    intro args hargs
    rcases List.getElem?_eq_some_iff.1 hslot with ⟨hlt, hget⟩
    have hltArgs : slot < args.length := hargs.length_eq ▸ hlt
    rw [eval, List.getElem?_eq_getElem hltArgs]
    have htyped := hargs.get hltArgs hlt
    simp only [List.get_eq_getElem] at htyped
    rw [hget] at htyped
    exact htyped
  | int n =>
    intro args _
    exact .int n
  | float x =>
    intro args _
    exact .float x
  | neg _ _ ih =>
    intro args hargs
    exact yields_neg (ih args hargs)
  | arith hk _ _ ihl ihr =>
    intro args hargs
    exact yields_arith hk (ihl args hargs) (ihr args hargs)
  | widen _ ih =>
    intro args hargs
    apply (ih args hargs).bind
    intro v hv
    rcases Value.hasType_int_iff.1 hv with ⟨n, rfl⟩
    exact .float (.ofInt64 n)
  | range _ _ ihf ihl =>
    intro args hargs
    exact yields_range (ihf args hargs) (ihl args hargs)
  | map ht hu _ _ ihs ihb =>
    intro args hargs
    apply yields_map ht hu (ihs args hargs)
    intro w hw
    exact ihb [w] (.cons hw .nil)
  | reduce _ hr hpr _ _ _ ihs ihn ihb =>
    intro args hargs
    apply yields_reduce hr hpr (ihs args hargs) (ihn args hargs)
    intro a b ha hb
    exact ihb [a, b] (.cons ha (.cons hb .nil))

end Code
end SeqCalc
