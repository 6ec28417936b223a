import Mathlib.Data.List.Basic
import SeqCalc.Proofs.Typing.Rules
import SeqCalc.Typing.Inference

/-!
# Inference is exact

Inference makes no complaint about a program exactly when the typing rules derive a type for every
statement, and then it finds these types.

Main results:

- `Expr.HasType.value_infer`, `Expr.HasType.complaints_infer`: inference finds a derivable type.
- `Expr.hasType_of_infer`: without complaints, the type found is derivable.
- `SoundProgram.complaints_infer_eq_nil_iff`: both for whole programs.
-/

namespace SeqCalc

/-! ## Findings of single steps -/

namespace Findings

@[simp]
theorem complaints_append (f g : Findings) : (f ++ g).complaints = f.complaints ++ g.complaints :=
  rfl

@[simp]
theorem visits_append (f g : Findings) : (f ++ g).visits = f.visits ++ g.visits :=
  rfl

@[simp]
theorem reads_append (f g : Findings) : (f ++ g).reads = f.reads ++ g.reads :=
  rfl

@[simp]
theorem complaints_empty : empty.complaints = [] :=
  rfl

@[simp]
theorem visits_empty : empty.visits = [] :=
  rfl

@[simp]
theorem reads_empty : empty.reads = [] :=
  rfl

end Findings

namespace Inferred

/-- Make a complaint if there is reason to. -/
def complainIf (reason : Bool) (span : Span) (m : Mistake) : Inferred Unit :=
  if reason then complain span m else pure ()

@[simp]
theorem complaints_complainIf (reason : Bool) (span : Span) (m : Mistake) :
    (complainIf reason span m).findings.complaints = if reason then [⟨span, m⟩] else [] := by
  cases reason <;> rfl

@[simp]
theorem visits_complainIf (reason : Bool) (span : Span) (m : Mistake) :
    (complainIf reason span m).findings.visits = [] := by
  cases reason <;> rfl

@[simp]
theorem reads_complainIf (reason : Bool) (span : Span) (m : Mistake) :
    (complainIf reason span m).findings.reads = [] := by
  cases reason <;> rfl

theorem complainIf_bind {α : Type} (reason : Bool) (span : Span) (m : Mistake)
    (next : Unit → Inferred α) :
    (if reason = true then complain span m >>= next else next ()) =
      complainIf reason span m >>= next := by
  cases reason <;> rfl

@[simp]
theorem complaints_complain (span : Span) (m : Mistake) :
    (complain span m).findings.complaints = [⟨span, m⟩] :=
  rfl

@[simp]
theorem visits_complain (span : Span) (m : Mistake) : (complain span m).findings.visits = [] :=
  rfl

@[simp]
theorem reads_complain (span : Span) (m : Mistake) : (complain span m).findings.reads = [] :=
  rfl

@[simp]
theorem complaints_visit (id : NodeId) (t : Ty) : (visit id t).findings.complaints = [] :=
  rfl

@[simp]
theorem visits_visit (id : NodeId) (t : Ty) : (visit id t).findings.visits = [(id, t)] :=
  rfl

@[simp]
theorem reads_visit (id : NodeId) (t : Ty) : (visit id t).findings.reads = [] :=
  rfl

@[simp]
theorem complaints_read (v : Variable) : (read v).findings.complaints = [] :=
  rfl

@[simp]
theorem visits_read (v : Variable) : (read v).findings.visits = [] :=
  rfl

@[simp]
theorem reads_read (v : Variable) : (read v).findings.reads = [v] :=
  rfl

end Inferred

/-! ## Scopes as contexts -/

namespace Scope

@[simp]
theorem types_empty : Scope.empty.types = Context.empty :=
  rfl

theorem types_define {s s' : Scope} {v : Variable} (h : s.define v = .ok s') :
    s'.types = s.types.extend v.name v.ty := by
  funext name
  simp only [types, Context.extend, lookup?_define h name, eq_comm (a := name)]
  split <;> rfl

theorem define_eq_ok_iff {s s' : Scope} {v : Variable} :
    s.define v = .ok s' ↔ s.types v.name = none ∧ s' = ⟨s.vars ++ [v]⟩ := by
  cases h : s.lookup? v.name with
  | none => simp [define, types, h, eq_comm]
  | some old => simp [define, types, h]

/-- Parameters in a scope of their own, without complaints. -/
theorem bindParams_cons {span : Span} {s s' : Scope} {name : String} {t : Ty}
    (names : List String) (given : List Ty) (h : s.define ⟨name, t⟩ = .ok s') :
    bindParams span s (name :: names) (t :: given) = bindParams span s' names given := by
  simp [bindParams, h]

end Scope

/-- The scope of the one parameter of a `map` lambda. -/
theorem bindParams_one (span : Span) (x : String) (t : Ty) :
    bindParams span .empty [x] [t] = pure ⟨[⟨x, t⟩]⟩ :=
  rfl

/-- The scope of the two parameters of a `reduce` lambda. -/
theorem bindParams_two (span : Span) {x y : String} (hxy : x ≠ y) (t u : Ty) :
    bindParams span .empty [x, y] [t, u] = pure ⟨[⟨x, t⟩, ⟨y, u⟩]⟩ := by
  have hy : (⟨[⟨x, t⟩]⟩ : Scope).define ⟨y, u⟩ = .ok ⟨[⟨x, t⟩, ⟨y, u⟩]⟩ := by
    rw [Scope.define_eq_ok_iff]
    simp [Scope.types, Scope.lookup?, hxy]
  have hx : Scope.empty.define ⟨x, t⟩ = .ok ⟨[⟨x, t⟩]⟩ := rfl
  rw [Scope.bindParams_cons [y] [u] hx, Scope.bindParams_cons [] [] hy]
  rfl

/-- Two parameters of one name are complained about. -/
theorem ne_of_bindParams {span : Span} {x y : String} {t u : Ty}
    (h : (bindParams span .empty [x, y] [t, u]).findings.complaints = []) : x ≠ y := by
  rintro rfl
  have hclash : (⟨[⟨x, t⟩]⟩ : Scope).define ⟨x, u⟩ = .error ⟨x, t⟩ := by
    simp [Scope.define, Scope.lookup?]
  have hx : Scope.empty.define ⟨x, t⟩ = .ok ⟨[⟨x, t⟩]⟩ := rfl
  rw [Scope.bindParams_cons [x] [u] hx] at h
  simp [bindParams, hclash] at h

theorem Scope.types_one (x : String) (t : Ty) :
    (⟨[⟨x, t⟩]⟩ : Scope).types = Context.empty.extend x t :=
  types_define (s := .empty) rfl

theorem Scope.types_two {x y : String} (hxy : x ≠ y) (t u : Ty) :
    (⟨[⟨x, t⟩, ⟨y, u⟩]⟩ : Scope).types = (Context.empty.extend x t).extend y u := by
  rw [← types_one]
  have hdefine : (⟨[⟨x, t⟩]⟩ : Scope).define ⟨y, u⟩ = .ok ⟨[⟨x, t⟩, ⟨y, u⟩]⟩ := by
    rw [define_eq_ok_iff]
    simp [types, lookup?, hxy]
  exact types_define hdefine

/-! ## Steps of inference -/

namespace Expr

theorem infer_unary (env : Env) (site : Site) (op : UnaryOp) (operand : Expr) :
    (Expr.unary site op operand).infer env = do
      let t ← operand.infer env
      Inferred.complainIf t.isSequence site.span (.badOperand op t)
      let ty := if t.isSequence then .unknown else t
      Inferred.visit site.id ty
      return ty := by
  simp only [Expr.infer, ← Inferred.complainIf_bind]

theorem infer_reduce (env : Env) (site : Site) (seq neutral function : Expr) :
    (Expr.reduce site seq neutral function).infer env = do
      let seqTy ← seq.infer env
      let neutralTy ← neutral.infer env
      let element ← elementOf seq.span seqTy
      let acc ← accumulator seq.span neutral.span element neutralTy
      let body ← function.inferFunction .reduce [acc, acc]
      Inferred.complainIf (!acc.isUnknown && !body.1.isUnknown && body.1 != acc) body.2
        (.bodyMismatch acc body.1)
      Inferred.visit site.id acc
      return acc := by
  simp only [Expr.infer, ← Inferred.complainIf_bind]

theorem inferFunction_lambda (c : Combinator) (given : List Ty) (site : Site)
    (params : List String) (body : Expr) :
    (Expr.lambda site params body).inferFunction c given = do
      Inferred.complainIf (decide (params.length ≠ given.length)) site.span
        (.wrongArity c params.length)
      let scope ← bindParams site.span .empty params given
      let ty ← body.infer ⟨scope, true⟩
      Inferred.visit site.id ty
      return (ty, body.span) := by
  simp only [Expr.inferFunction, ← Inferred.complainIf_bind, decide_eq_true_eq]

/-- The negatives of some integers are integers: a function literal sees its parameter. -/
example (s : Site) :
    ((Expr.map s (.range s (.int s 1) (.int s 3))
      (.lambda s ["x"] (.unary s .neg (.ident s "x")))).infer ⟨.empty, false⟩).value =
        Ty.int.sequenceOf := by
  cbv

end Expr

/-! ## Derivable types are found -/

namespace Expr

theorem elementOf_eq_pure {span : Span} {t u : Ty} (h : t.element? = some u) :
    elementOf span t = pure u := by
  simp [elementOf, h]

theorem accumulator_eq_pure (s₁ s₂ : Span) {p q : Scalar} (hp : p.isNumeric = true)
    (hq : q.isNumeric = true) :
    accumulator s₁ s₂ (.scalar p) (.scalar q) = pure (.scalar (p.widest q)) := by
  simp [accumulator, Ty.scalar?, Scalar.promote_eq_widest hp hq]

/-- Inference finds the type of a derivation and complains about nothing. -/
theorem HasType.infer {Γ : Context} {e : Expr} {t : Ty} (h : HasType Γ e t) :
    ∀ env : Env, env.scope.types = Γ →
      (e.infer env).value = t ∧ (e.infer env).findings.complaints = [] := by
  induction h with
  | int => intro env henv; simp [Expr.infer]
  | float => intro env henv; simp [Expr.infer]
  | @ident Γ site name t hname =>
    rintro env rfl
    rcases Option.map_eq_some_iff.1 hname with ⟨v, hv, rfl⟩
    cases hl : env.inLambda <;> simp [Expr.infer, Env.resolve, hv, hl]
  | unary hp _ ih =>
    intro env henv
    rcases ih env henv with ⟨hv, hc⟩
    simp [Expr.infer, hv, hc, Ty.isSequence]
  | binary hp hq _ _ ihl ihr =>
    intro env henv
    rcases ihl env henv with ⟨hlv, hlc⟩
    rcases ihr env henv with ⟨hrv, hrc⟩
    simp [Expr.infer, hlv, hlc, hrv, hrc, combine, Ty.scalar?, Scalar.promote_eq_widest hp hq]
  | range _ _ ihf ihl =>
    intro env henv
    rcases ihf env henv with ⟨hfv, hfc⟩
    rcases ihl env henv with ⟨hlv, hlc⟩
    simp [Expr.infer, hfv, hfc, hlv, hlc, checkBound]
  | @map Γ site inner seq body x t u ht _ hbody ihs ihb =>
    intro env henv
    rcases ihs env henv with ⟨hsv, hsc⟩
    rcases ihb ⟨⟨[⟨x, t⟩]⟩, true⟩ (Scope.types_one x t) with ⟨hbv, hbc⟩
    have hu : u ≠ .unknown := (hbody.isProper (Context.isProper_empty.extend ht x)).ne_unknown
    simp [Expr.infer, hsv, hsc, elementOf_eq_pure ht.element?_sequenceOf, Expr.inferFunction,
      bindParams_one, hbv, hbc, Ty.isUnknown, hu]
  | @reduce Γ site inner seq neutral body acc x p q hp hq hne _ _ _ ihs ihn ihb =>
    intro env henv
    rcases ihs env henv with ⟨hsv, hsc⟩
    rcases ihn env henv with ⟨hnv, hnc⟩
    rcases ihb ⟨⟨[⟨acc, _⟩, ⟨x, _⟩]⟩, true⟩ (Scope.types_two hne _ _) with ⟨hbv, hbc⟩
    have hel := Ty.IsProper.element?_sequenceOf (t := .scalar p) hp
    simp [Expr.infer, hsv, hsc, hnv, hnc, elementOf_eq_pure hel, accumulator_eq_pure _ _ hp hq,
      Expr.inferFunction, bindParams_two _ hne, hbv, hbc]

theorem HasType.value_infer {env : Env} {e : Expr} {t : Ty} (h : HasType env.scope.types e t) :
    (e.infer env).value = t :=
  (h.infer env rfl).1

theorem HasType.complaints_infer {env : Env} {e : Expr} {t : Ty}
    (h : HasType env.scope.types e t) : (e.infer env).findings.complaints = [] :=
  (h.infer env rfl).2

/-- An expression has at most one type. -/
theorem HasType.unique {scope : Scope} {e : Expr} {t u : Ty} (ht : HasType scope.types e t)
    (hu : HasType scope.types e u) : t = u :=
  (ht.infer ⟨scope, true⟩ rfl).1.symm.trans (hu.infer ⟨scope, true⟩ rfl).1

/-! ## Found types are derivable -/

/-- A complaint-free operand that should be a sequence has an element type. -/
theorem elementOf_of_complaints {span : Span} {t : Ty} (ht : t.IsProper)
    (h : (elementOf span t).findings.complaints = []) :
    ∃ u, t.element? = some u ∧ elementOf span t = pure u := by
  cases he : t.element? with
  | some u => exact ⟨u, rfl, elementOf_eq_pure he⟩
  | none => simp [elementOf, he, ht.isUnknown_eq_false] at h

theorem eq_int_of_checkBound {span : Span} {t : Ty} (ht : t.IsProper)
    (h : (checkBound span t).findings.complaints = []) : t = .int := by
  by_cases hint : t = .int
  · exact hint
  · simp [checkBound, hint, ht.isUnknown_eq_false] at h

theorem scalars_of_combine {site : Site} {op : BinaryOp} {t u : Ty} (ht : t.IsProper)
    (hu : u.IsProper) (h : (combine site op t u).findings.complaints = []) :
    ∃ p q, t = .scalar p ∧ u = .scalar q := by
  cases t with
  | seq element depth =>
    simp [combine, Ty.scalar?, ht.isUnknown_eq_false, hu.isUnknown_eq_false] at h
  | scalar p =>
    cases u with
    | seq element depth =>
      simp [combine, Ty.scalar?, ht.isUnknown_eq_false, hu.isUnknown_eq_false] at h
    | scalar q => exact ⟨p, q, rfl, rfl⟩

theorem scalars_of_accumulator {s₁ s₂ : Span} {t u : Ty}
    (h : (accumulator s₁ s₂ t u).findings.complaints = []) :
    ∃ p q, t = .scalar p ∧ u = .scalar q := by
  cases t with
  | seq element depth =>
    cases u <;> simp [accumulator, Ty.scalar?, Ty.isSequence] at h
  | scalar p =>
    cases u with
    | seq element depth => simp [accumulator, Ty.scalar?, Ty.isSequence] at h
    | scalar q => exact ⟨p, q, rfl, rfl⟩

/-- Without complaints the type found for an expression is derivable. -/
def Sound (e : Expr) : Prop :=
  ∀ env : Env, env.scope.types.IsProper → (e.infer env).findings.complaints = [] →
    HasType env.scope.types e (e.infer env).value

theorem lambda_of_inferFunction {c : Combinator} {given : List Ty} {e : Expr}
    (h : (e.inferFunction c given).findings.complaints = []) :
    ∃ site params body, e = .lambda site params body ∧ params.length = given.length := by
  cases e with
  | lambda site params body =>
    refine ⟨site, params, body, rfl, ?_⟩
    by_cases hlen : params.length = given.length
    · exact hlen
    · simp [inferFunction_lambda, hlen] at h
  | _ => simp [inferFunction] at h

theorem sound_ident {site : Site} {name : String} : (Expr.ident site name).Sound := by
  intro env hΓ h
  cases hl : env.scope.lookup? name with
  | none => simp [Expr.infer, Env.resolve, hl] at h
  | some v =>
    have htyped : HasType env.scope.types (.ident site name) v.ty :=
      .ident (by simp [Scope.types, hl])
    rw [htyped.value_infer]
    exact htyped

/-- A function literal on its own is always complained about. -/
theorem sound_lambda {site : Site} {params : List String} {body : Expr} :
    (Expr.lambda site params body).Sound := by
  intro env hΓ h
  simp [Expr.infer] at h

theorem sound_unary {site : Site} {op : UnaryOp} {operand : Expr} (ho : operand.Sound) :
    (Expr.unary site op operand).Sound := by
  intro env hΓ h
  simp only [infer_unary, Inferred.findings_bind, Findings.complaints_append,
    List.append_eq_nil_iff] at h
  have hoperand := ho env hΓ h.1
  have hscalar : (operand.infer env).value.isSequence = false := by
    cases hs : (operand.infer env).value.isSequence with
    | false => rfl
    | true => simp [hs] at h
  rcases (hoperand.isProper hΓ).scalar?_isSome hscalar with ⟨p, hp, hnum⟩
  rw [hp] at hoperand
  have htyped : HasType env.scope.types (.unary site op operand) (.scalar p) :=
    .unary hnum hoperand
  rw [htyped.value_infer]
  exact htyped

theorem sound_binary {site : Site} {op : BinaryOp} {left right : Expr} (hl : left.Sound)
    (hr : right.Sound) : (Expr.binary site op left right).Sound := by
  intro env hΓ h
  simp only [Expr.infer, Inferred.findings_bind, Findings.complaints_append,
    List.append_eq_nil_iff] at h
  rcases h with ⟨hlc, hrc, hcombine, -⟩
  have hleft := hl env hΓ hlc
  have hright := hr env hΓ hrc
  obtain ⟨p, q, hp, hq⟩ :=
    scalars_of_combine (hleft.isProper hΓ) (hright.isProper hΓ) hcombine
  rw [hp] at hleft
  rw [hq] at hright
  have htyped : HasType env.scope.types (.binary site op left right) (.scalar (p.widest q)) :=
    .binary (hleft.isProper hΓ) (hright.isProper hΓ) hleft hright
  rw [htyped.value_infer]
  exact htyped

theorem sound_range {site : Site} {first last : Expr} (hf : first.Sound) (hl : last.Sound) :
    (Expr.range site first last).Sound := by
  intro env hΓ h
  simp only [Expr.infer, Inferred.findings_bind, Findings.complaints_append,
    List.append_eq_nil_iff] at h
  rcases h with ⟨hfc, hfb, hlc, hlb, -⟩
  have hfirst := hf env hΓ hfc
  have hlast := hl env hΓ hlc
  rw [eq_int_of_checkBound (hfirst.isProper hΓ) hfb] at hfirst
  rw [eq_int_of_checkBound (hlast.isProper hΓ) hlb] at hlast
  exact .range hfirst hlast

theorem sound_map {site : Site} {seq function : Expr} (hs : seq.Sound)
    (hb : ∀ inner params body, function = .lambda inner params body → body.Sound) :
    (Expr.map site seq function).Sound := by
  intro env hΓ h
  simp only [Expr.infer, Inferred.findings_bind, Findings.complaints_append,
    List.append_eq_nil_iff] at h
  rcases h with ⟨hsc, helement, hfunction, -⟩
  have hseq := hs env hΓ hsc
  rcases elementOf_of_complaints (hseq.isProper hΓ) helement with ⟨t, ht, hpure⟩
  rcases (hseq.isProper hΓ).of_element? ht with ⟨htp, hst⟩
  rw [hst] at hseq
  rw [hpure] at hfunction
  rcases lambda_of_inferFunction hfunction with ⟨inner, params, body, rfl, hlen⟩
  rcases List.length_eq_one_iff.1 hlen with ⟨x, rfl⟩
  simp only [inferFunction_lambda, Inferred.value_pure, bindParams_one, Inferred.findings_bind,
    Findings.complaints_append, List.append_eq_nil_iff] at hfunction
  have hbody := hb inner [x] body rfl ⟨⟨[⟨x, t⟩]⟩, true⟩
    (Scope.types_one x t ▸ Context.isProper_empty.extend htp x) hfunction.2.2.1
  rw [Scope.types_one] at hbody
  have htyped : HasType env.scope.types (.map site seq (.lambda inner [x] body)) _ :=
    .map htp hseq hbody
  rw [htyped.value_infer]
  exact htyped

theorem sound_reduce {site : Site} {seq neutral function : Expr} (hs : seq.Sound)
    (hn : neutral.Sound)
    (hb : ∀ inner params body, function = .lambda inner params body → body.Sound) :
    (Expr.reduce site seq neutral function).Sound := by
  intro env hΓ h
  simp only [infer_reduce, Inferred.findings_bind, Findings.complaints_append,
    List.append_eq_nil_iff] at h
  rcases h with ⟨hsc, hnc, helement, hacc, hfunction, hmatch, -⟩
  have hseq := hs env hΓ hsc
  have hneutral := hn env hΓ hnc
  rcases elementOf_of_complaints (hseq.isProper hΓ) helement with ⟨t, ht, hpure⟩
  rcases (hseq.isProper hΓ).of_element? ht with ⟨hp, hst⟩
  rw [hpure] at hacc hfunction hmatch
  rcases scalars_of_accumulator hacc with ⟨p, q, rfl, hnq⟩
  have hq : q.isNumeric = true := by
    have := hneutral.isProper hΓ
    rwa [hnq] at this
  rw [hst] at hseq
  rw [hnq] at hneutral
  have hr : (Ty.scalar (p.widest q)).IsProper := Scalar.isNumeric_widest p q
  simp only [Inferred.value_pure, hnq, accumulator_eq_pure _ _ hp hq] at hfunction hmatch
  rcases lambda_of_inferFunction hfunction with ⟨inner, params, body, rfl, hlen⟩
  rcases List.length_eq_two.1 hlen with ⟨acc, x, rfl⟩
  simp only [inferFunction_lambda, Inferred.findings_bind, Findings.complaints_append,
    List.append_eq_nil_iff] at hfunction
  have hne := ne_of_bindParams hfunction.2.1
  simp only [bindParams_two _ hne, Inferred.value_pure] at hfunction
  have hbody := hb inner [acc, x] body rfl ⟨⟨[⟨acc, _⟩, ⟨x, _⟩]⟩, true⟩
    (Scope.types_two hne _ _ ▸ (Context.isProper_empty.extend hr acc).extend hr x) hfunction.2.2.1
  rw [Scope.types_two hne] at hbody
  have hbodyProper := hbody.isProper ((Context.isProper_empty.extend hr acc).extend hr x)
  simp only [inferFunction_lambda, Inferred.value_bind, bindParams_two _ hne, Inferred.value_pure,
    Inferred.complaints_complainIf] at hmatch
  have hsame :
      (body.infer ⟨⟨[⟨acc, .scalar (p.widest q)⟩, ⟨x, .scalar (p.widest q)⟩]⟩, true⟩).value =
        .scalar (p.widest q) := by
    simpa [hr.isUnknown_eq_false, hbodyProper.isUnknown_eq_false] using hmatch
  rw [hsame] at hbody
  have htyped :
      HasType env.scope.types (.reduce site seq neutral (.lambda inner [acc, x] body)) _ :=
    .reduce hp hq hne hseq hneutral hbody
  rw [htyped.value_infer]
  exact htyped

/-- Inference is sound for every expression, and for the body of every function literal. -/
theorem sound_and_body (e : Expr) :
    e.Sound ∧ ∀ inner params body, e = .lambda inner params body → body.Sound := by
  induction e with
  | int site value =>
    refine ⟨fun env _ _ => .int, ?_⟩
    simp
  | float site bits =>
    refine ⟨fun env _ _ => .float, ?_⟩
    simp
  | ident site name =>
    refine ⟨sound_ident, ?_⟩
    simp
  | unary site op operand ih =>
    refine ⟨sound_unary ih.1, ?_⟩
    simp
  | binary site op left right ihl ihr =>
    refine ⟨sound_binary ihl.1 ihr.1, ?_⟩
    simp
  | range site first last ihf ihl =>
    refine ⟨sound_range ihf.1 ihl.1, ?_⟩
    simp
  | map site seq function ihs ihf =>
    refine ⟨sound_map ihs.1 ihf.2, ?_⟩
    simp
  | reduce site seq neutral function ihs ihn ihf =>
    refine ⟨sound_reduce ihs.1 ihn.1 ihf.2, ?_⟩
    simp
  | lambda site params body ih =>
    refine ⟨sound_lambda, ?_⟩
    rintro inner names other h
    cases h
    exact ih.1

/-- Without complaints the type found for an expression is derivable. -/
theorem hasType_of_infer (env : Env) {e : Expr} (hΓ : env.scope.types.IsProper)
    (h : (e.infer env).findings.complaints = []) :
    HasType env.scope.types e (e.infer env).value :=
  e.sound_and_body.1 env hΓ h

end Expr

/-! ## Statements -/

/-- The signatures of typed statements have the types of the rules, and there is no complaint. -/
theorem StmtsTyped.infer {Γ : Context} {stmts : List Stmt} {ts : List Ty}
    (h : StmtsTyped Γ stmts ts) :
    ∀ (index : Nat) (scope : Scope), scope.types = Γ →
      (inferStmts index scope stmts).value.map (fun s => s.output.ty) = ts ∧
        (inferStmts index scope stmts).findings.complaints = [] := by
  induction h with
  | nil => intro index scope _; simp [inferStmts]
  | print hvalue _ ih =>
    rintro index scope rfl
    rcases ih (index + 1) scope rfl with ⟨hrest, hc⟩
    rcases hvalue.infer ⟨scope, false⟩ rfl with ⟨hv, hvc⟩
    simp [inferStmts, Stmt.infer, hrest, hc, hv, hvc, Variable.printMarker]
  | @define Γ name value span rest t ts hvalue hnew _ ih =>
    rintro index scope rfl
    rcases hvalue.infer ⟨scope, false⟩ rfl with ⟨hv, hvc⟩
    have hdefine : scope.define ⟨name, t⟩ = .ok ⟨scope.vars ++ [⟨name, t⟩]⟩ :=
      Scope.define_eq_ok_iff.2 ⟨hnew, rfl⟩
    rcases ih (index + 1) _ (Scope.types_define hdefine) with ⟨hrest, hc⟩
    simp [inferStmts, Stmt.infer, hv, hvc, hdefine, hrest, hc]

/-- Statements that are not complained about are typed by the types found for their outputs. -/
theorem stmtsTyped_of_infer (stmts : List Stmt) :
    ∀ (index : Nat) (scope : Scope), scope.types.IsProper →
      (inferStmts index scope stmts).findings.complaints = [] →
      StmtsTyped scope.types stmts
        ((inferStmts index scope stmts).value.map fun s => s.output.ty) := by
  induction stmts with
  | nil => intro index scope _ _; exact .nil
  | cons s rest ih =>
    intro index scope hΓ h
    rcases s with ⟨target, value, span⟩
    simp only [inferStmts, Inferred.findings_bind, Findings.complaints_append,
      List.append_eq_nil_iff] at h
    cases target with
    | none =>
      simp only [Stmt.infer, Inferred.findings_bind, Findings.complaints_append,
        List.append_eq_nil_iff] at h
      have hvalue := Expr.hasType_of_infer ⟨scope, false⟩ hΓ h.1.1
      exact .print hvalue (ih (index + 1) scope hΓ h.2.1)
    | some name =>
      simp only [Stmt.infer, Inferred.findings_bind, Findings.complaints_append,
        List.append_eq_nil_iff, Inferred.value_bind] at h
      rcases h with ⟨⟨hvc, hdef⟩, hrest, -⟩
      have hvalue := Expr.hasType_of_infer ⟨scope, false⟩ hΓ hvc
      cases hd : scope.define ⟨name, (value.infer ⟨scope, false⟩).value⟩ with
      | error old => simp [hd] at hdef
      | ok wider =>
        simp only [hd, Inferred.value_pure] at hrest
        have htypes := Scope.types_define hd
        have hwider : wider.types.IsProper := htypes ▸ hΓ.extend (hvalue.isProper hΓ) name
        have htail := ih (index + 1) wider hwider hrest
        rw [htypes] at htail
        have htyped : StmtsTyped scope.types (⟨some name, value, span⟩ :: rest) _ :=
          .define hvalue (Scope.define_eq_ok_iff.1 hd).1 htail
        simpa [inferStmts, Stmt.infer, hd] using htyped

namespace SoundProgram

/--
Inference reports nothing about a program exactly when the typing rules derive a type for each of
its statements in program order, and these are the types that its outputs get.
-/
theorem complaints_infer_eq_nil_iff (p : SoundProgram) :
    (p.infer.complaints = [] ↔ ∃ ts, StmtsTyped .empty p.stmts ts) ∧
      ∀ ts, StmtsTyped .empty p.stmts ts → p.infer.signatures.map (fun s => s.output.ty) = ts := by
  refine ⟨⟨fun h => ?_, ?_⟩, ?_⟩
  · exact ⟨_, stmtsTyped_of_infer p.stmts 0 .empty Context.isProper_empty h⟩
  · rintro ⟨ts, hts⟩
    exact (hts.infer 0 .empty rfl).2
  · intro ts hts
    exact (hts.infer 0 .empty rfl).1

end SoundProgram
end SeqCalc
