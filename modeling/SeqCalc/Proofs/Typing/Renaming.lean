import Mathlib.Data.List.Find
import Mathlib.Data.Set.Function
import SeqCalc.Proofs.Program.Renaming
import SeqCalc.Proofs.Typing.Visits

/-!
# Types do not depend on names

A context follows a renaming of another one if it has the same types under the new names.  The
context of a function literal is that of its parameters alone.  It follows every choice of distinct
parameters, whatever names there are around the function literal, so an expression keeps its type
under other names, and so do all the nodes below it.

Main results:

- `Expr.HasType.renamed`: a renamed expression has the type that it had.
- `Expr.HasType.visits_renamed`: inference visits the same nodes and gives them the same types.
- `Scope.reads_renamed`: a renamed expression reads the renamed variables.
-/

namespace SeqCalc

/-! ## Contexts -/

namespace Context

/-- The names of one context have their types in the other one under their new names. -/
def RenamesTo (σ : String → String) (Γ Δ : Context) : Prop :=
  ∀ name t, Γ name = some t → Δ (σ name) = some t

theorem renamesTo_empty (σ : String → String) (Δ : Context) : empty.RenamesTo σ Δ := by
  intro name t h
  contradiction

/-- One more name on both sides, unless it covers a name of the second context that is needed. -/
theorem RenamesTo.extend {σ : String → String} {Γ Δ : Context} (h : Γ.RenamesTo σ Δ)
    {x : String} (hx : ∀ name t, Γ name = some t → name ≠ x → σ name ≠ σ x) (t : Ty) :
    (Γ.extend x t).RenamesTo σ (Δ.extend (σ x) t) := by
  intro name u hu
  by_cases hname : name = x
  · subst hname
    rw [extend_self] at hu
    rw [extend_self, hu]
  · rw [extend_of_ne hname] at hu
    rw [extend_of_ne (hx name u hu hname)]
    exact h name u hu

theorem renamesTo_one (x y : String) (t : Ty) :
    (empty.extend x t).RenamesTo (replacing [x] [y]) (empty.extend y t) := by
  have h := (renamesTo_empty (replacing [x] [y]) empty).extend (x := x) (by simp [empty]) t
  rwa [replacing_one] at h

theorem renamesTo_two {x y x' y' : String} (hne : x ≠ y) (hne' : x' ≠ y') (t u : Ty) :
    ((empty.extend x t).extend y u).RenamesTo (replacing [x, y] [x', y'])
      ((empty.extend x' t).extend y' u) := by
  have hx := replacing_first x y x' y'
  have hy := replacing_second hne x' y'
  have hfirst := (renamesTo_empty (replacing [x, y] [x', y']) empty).extend (x := x)
    (by simp [empty]) t
  have hboth := hfirst.extend (x := y) (by
    intro name s hs _
    have hname : name = x := by
      by_contra hother
      rw [extend_of_ne hother] at hs
      contradiction
    rw [hname, hx, hy]
    exact hne') u
  rwa [hx, hy] at hboth

end Context

/-! ## Expressions -/

namespace Expr

variable {params : NodeId → List String} {σ : String → String} {Γ Δ : Context}

/-- Outside function literals the names of a tree are mapped. -/
theorem names_renamed (params : NodeId → List String) (σ : String → String) (e : Expr) :
    (e.renamed params σ).names = e.names.map σ := by
  induction e with
  | int | float | ident | lambda => rfl
  | unary site op operand ih => exact ih
  | map site seq function ih _ => exact ih
  | binary site op left right ihl ihr => rw [renamed, names, ihl, ihr, names, List.map_append]
  | range site first last ihf ihl => rw [renamed, names, ihf, ihl, names, List.map_append]
  | reduce site seq neutral function ihs ihn _ =>
    rw [renamed, names, ihs, ihn, names, List.map_append]

/-- The parameters that a function literal of `map` gets. -/
theorem exists_param {inner : Site} {x : String} {body : Expr}
    (h : (Expr.lambda inner [x] body).Admits params) :
    ∃ y, params inner.id = [y] ∧ body.Admits params := by
  rw [admits_lambda] at h
  rcases List.length_eq_one_iff.1 h.1.1 with ⟨y, hy⟩
  exact ⟨y, hy, h.2⟩

/-- The parameters that a function literal of `reduce` gets. -/
theorem exists_params {inner : Site} {acc x : String} {body : Expr}
    (h : (Expr.lambda inner [acc, x] body).Admits params) :
    ∃ acc' x', params inner.id = [acc', x'] ∧ acc' ≠ x' ∧ body.Admits params := by
  rw [admits_lambda] at h
  rcases List.length_eq_two.1 h.1.1 with ⟨acc', x', hparams⟩
  have hnodup := h.1.2
  rw [hparams, List.nodup_cons, List.mem_singleton] at hnodup
  exact ⟨acc', x', hparams, hnodup.1, h.2⟩

/-- A renamed expression has the type that it had, in a context that follows the renaming. -/
theorem HasType.renamed {e : Expr} {t : Ty} (h : HasType Γ e t) :
    e.Admits params → ∀ {σ : String → String} {Δ : Context}, Γ.RenamesTo σ Δ →
      HasType Δ (e.renamed params σ) t := by
  induction h with
  | int => exact fun _ _ _ _ => .int
  | float => exact fun _ _ _ _ => .float
  | ident hname => exact fun _ _ _ hΔ => .ident (hΔ _ _ hname)
  | unary hp _ ih =>
    intro hadmits σ Δ hΔ
    exact .unary hp (ih hadmits hΔ)
  | binary hp hq _ _ ihl ihr =>
    intro hadmits σ Δ hΔ
    rw [admits_binary] at hadmits
    exact .binary hp hq (ihl hadmits.1 hΔ) (ihr hadmits.2 hΔ)
  | range _ _ ihf ihl =>
    intro hadmits σ Δ hΔ
    rw [admits_range] at hadmits
    exact .range (ihf hadmits.1 hΔ) (ihl hadmits.2 hΔ)
  | @map Γ site inner seq body x t u ht _ _ ihs ihb =>
    intro hadmits σ Δ hΔ
    rw [admits_map] at hadmits
    rcases exists_param hadmits.2 with ⟨y, hy, hbody⟩
    rw [Expr.renamed, Expr.renamed, hy]
    exact .map ht (ihs hadmits.1 hΔ) (ihb hbody (Context.renamesTo_one x y t))
  | @reduce Γ site inner seq neutral body acc x p q hp hq hne _ _ _ ihs ihn ihb =>
    intro hadmits σ Δ hΔ
    rw [admits_reduce] at hadmits
    rcases exists_params hadmits.2 with ⟨acc', x', hparams, hne', hbody⟩
    rw [Expr.renamed, Expr.renamed, hparams]
    exact .reduce hp hq hne' (ihs hadmits.1.1 hΔ) (ihn hadmits.1.2 hΔ)
      (ihb hbody (Context.renamesTo_two hne hne' _ _))

/-- Inference visits the nodes that it visited before, and it gives them the same types. -/
theorem HasType.visits_renamed {e : Expr} {t : Ty} (h : HasType Γ e t) :
    e.Admits params → ∀ (env env' : Env) {σ : String → String}, env.scope.types = Γ →
      Γ.RenamesTo σ env'.scope.types →
      ((e.renamed params σ).infer env').findings.visits = (e.infer env).findings.visits := by
  induction h with
  | int | float =>
    intro _ env env' σ _ _
    simp [Expr.renamed, Expr.infer]
  | @ident Γ site name t hname =>
    rintro hadmits env env' σ rfl hΔ
    have hold : HasType env.scope.types (.ident site name) t := .ident hname
    have hnew := (hold.renamed hadmits hΔ).value_infer
    rw [Expr.renamed] at hnew ⊢
    rw [visits_ident, visits_ident, hnew, hold.value_infer]
  | @unary Γ site op operand p hp hoperand ih =>
    rintro hadmits env env' σ rfl hΔ
    have hold : HasType env.scope.types (.unary site op operand) _ := .unary hp hoperand
    have hnew := (hold.renamed hadmits hΔ).value_infer
    rw [Expr.renamed] at hnew ⊢
    rw [visits_unary, visits_unary, hnew, hold.value_infer, ih hadmits env env' rfl hΔ]
  | @binary Γ site op left right p q hp hq hleft hright ihl ihr =>
    rintro hadmits env env' σ rfl hΔ
    have hold : HasType env.scope.types (.binary site op left right) _ := .binary hp hq hleft hright
    have hnew := (hold.renamed hadmits hΔ).value_infer
    rw [admits_binary] at hadmits
    rw [Expr.renamed] at hnew ⊢
    rw [visits_binary, visits_binary, hnew, hold.value_infer, ihl hadmits.1 env env' rfl hΔ,
      ihr hadmits.2 env env' rfl hΔ]
  | @range Γ site first last hfirst hlast ihf ihl =>
    rintro hadmits env env' σ rfl hΔ
    have hold : HasType env.scope.types (.range site first last) _ := .range hfirst hlast
    have hnew := (hold.renamed hadmits hΔ).value_infer
    rw [admits_range] at hadmits
    rw [Expr.renamed] at hnew ⊢
    rw [visits_range, visits_range, hnew, hold.value_infer, ihf hadmits.1 env env' rfl hΔ,
      ihl hadmits.2 env env' rfl hΔ]
  | @map Γ site inner seq body x t u ht hseq hbody ihs ihb =>
    rintro hadmits env env' σ rfl hΔ
    rw [admits_map] at hadmits
    rcases exists_param hadmits.2 with ⟨y, hy, hadmitsb⟩
    have hΔb := Context.renamesTo_one x y t
    have hvisitsb := ihb hadmitsb ⟨⟨[⟨x, t⟩]⟩, true⟩ ⟨⟨[⟨y, t⟩]⟩, true⟩
      (Scope.types_one x t) (Scope.types_one y t ▸ hΔb)
    rw [Expr.renamed, Expr.renamed, hy, hseq.visits_map ht hbody,
      (hseq.renamed hadmits.1 hΔ).visits_map ht (hbody.renamed hadmitsb hΔb),
      ihs hadmits.1 env env' rfl hΔ, hvisitsb]
  | @reduce Γ site inner seq neutral body acc x p q hp hq hne hseq hneutral hbody ihs ihn ihb =>
    rintro hadmits env env' σ rfl hΔ
    rw [admits_reduce] at hadmits
    rcases exists_params hadmits.2 with ⟨acc', x', hparams, hne', hadmitsb⟩
    have hΔb := Context.renamesTo_two hne hne' (.scalar (p.widest q)) (.scalar (p.widest q))
    have hvisitsb := ihb hadmitsb ⟨⟨[⟨acc, _⟩, ⟨x, _⟩]⟩, true⟩ ⟨⟨[⟨acc', _⟩, ⟨x', _⟩]⟩, true⟩
      (Scope.types_two hne _ _) (Scope.types_two hne' _ _ ▸ hΔb)
    rw [Expr.renamed, Expr.renamed, hparams, hseq.visits_reduce hp hq hne rfl hneutral hbody,
      (hseq.renamed hadmits.1.1 hΔ).visits_reduce hp hq hne' rfl (hneutral.renamed hadmits.1.2 hΔ)
        (hbody.renamed hadmitsb hΔb),
      ihs hadmits.1.1 env env' rfl hΔ, ihn hadmits.1.2 env env' rfl hΔ, hvisitsb]

/-- The names of a typed expression are in its context. -/
theorem HasType.isSome_of_mem_names {e : Expr} {t : Ty} (h : HasType Γ e t) :
    ∀ name ∈ e.names, (Γ name).isSome := by
  induction h with
  | int | float => simp [names]
  | ident hname => simp [names, hname]
  | unary _ _ ih => exact ih
  | map _ _ _ ihs _ => exact ihs
  | binary _ _ _ _ ihl ihr => exact List.forall_mem_append.2 ⟨ihl, ihr⟩
  | range _ _ ihf ihl => exact List.forall_mem_append.2 ⟨ihf, ihl⟩
  | reduce _ _ _ _ _ _ ihs ihn _ => exact List.forall_mem_append.2 ⟨ihs, ihn⟩

end Expr

/-! ## Scopes -/

namespace Variable

/-- The variable under its new name. -/
def renamed (σ : String → String) (v : Variable) : Variable :=
  { v with name := σ v.name }

@[simp]
theorem renamed_id : renamed id = id :=
  rfl

/-- Variables are told apart under their new names if their names are. -/
theorem injOn_renamed {σ : String → String} {N : Set String} (hσ : Set.InjOn σ N) :
    Set.InjOn (renamed σ) {v | v.name ∈ N} := by
  intro v hv w hw h
  have hty : v.ty = w.ty := congrArg (fun u => u.ty) h
  have hname : v.name = w.name := hσ hv hw (congrArg (fun u => u.name) h)
  cases v
  cases w
  exact congrArg₂ Variable.mk hname hty

end Variable

namespace Scope

/-- The scope with its variables under their new names. -/
def renamed (σ : String → String) (scope : Scope) : Scope :=
  ⟨scope.vars.map (Variable.renamed σ)⟩

variable {σ : String → String} {N : Set String} {scope next : Scope}

theorem mem_of_types {name : String} (hscope : ∀ v ∈ scope.vars, v.name ∈ N)
    (h : (scope.types name).isSome) : name ∈ N := by
  rcases Option.isSome_iff_exists.1 h with ⟨t, ht⟩
  rcases Option.map_eq_some_iff.1 ht with ⟨v, hv, -⟩
  have hname : v.name = name := by simpa using List.find?_some hv
  exact hname ▸ hscope v (List.mem_of_find?_eq_some hv)

/-- A name is found under its new name, if no other name in scope has become the same. -/
theorem lookup?_renamed (hσ : Set.InjOn σ N) (hscope : ∀ v ∈ scope.vars, v.name ∈ N)
    {name : String} (hname : name ∈ N) :
    (scope.renamed σ).lookup? (σ name) = (scope.lookup? name).map (Variable.renamed σ) := by
  rw [lookup?, lookup?, renamed, List.find?_map]
  congr 1
  apply List.find?_congr
  intro v hv
  have hsame : σ v.name = σ name ↔ v.name = name := hσ.eq_iff (hscope v hv) hname
  rw [Bool.eq_iff_iff, Function.comp_apply, beq_iff_eq, beq_iff_eq]
  exact hsame

theorem renamesTo_renamed (hσ : Set.InjOn σ N) (hscope : ∀ v ∈ scope.vars, v.name ∈ N) :
    scope.types.RenamesTo σ (scope.renamed σ).types := by
  intro name t ht
  have hname : name ∈ N := mem_of_types hscope (by simp [ht])
  rw [types, lookup?_renamed hσ hscope hname, Option.map_map]
  exact ht

theorem define_renamed (hσ : Set.InjOn σ N) (hscope : ∀ v ∈ scope.vars, v.name ∈ N)
    {v : Variable} (hv : v.name ∈ N) (h : scope.define v = .ok next) :
    (scope.renamed σ).define (v.renamed σ) = .ok (next.renamed σ) := by
  rcases define_eq_ok_iff.1 h with ⟨hnone, rfl⟩
  have hfree : scope.lookup? v.name = none := by simpa [types] using hnone
  refine define_eq_ok_iff.2 ⟨?_, ?_⟩
  · rw [types, Variable.renamed, lookup?_renamed hσ hscope hv, hfree]
    rfl
  · rw [renamed, renamed, List.map_append]
    rfl

/-- A renamed expression reads the renamed variables. -/
theorem reads_renamed (hσ : Set.InjOn σ N) (hscope : ∀ v ∈ scope.vars, v.name ∈ N) {e : Expr}
    {t : Ty} (h : e.HasType scope.types t) (params : NodeId → List String) :
    (e.renamed params σ).names.filterMap (scope.renamed σ).lookup? =
      (e.names.filterMap scope.lookup?).map (Variable.renamed σ) := by
  rw [Expr.names_renamed, List.filterMap_map, List.map_filterMap]
  apply List.filterMap_congr
  intro name hname
  exact lookup?_renamed hσ hscope (mem_of_types hscope (h.isSome_of_mem_names name hname))

end Scope
end SeqCalc
