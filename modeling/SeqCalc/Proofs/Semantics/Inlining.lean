import SeqCalc.Proofs.Semantics.Correctness
import SeqCalc.Proofs.Typing.Layout

/-!
# Expressions in place of variables

A variable may be replaced by a copy of the expression that defines it.  Here this is done to one
tree: the identifier at one node becomes the copy, unless it is inside a function literal, where it
would be a parameter, and everything else moves to other nodes of a new table.  A copy that has the
type and the value of the variable leaves the type and the value of the tree as they are.  Both are
settled in an early scope and an early environment, but an expression that is typed in a scope means
the same in a wider one.

Main results:

- `Expr.HasType.inlined`, `Expr.HasType.carries_visits`: types, at the root and at every node.
- `Expr.HasType.evaluate_widen`: the value of an expression in a wider scope.
- `Expr.HasType.evaluate_inlined`: the value of a tree with a copy in it.
-/

namespace SeqCalc

/-! ## Trees -/

/-- A variable that is replaced at one of its occurrences. -/
structure Inlining where
  /-- Where the nodes of the old table are in the new one. -/
  move : NodeId → NodeId
  /-- The node of the identifier that is replaced. -/
  occurrence : NodeId
  /-- The name of the identifier. -/
  name : String
  /-- The tree that takes its place. -/
  copy : Expr

namespace Inlining

/-- Every visit but those of the occurrence is among the new ones, at the node that has moved. -/
def Carries (k : Inlining) (old new : List (NodeId × Ty)) : Prop :=
  ∀ v ∈ old, v.1 ≠ k.occurrence → (k.move v.1, v.2) ∈ new

theorem Carries.append {k : Inlining} {old new old' new' : List (NodeId × Ty)}
    (h : k.Carries old new) (h' : k.Carries old' new') : k.Carries (old ++ old') (new ++ new') := by
  intro v hv hne
  rcases List.mem_append.1 hv with hv | hv
  · exact List.mem_append_left _ (h v hv hne)
  · exact List.mem_append_right _ (h' v hv hne)

theorem carries_map (k : Inlining) (visits : List (NodeId × Ty)) :
    k.Carries visits (visits.map fun v => (k.move v.1, v.2)) :=
  fun v hv _ => List.mem_map.2 ⟨v, hv, rfl⟩

theorem carries_singleton (k : Inlining) (id : NodeId) (t : Ty) :
    k.Carries [(id, t)] [(k.move id, t)] :=
  k.carries_map [(id, t)]

end Inlining

/-- The place of a tree node that has been moved. -/
def Site.moved (move : NodeId → NodeId) (site : Site) : Site :=
  { site with id := move site.id }

@[simp]
theorem Site.id_moved (move : NodeId → NodeId) (site : Site) :
    (site.moved move).id = move site.id :=
  rfl

namespace Expr

/-- The tree with its nodes elsewhere. -/
def relocated (move : NodeId → NodeId) : Expr → Expr
  | .int site value => .int (site.moved move) value
  | .float site bits => .float (site.moved move) bits
  | .ident site name => .ident (site.moved move) name
  | .unary site op operand => .unary (site.moved move) op (operand.relocated move)
  | .binary site op left right =>
    .binary (site.moved move) op (left.relocated move) (right.relocated move)
  | .range site first last => .range (site.moved move) (first.relocated move) (last.relocated move)
  | .map site seq function => .map (site.moved move) (seq.relocated move) (function.relocated move)
  | .reduce site seq neutral function =>
    .reduce (site.moved move) (seq.relocated move) (neutral.relocated move)
      (function.relocated move)
  | .lambda site params body => .lambda (site.moved move) params (body.relocated move)

/--
The tree with the copy in place of the occurrence, and with its other nodes elsewhere.  In function
literals nothing is replaced.
-/
def inlined (k : Inlining) : Expr → Expr
  | .int site value => .int (site.moved k.move) value
  | .float site bits => .float (site.moved k.move) bits
  | .ident site name => if site.id = k.occurrence then k.copy else .ident (site.moved k.move) name
  | .unary site op operand => .unary (site.moved k.move) op (operand.inlined k)
  | .binary site op left right =>
    .binary (site.moved k.move) op (left.inlined k) (right.inlined k)
  | .range site first last => .range (site.moved k.move) (first.inlined k) (last.inlined k)
  | .map site seq function => .map (site.moved k.move) (seq.inlined k) (function.relocated k.move)
  | .reduce site seq neutral function =>
    .reduce (site.moved k.move) (seq.inlined k) (neutral.inlined k) (function.relocated k.move)
  | .lambda site params body => .lambda (site.moved k.move) params (body.relocated k.move)

/-- The identifiers outside function literals, each with its node and its name. -/
def uses : Expr → List (NodeId × String)
  | .int _ _ | .float _ _ | .lambda _ _ _ => []
  | .ident site name => [(site.id, name)]
  | .unary _ _ operand => operand.uses
  | .binary _ _ left right => left.uses ++ right.uses
  | .range _ first last => first.uses ++ last.uses
  | .map _ seq _ => seq.uses
  | .reduce _ seq neutral _ => seq.uses ++ neutral.uses

/-- Wherever the node occurs outside function literals, it has the name of the variable. -/
def Fits (k : Inlining) (e : Expr) : Prop :=
  ∀ u ∈ e.uses, u.1 = k.occurrence → u.2 = k.name

theorem anonymous_relocated (move : NodeId → NodeId) (e : Expr) :
    (e.relocated move).anonymous = e.anonymous := by
  induction e with
  | int | float | ident => rfl
  | unary site op operand ih | lambda site params operand ih =>
    simp only [relocated, anonymous, ih]
    rfl
  | binary site op left right ihl ihr | range site left right ihl ihr
  | map site left right ihl ihr =>
    simp only [relocated, anonymous, ihl, ihr]
    rfl
  | reduce site seq neutral function ihs ihn ihf =>
    simp only [relocated, anonymous, ihs, ihn, ihf]
    rfl

/-! ## Types -/

variable {Γ : Context} {e : Expr} {t : Ty} {k : Inlining}

/-- An expression has its type in every wider context. -/
theorem HasType.widen (h : HasType Γ e t) :
    ∀ {Δ : Context}, (∀ name u, Γ name = some u → Δ name = some u) → HasType Δ e t := by
  induction h with
  | int => exact fun _ => .int
  | float => exact fun _ => .float
  | ident hname => exact fun hwider => .ident (hwider _ _ hname)
  | unary hp _ ih => exact fun hwider => .unary hp (ih hwider)
  | binary hp hq _ _ ihl ihr => exact fun hwider => .binary hp hq (ihl hwider) (ihr hwider)
  | range _ _ ihf ihl => exact fun hwider => .range (ihf hwider) (ihl hwider)
  | map ht _ hbody ihs _ => exact fun hwider => .map ht (ihs hwider) hbody
  | reduce hp hq hne _ _ hbody ihs ihn _ =>
    exact fun hwider => .reduce hp hq hne (ihs hwider) (ihn hwider) hbody

theorem HasType.relocated (h : HasType Γ e t) (move : NodeId → NodeId) :
    HasType Γ (e.relocated move) t := by
  induction h with
  | int => exact .int
  | float => exact .float
  | ident hname => exact .ident hname
  | unary hp _ ih => exact .unary hp ih
  | binary hp hq _ _ ihl ihr => exact .binary hp hq ihl ihr
  | range _ _ ihf ihl => exact .range ihf ihl
  | map ht _ _ ihs ihb => exact .map ht ihs ihb
  | reduce hp hq hne _ _ _ ihs ihn ihb => exact .reduce hp hq hne ihs ihn ihb

/-- Trees that are the same without positions have the same types. -/
theorem HasType.of_anonymous_eq {scope : Scope} {other : Expr} (hproper : scope.types.IsProper)
    (h : HasType scope.types e t) (hsame : e.anonymous = other.anonymous) :
    HasType scope.types other t := by
  have hinfer := e.unvisited_infer_anonymous.1 ⟨scope, true⟩
  rw [hsame, other.unvisited_infer_anonymous.1] at hinfer
  have hvalue := (congrArg (fun r => r.value) hinfer).trans h.value_infer
  have hc := (congrArg (fun r => r.findings.complaints) hinfer).trans h.complaints_infer
  have hother := hasType_of_infer ⟨scope, true⟩ hproper hc
  rw [← hvalue]
  exact hother

/-- A tree keeps its type if the copy in it has the type of the variable. -/
theorem HasType.inlined (h : HasType Γ e t) :
    e.Fits k → (∀ u, Γ k.name = some u → HasType Γ k.copy u) → HasType Γ (e.inlined k) t := by
  induction h with
  | int => exact fun _ _ => .int
  | float => exact fun _ _ => .float
  | @ident Γ site name t hname =>
    intro hfits hcopy
    rw [Expr.inlined]
    by_cases hid : site.id = k.occurrence
    · rw [if_pos hid]
      have hx : name = k.name := hfits (site.id, name) (List.mem_singleton.2 rfl) hid
      exact hcopy t (hx ▸ hname)
    · rw [if_neg hid]
      exact .ident hname
  | unary hp _ ih => exact fun hfits hcopy => .unary hp (ih hfits hcopy)
  | binary hp hq _ _ ihl ihr =>
    intro hfits hcopy
    have hfits := List.forall_mem_append.1 hfits
    exact .binary hp hq (ihl hfits.1 hcopy) (ihr hfits.2 hcopy)
  | range _ _ ihf ihl =>
    intro hfits hcopy
    have hfits := List.forall_mem_append.1 hfits
    exact .range (ihf hfits.1 hcopy) (ihl hfits.2 hcopy)
  | map ht _ hbody ihs _ =>
    intro hfits hcopy
    exact .map ht (ihs hfits hcopy) (hbody.relocated k.move)
  | reduce hp hq hne _ _ hbody ihs ihn _ =>
    intro hfits hcopy
    have hfits := List.forall_mem_append.1 hfits
    exact .reduce hp hq hne (ihs hfits.1 hcopy) (ihn hfits.2 hcopy) (hbody.relocated k.move)

/-! ## Visits -/

/-- Inference of a typed expression visits all its nodes. -/
theorem HasType.map_fst_visits (h : HasType Γ e t) :
    ∀ env : Env, env.scope.types = Γ → (e.infer env).findings.visits.map Prod.fst = e.ids := by
  induction h with
  | int | float => exact fun env _ => by simp [Expr.infer, ids]
  | ident => exact fun env _ => by simp [visits_ident, ids]
  | unary _ _ ih => exact fun env henv => by simp [visits_unary, ids, ih env henv]
  | binary _ _ _ _ ihl ihr =>
    exact fun env henv => by simp [visits_binary, ids, ihl env henv, ihr env henv]
  | range _ _ ihf ihl =>
    exact fun env henv => by simp [visits_range, ids, ihf env henv, ihl env henv]
  | @map Γ site inner seq body x t u ht hseq hbody ihs ihb =>
    rintro env rfl
    have hb := ihb ⟨⟨[⟨x, t⟩]⟩, true⟩ (Scope.types_one x t)
    simp [hseq.visits_map ht hbody, ids, ihs env rfl, hb]
  | @reduce Γ site inner seq neutral body acc x p q hp hq hne hseq hneutral hbody ihs ihn ihb =>
    rintro env rfl
    have hb := ihb ⟨⟨[⟨acc, _⟩, ⟨x, _⟩]⟩, true⟩ (Scope.types_two hne _ _)
    simp [hseq.visits_reduce hp hq hne rfl hneutral hbody, ids, ihs env rfl, ihn env rfl, hb]

/-- A tree that is moved is visited where it is then. -/
theorem HasType.visits_relocated (h : HasType Γ e t) (move : NodeId → NodeId) :
    ∀ env : Env, env.scope.types = Γ → ((e.relocated move).infer env).findings.visits =
      (e.infer env).findings.visits.map fun v => (move v.1, v.2) := by
  induction h with
  | int | float => exact fun env _ => by simp [Expr.relocated, Expr.infer]
  | @ident Γ site name t hname =>
    rintro env rfl
    have hold : HasType env.scope.types (.ident site name) t := .ident hname
    have hnew := (hold.relocated move).value_infer
    rw [Expr.relocated] at hnew ⊢
    simp [visits_ident, hnew, hold.value_infer]
  | @unary Γ site op operand p hp hoperand ih =>
    rintro env rfl
    have hold : HasType env.scope.types (.unary site op operand) _ := .unary hp hoperand
    have hnew := (hold.relocated move).value_infer
    rw [Expr.relocated] at hnew ⊢
    simp [visits_unary, hnew, hold.value_infer, ih env rfl]
  | @binary Γ site op left right p q hp hq hleft hright ihl ihr =>
    rintro env rfl
    have hold : HasType env.scope.types (.binary site op left right) _ := .binary hp hq hleft hright
    have hnew := (hold.relocated move).value_infer
    rw [Expr.relocated] at hnew ⊢
    simp [visits_binary, hnew, hold.value_infer, ihl env rfl, ihr env rfl]
  | @range Γ site first last hfirst hlast ihf ihl =>
    rintro env rfl
    have hold : HasType env.scope.types (.range site first last) _ := .range hfirst hlast
    have hnew := (hold.relocated move).value_infer
    rw [Expr.relocated] at hnew ⊢
    simp [visits_range, hnew, hold.value_infer, ihf env rfl, ihl env rfl]
  | @map Γ site inner seq body x t u ht hseq hbody ihs ihb =>
    rintro env rfl
    have hb := ihb ⟨⟨[⟨x, t⟩]⟩, true⟩ (Scope.types_one x t)
    rw [Expr.relocated, Expr.relocated]
    simp [hseq.visits_map ht hbody, (hseq.relocated move).visits_map ht (hbody.relocated move),
      ihs env rfl, hb]
  | @reduce Γ site inner seq neutral body acc x p q hp hq hne hseq hneutral hbody ihs ihn ihb =>
    rintro env rfl
    have hb := ihb ⟨⟨[⟨acc, _⟩, ⟨x, _⟩]⟩, true⟩ (Scope.types_two hne _ _)
    rw [Expr.relocated, Expr.relocated]
    simp [hseq.visits_reduce hp hq hne rfl hneutral hbody,
      (hseq.relocated move).visits_reduce hp hq hne rfl (hneutral.relocated move)
        (hbody.relocated move), ihs env rfl, ihn env rfl, hb]

/-- Every node but the one that is replaced has the type that it had. -/
theorem HasType.carries_visits (h : HasType Γ e t) :
    e.Fits k → (∀ u, Γ k.name = some u → HasType Γ k.copy u) →
      ∀ env : Env, env.scope.types = Γ →
        k.Carries (e.infer env).findings.visits ((e.inlined k).infer env).findings.visits := by
  induction h with
  | int | float =>
    intro _ _ env _
    simpa [Expr.inlined, Expr.infer, Site.moved] using k.carries_singleton _ _
  | @ident Γ site name t hname =>
    rintro hfits hcopy env rfl
    have hold : HasType env.scope.types (.ident site name) t := .ident hname
    have hnew := (hold.inlined hfits hcopy).value_infer
    rw [Expr.inlined] at hnew ⊢
    rw [visits_ident, hold.value_infer]
    by_cases hid : site.id = k.occurrence
    · intro v hv hne
      rcases List.mem_singleton.1 hv with rfl
      exact absurd hid hne
    · rw [if_neg hid] at hnew ⊢
      rw [visits_ident, hnew]
      exact k.carries_singleton _ _
  | @unary Γ site op operand p hp hoperand ih =>
    rintro hfits hcopy env rfl
    have hold : HasType env.scope.types (.unary site op operand) _ := .unary hp hoperand
    have hnew := (hold.inlined hfits hcopy).value_infer
    rw [Expr.inlined] at hnew ⊢
    rw [visits_unary, visits_unary, hnew, hold.value_infer]
    exact (ih hfits hcopy env rfl).append (k.carries_singleton _ _)
  | @binary Γ site op left right p q hp hq hleft hright ihl ihr =>
    rintro hfits hcopy env rfl
    have hold : HasType env.scope.types (.binary site op left right) _ := .binary hp hq hleft hright
    have hnew := (hold.inlined hfits hcopy).value_infer
    have hfits := List.forall_mem_append.1 hfits
    rw [Expr.inlined] at hnew ⊢
    rw [visits_binary, visits_binary, hnew, hold.value_infer]
    exact ((ihl hfits.1 hcopy env rfl).append (ihr hfits.2 hcopy env rfl)).append
      (k.carries_singleton _ _)
  | @range Γ site first last hfirst hlast ihf ihl =>
    rintro hfits hcopy env rfl
    have hold : HasType env.scope.types (.range site first last) _ := .range hfirst hlast
    have hnew := (hold.inlined hfits hcopy).value_infer
    have hfits := List.forall_mem_append.1 hfits
    rw [Expr.inlined] at hnew ⊢
    rw [visits_range, visits_range, hnew, hold.value_infer]
    exact ((ihf hfits.1 hcopy env rfl).append (ihl hfits.2 hcopy env rfl)).append
      (k.carries_singleton _ _)
  | @map Γ site inner seq body x t u ht hseq hbody ihs ihb =>
    rintro hfits hcopy env rfl
    rw [Expr.inlined, Expr.relocated, hseq.visits_map ht hbody,
      (hseq.inlined hfits hcopy).visits_map ht (hbody.relocated k.move),
      hbody.visits_relocated k.move _ (Scope.types_one x t)]
    exact ((ihs hfits hcopy env rfl).append
      ((k.carries_map _).append (k.carries_singleton _ _))).append (k.carries_singleton _ _)
  | @reduce Γ site inner seq neutral body acc x p q hp hq hne hseq hneutral hbody ihs ihn ihb =>
    rintro hfits hcopy env rfl
    have hparts := List.forall_mem_append.1 hfits
    rw [Expr.inlined, Expr.relocated, hseq.visits_reduce hp hq hne rfl hneutral hbody,
      (hseq.inlined hparts.1 hcopy).visits_reduce hp hq hne rfl (hneutral.inlined hparts.2 hcopy)
        (hbody.relocated k.move),
      hbody.visits_relocated k.move _ (Scope.types_two hne _ _)]
    exact (((ihs hparts.1 hcopy env rfl).append (ihn hparts.2 hcopy env rfl)).append
      ((k.carries_map _).append (k.carries_singleton _ _))).append (k.carries_singleton _ _)

/-! ## Values -/

theorem typeIn_anonymous (scope : Scope) (e : Expr) : e.anonymous.typeIn scope = e.typeIn scope :=
  congrArg (fun r => r.value) (e.unvisited_infer_anonymous.1 ⟨scope, true⟩)

/-- The value of a tree does not depend on where its nodes stand. -/
theorem evaluate_anonymous (e : Expr) :
    (∀ scope ρ, e.anonymous.evaluate scope ρ = e.evaluate scope ρ) ∧
      (∀ given values, e.anonymous.applied given values = e.applied given values) ∧
        ∀ given, e.anonymous.resultType given = e.resultType given := by
  induction e with
  | int | float | ident => exact ⟨fun _ _ => rfl, fun _ _ => rfl, fun _ => rfl⟩
  | unary site op operand ih =>
    refine ⟨fun scope ρ => ?_, fun _ _ => rfl, fun _ => rfl⟩
    rw [anonymous, evaluate, evaluate, ih.1, typeIn_anonymous]
  | binary site op left right ihl ihr =>
    refine ⟨fun scope ρ => ?_, fun _ _ => rfl, fun _ => rfl⟩
    rw [anonymous, evaluate, evaluate, ihl.1, ihr.1, typeIn_anonymous, typeIn_anonymous]
  | range site first last ihf ihl =>
    refine ⟨fun scope ρ => ?_, fun _ _ => rfl, fun _ => rfl⟩
    rw [anonymous, evaluate, evaluate, ihf.1, ihl.1]
  | map site seq function ihs ihf =>
    refine ⟨fun scope ρ => ?_, fun _ _ => rfl, fun _ => rfl⟩
    simp only [anonymous, evaluate, ihs.1, ihf.2.1, ihf.2.2, elementTypeIn, typeIn_anonymous]
  | reduce site seq neutral function ihs ihn ihf =>
    refine ⟨fun scope ρ => ?_, fun _ _ => rfl, fun _ => rfl⟩
    simp only [anonymous, evaluate, ihs.1, ihn.1, ihf.2.1, elementTypeIn, typeIn_anonymous]
  | lambda site params body ih =>
    refine ⟨fun scope ρ => rfl, fun given values => ?_, fun given => ?_⟩
    · rw [anonymous, applied, applied, ih.1]
      rfl
    · rw [anonymous, resultType, resultType, typeIn_anonymous]
      rfl

theorem evaluate_congr {other : Expr} (h : e.anonymous = other.anonymous) (scope : Scope)
    (ρ : Bindings) : e.evaluate scope ρ = other.evaluate scope ρ := by
  rw [← e.evaluate_anonymous.1, h, other.evaluate_anonymous.1]

/-- A function literal is the same function wherever its nodes stand. -/
theorem function_relocated (move : NodeId → NodeId) (e : Expr) :
    (∀ given values, (e.relocated move).applied given values = e.applied given values) ∧
      ∀ given, (e.relocated move).resultType given = e.resultType given := by
  have hnew := (e.relocated move).evaluate_anonymous.2
  rw [anonymous_relocated] at hnew
  constructor
  · intro given values
    rw [← hnew.1, e.evaluate_anonymous.2.1]
  · intro given
    rw [← hnew.2, e.evaluate_anonymous.2.2]

/-- An expression has the same value in every wider scope that binds its names alike. -/
theorem HasType.evaluate_widen (h : HasType Γ e t) :
    ∀ {scope wider : Scope} {ρ ρ' : Bindings}, scope.types = Γ →
      (∀ name u, Γ name = some u → wider.types name = some u ∧ ρ' name = ρ name) →
      e.evaluate wider ρ' = e.evaluate scope ρ := by
  induction h with
  | int | float => exact fun _ _ => rfl
  | ident hname =>
    intro scope wider ρ ρ' _ hwider
    rw [evaluate, evaluate, (hwider _ _ hname).2]
  | unary _ hoperand ih =>
    rintro scope wider ρ ρ' rfl hwider
    have htypes := fun name u hu => (hwider name u hu).1
    rw [evaluate, evaluate, ih rfl hwider, hoperand.typeIn_eq, (hoperand.widen htypes).typeIn_eq]
  | binary _ _ hleft hright ihl ihr =>
    rintro scope wider ρ ρ' rfl hwider
    have htypes := fun name u hu => (hwider name u hu).1
    rw [evaluate, evaluate, ihl rfl hwider, ihr rfl hwider, hleft.typeIn_eq, hright.typeIn_eq,
      (hleft.widen htypes).typeIn_eq, (hright.widen htypes).typeIn_eq]
  | range _ _ ihf ihl =>
    rintro scope wider ρ ρ' rfl hwider
    rw [evaluate, evaluate, ihf rfl hwider, ihl rfl hwider]
  | map ht hseq _ ihs _ =>
    rintro scope wider ρ ρ' rfl hwider
    have htypes := fun name u hu => (hwider name u hu).1
    rw [evaluate, evaluate, ihs rfl hwider, hseq.elementTypeIn_eq ht,
      (hseq.widen htypes).elementTypeIn_eq ht]
  | @reduce Γ site inner seq neutral body acc x p q hp hq _ hseq hneutral _ ihs ihn _ =>
    rintro scope wider ρ ρ' rfl hwider
    have htypes := fun name u hu => (hwider name u hu).1
    have hproper : (Ty.scalar p).IsProper := hp
    rw [evaluate, evaluate, ihs rfl hwider, ihn rfl hwider, hseq.elementTypeIn_eq hproper,
      (hseq.widen htypes).elementTypeIn_eq hproper, hneutral.typeIn_eq,
      (hneutral.widen htypes).typeIn_eq]

end Expr

/-- In a scope and its environment the copy has the type and the value of the variable. -/
def Inlining.Holds (k : Inlining) (scope : Scope) (ρ : Bindings) : Prop :=
  ∀ t, scope.types k.name = some t →
    k.copy.HasType scope.types t ∧ ∃ v, ρ k.name = some v ∧ k.copy.evaluate scope ρ = .ok v

/-- A tree with a copy in it has the value that it had. -/
theorem Expr.HasType.evaluate_inlined {Γ : Context} {e : Expr} {t : Ty} {k : Inlining}
    (h : HasType Γ e t) :
    e.Fits k → ∀ {scope : Scope} {ρ : Bindings}, scope.types = Γ → k.Holds scope ρ →
      (e.inlined k).evaluate scope ρ = e.evaluate scope ρ := by
  have htyped : ∀ {scope : Scope} {ρ : Bindings}, k.Holds scope ρ →
      ∀ u, scope.types k.name = some u → k.copy.HasType scope.types u :=
    fun hcopy u hu => (hcopy u hu).1
  induction h with
  | int | float => exact fun _ _ _ _ _ => rfl
  | @ident Γ site name t hname =>
    rintro hfits scope ρ rfl hcopy
    rw [Expr.inlined]
    by_cases hid : site.id = k.occurrence
    · have hx : name = k.name := hfits (site.id, name) (List.mem_singleton.2 rfl) hid
      rcases (hcopy t (hx ▸ hname)).2 with ⟨v, hv, hvalue⟩
      rw [if_pos hid, hvalue, evaluate, hx, hv]
    · rw [if_neg hid]
      rfl
  | unary _ hoperand ih =>
    rintro hfits scope ρ rfl hcopy
    rw [Expr.inlined, evaluate, evaluate, ih hfits rfl hcopy, hoperand.typeIn_eq,
      (hoperand.inlined hfits (htyped hcopy)).typeIn_eq]
  | binary _ _ hleft hright ihl ihr =>
    rintro hfits scope ρ rfl hcopy
    have hfits := List.forall_mem_append.1 hfits
    rw [Expr.inlined, evaluate, evaluate, ihl hfits.1 rfl hcopy, ihr hfits.2 rfl hcopy,
      hleft.typeIn_eq, hright.typeIn_eq, (hleft.inlined hfits.1 (htyped hcopy)).typeIn_eq,
      (hright.inlined hfits.2 (htyped hcopy)).typeIn_eq]
  | range _ _ ihf ihl =>
    rintro hfits scope ρ rfl hcopy
    have hfits := List.forall_mem_append.1 hfits
    rw [Expr.inlined, evaluate, evaluate, ihf hfits.1 rfl hcopy, ihl hfits.2 rfl hcopy]
  | @map Γ site inner seq body x t u ht hseq _ ihs _ =>
    rintro hfits scope ρ rfl hcopy
    have hfunction := (Expr.lambda inner [x] body).function_relocated k.move
    rw [Expr.inlined, evaluate, evaluate, ihs hfits rfl hcopy, hseq.elementTypeIn_eq ht,
      (hseq.inlined hfits (htyped hcopy)).elementTypeIn_eq ht]
    simp only [hfunction]
  | @reduce Γ site inner seq neutral body acc x p q hp hq _ hseq hneutral _ ihs ihn _ =>
    rintro hfits scope ρ rfl hcopy
    have hfits := List.forall_mem_append.1 hfits
    have hproper : (Ty.scalar p).IsProper := hp
    have hfunction := (Expr.lambda inner [acc, x] body).function_relocated k.move
    rw [Expr.inlined, evaluate, evaluate, ihs hfits.1 rfl hcopy, ihn hfits.2 rfl hcopy,
      hseq.elementTypeIn_eq hproper,
      (hseq.inlined hfits.1 (htyped hcopy)).elementTypeIn_eq hproper, hneutral.typeIn_eq,
      (hneutral.inlined hfits.2 (htyped hcopy)).typeIn_eq]
    simp only [hfunction]

end SeqCalc
