import SeqCalc.Code.Lowering
import SeqCalc.Proofs.Code.Typing
import SeqCalc.Proofs.Typing.Visits

/-!
# The code of typed expressions

What typed expressions are lowered to, by rules that follow the typing rules: names become the
positions of inputs, and an operand whose type is not that of the operation is cast.  Lowering looks
the types up in a table.  Where the table has the types that inference gave, the code of the rules
comes out, and both backends take it.

Main results:

- `Expr.Elaborates.codeHasType`: the code of a typed expression is typed code.
- `Expr.HasType.hasCode`: a typed expression has code, and lowering finds it.
-/

namespace SeqCalc

/-! ## Casts -/

/-- A number of type `p` can be passed on as one of type `r`. -/
def Scalar.WidensTo (p r : Scalar) : Prop :=
  p = r ∨ p = .int ∧ r = .float

theorem Scalar.widensTo_widest_left {p : Scalar} (hp : p.isNumeric = true) (q : Scalar) :
    p.WidensTo (p.widest q) := by
  unfold WidensTo widest
  cases p <;> cases q <;> simp_all [isNumeric]

theorem Scalar.widensTo_widest_right (p : Scalar) {q : Scalar} (hq : q.isNumeric = true) :
    q.WidensTo (p.widest q) := by
  unfold WidensTo widest
  cases p <;> cases q <;> simp_all [isNumeric]

theorem Scalar.widest_eq_float {p : Scalar} (q : Scalar) (hp : p = .float) :
    p.widest q = .float := by
  simp [widest, hp]

namespace Code

/-- Code of type `own` as code of type `target`. -/
def coerced (own target : Scalar) (code : Code) : Code :=
  if own = target then code else .cast own target code

theorem hasType_coerced {params : List Ty} {code : Code} {own target : Scalar}
    (hw : own.WidensTo target) (h : HasType params code (.scalar own)) :
    HasType params (coerced own target code) (.scalar target) := by
  rcases hw with rfl | ⟨rfl, rfl⟩
  · rw [coerced, if_pos rfl]
    exact h
  · exact .widen h

end Code

/-! ## Slots -/

/-- The first input of its name, and where it is. -/
def HasSlot (inputs : List Variable) (v : Variable) (slot : Nat) : Prop :=
  slot? (inputs.map Variable.name) v.name = some slot ∧ inputs[slot]? = some v

/-- Every name that is used has an input of its type. -/
def Context.SlotsFor (Γ : Context) (inputs : List Variable) (names : List String) : Prop :=
  ∀ name ∈ names, ∀ t, Γ name = some t → ∃ slot, HasSlot inputs ⟨name, t⟩ slot

namespace Context

theorem SlotsFor.append {Γ : Context} {inputs : List Variable} {xs ys : List String} :
    Γ.SlotsFor inputs (xs ++ ys) ↔ Γ.SlotsFor inputs xs ∧ Γ.SlotsFor inputs ys :=
  List.forall_mem_append

theorem slotsFor_one (x : String) (t : Ty) (names : List String) :
    (empty.extend x t).SlotsFor [⟨x, t⟩] names := by
  intro name _ u hu
  unfold extend at hu
  split at hu
  · rename_i hname
    cases hu
    subst hname
    exact ⟨0, by simp [HasSlot, slot?]⟩
  · simp [empty] at hu

theorem slotsFor_two {x y : String} (hxy : x ≠ y) (t u : Ty) (names : List String) :
    ((empty.extend x t).extend y u).SlotsFor [⟨x, t⟩, ⟨y, u⟩] names := by
  intro name _ s hs
  unfold extend at hs
  split at hs
  · rename_i hname
    cases hs
    subst hname
    exact ⟨1, by simp [HasSlot, slot?, List.findIdx?_cons, hxy]⟩
  · split at hs
    · rename_i hname
      cases hs
      subst hname
      exact ⟨0, by simp [HasSlot, slot?, List.findIdx?_cons]⟩
    · simp [empty] at hs

end Context

/-! ## Rules -/

namespace Expr

/-- The code of typed expressions that read the given inputs by position. -/
inductive Elaborates : Context → List Variable → Expr → Ty → Code → Prop
  | int {Γ : Context} {inputs : List Variable} {site : Site} {value : Int64} :
      Elaborates Γ inputs (.int site value) .int (.int value)
  | float {Γ : Context} {inputs : List Variable} {site : Site} {bits : UInt64} :
      Elaborates Γ inputs (.float site bits) .float (.float ⟨bits⟩)
  | ident {Γ : Context} {inputs : List Variable} {site : Site} {name : String} {t : Ty}
      {slot : Nat} :
      Γ name = some t → HasSlot inputs ⟨name, t⟩ slot →
      Elaborates Γ inputs (.ident site name) t (.param slot)
  | plus {Γ : Context} {inputs : List Variable} {site : Site} {operand : Expr} {p : Scalar}
      {code : Code} :
      p.isNumeric = true → Elaborates Γ inputs operand (.scalar p) code →
      Elaborates Γ inputs (.unary site .plus operand) (.scalar p) code
  | neg {Γ : Context} {inputs : List Variable} {site : Site} {operand : Expr} {p : Scalar}
      {code : Code} :
      p.isNumeric = true → Elaborates Γ inputs operand (.scalar p) code →
      Elaborates Γ inputs (.unary site .neg operand) (.scalar p) (.neg p code)
  | binary {Γ : Context} {inputs : List Variable} {site : Site} {op : BinaryOp}
      {left right : Expr} {p q : Scalar} {l r : Code} :
      p.isNumeric = true → q.isNumeric = true →
      Elaborates Γ inputs left (.scalar p) l → Elaborates Γ inputs right (.scalar q) r →
      Elaborates Γ inputs (.binary site op left right) (.scalar (p.widest q))
        (.arith (p.widest q) op (l.coerced p (p.widest q)) (r.coerced q (p.widest q)))
  | range {Γ : Context} {inputs : List Variable} {site : Site} {first last : Expr} {a z : Code} :
      Elaborates Γ inputs first .int a → Elaborates Γ inputs last .int z →
      Elaborates Γ inputs (.range site first last) Ty.int.sequenceOf (.range true a z)
  | map {Γ : Context} {inputs : List Variable} {site inner : Site} {seq body : Expr} {x : String}
      {t u : Ty} {s b : Code} :
      t.IsProper → u.IsProper → Elaborates Γ inputs seq t.sequenceOf s →
      Elaborates (Context.empty.extend x t) [⟨x, t⟩] body u b →
      Elaborates Γ inputs (.map site seq (.lambda inner [x] body)) u.sequenceOf
        (.map s ⟨u, [t]⟩ b t u)
  | reduce {Γ : Context} {inputs : List Variable} {site inner : Site} {seq neutral body : Expr}
      {acc x : String} {p q r : Scalar} {s n b : Code} :
      p.isNumeric = true → q.isNumeric = true → acc ≠ x → r = p.widest q →
      Elaborates Γ inputs seq (Ty.scalar p).sequenceOf s →
      Elaborates Γ inputs neutral (.scalar q) n →
      Elaborates ((Context.empty.extend acc (.scalar r)).extend x (.scalar r))
        [⟨acc, .scalar r⟩, ⟨x, .scalar r⟩] body (.scalar r) b →
      Elaborates Γ inputs (.reduce site seq neutral (.lambda inner [acc, x] body)) (.scalar r)
        (.reduce s (n.coerced q r) ⟨.scalar r, [.scalar r, .scalar r]⟩ b p r)

variable {Γ : Context} {inputs : List Variable} {e : Expr} {t : Ty} {code : Code}

/-- Only typed expressions have code. -/
theorem Elaborates.hasType (h : Elaborates Γ inputs e t code) : HasType Γ e t := by
  induction h with
  | int => exact .int
  | float => exact .float
  | ident hname _ => exact .ident hname
  | plus hp _ ih => exact .unary hp ih
  | neg hp _ ih => exact .unary hp ih
  | binary hp hq _ _ ihl ihr => exact .binary hp hq ihl ihr
  | range _ _ ihf ihl => exact .range ihf ihl
  | map ht _ _ _ ihs ihb => exact .map ht ihs ihb
  | reduce hp hq hne hr _ _ _ ihs ihn ihb =>
    subst hr
    exact .reduce hp hq hne ihs ihn ihb

/-- The code of a typed expression is typed code. -/
theorem Elaborates.codeHasType (h : Elaborates Γ inputs e t code) :
    Code.HasType (inputs.map Variable.ty) code t := by
  induction h with
  | int => exact .int _
  | float => exact .float _
  | ident _ hslot => exact .param (by simp [hslot.2])
  | plus _ _ ih => exact ih
  | neg hp _ ih => exact .neg hp ih
  | binary hp hq _ _ ihl ihr =>
    exact .arith (Scalar.isNumeric_widest _ _)
      (Code.hasType_coerced (Scalar.widensTo_widest_left hp _) ihl)
      (Code.hasType_coerced (Scalar.widensTo_widest_right _ hq) ihr)
  | range _ _ ihf ihl => exact .range ihf ihl
  | map ht hu _ _ ihs ihb => exact .map ht hu ihs ihb
  | reduce hp hq _ hr _ _ _ ihs ihn ihb =>
    subst hr
    exact .reduce hp (Scalar.isNumeric_widest _ _) (Scalar.widest_eq_float _) ihs
      (Code.hasType_coerced (Scalar.widensTo_widest_right _ hq) ihn) ihb

end Expr

/-! ## Lowering -/

theorem TypeTable.scalarOf_eq {types : TypeTable} {id : NodeId} {p : Scalar}
    (h : types.get id = .scalar p) (hp : p.isNumeric = true) : types.scalarOf id = .ok p := by
  unfold scalarOf
  rw [h]
  cases p with
  | int | float => rfl
  | unknown => exact Bool.noConfusion hp

/-- The function under construction that reads the given inputs. -/
def Scaffold.ofInputs (result : Ty) (inputs : List Variable) : Scaffold :=
  ⟨⟨result, inputs.map Variable.ty⟩, inputs.map Variable.name⟩

theorem Scaffold.coerce_eq {types : TypeTable} {id : NodeId} {own target : Scalar} {code : Code}
    {result : Ty} {inputs : List Variable} (b : Backend) (hown : own.isNumeric = true)
    (hw : own.WidensTo target) (hid : types.get id = .scalar own)
    (hcode : Code.HasType (inputs.map Variable.ty) code (.scalar own)) :
    (ofInputs result inputs).coerce b types id target code = .ok (code.coerced own target) := by
  have htyped := Code.hasType_coerced hw hcode
  rw [coerce, TypeTable.scalarOf_eq hid hown, ok_bind]
  unfold Code.coerced at htyped ⊢
  split
  · rfl
  · rename_i hne
    rw [if_neg hne] at htyped
    exact b.build_of_hasType htyped

namespace Expr

/-- The table has the type of an expression if it has the types of all its nodes. -/
theorem HasType.get_root {env : Env} {e : Expr} {t : Ty} {types : TypeTable}
    (h : HasType env.scope.types e t) (hrec : types.Records (e.infer env).findings.visits) :
    types.get e.id = t := by
  have := hrec _ (e.mem_visits_infer env)
  rwa [h.value_infer] at this

/--
With a table of the types that inference gives to the nodes of an expression, lowering finds the
code of the expression, whatever the position of its inputs.
-/
def HasCode (types : TypeTable) (Γ : Context) (e : Expr) (t : Ty) : Prop :=
  ∀ (env : Env) (inputs : List Variable), env.scope.types = Γ →
    types.Records (e.infer env).findings.visits → Γ.SlotsFor inputs e.names →
    ∃ code, Elaborates Γ inputs e t code ∧
      ∀ b result, e.lower b types (.ofInputs result inputs) = .ok code

section HasCode

variable {types : TypeTable} {Γ : Context}

theorem hasCode_ident {site : Site} {name : String} {t : Ty} (hname : Γ name = some t) :
    HasCode types Γ (.ident site name) t := by
  intro env inputs _ _ hslots
  rcases hslots name (List.mem_singleton.2 rfl) t hname with ⟨slot, hslot⟩
  have helab : Elaborates Γ inputs (.ident site name) t (.param slot) := .ident hname hslot
  refine ⟨_, helab, ?_⟩
  intro b result
  rw [lower]
  simp only [Scaffold.ofInputs, hslot.1]
  exact b.build_of_hasType helab.codeHasType

theorem hasCode_unary {site : Site} {op : UnaryOp} {operand : Expr} {p : Scalar}
    (hp : p.isNumeric = true) (hoperand : HasType Γ operand (.scalar p))
    (ih : HasCode types Γ operand (.scalar p)) :
    HasCode types Γ (.unary site op operand) (.scalar p) := by
  rintro env inputs rfl hrec hslots
  have htyped : HasType env.scope.types (.unary site op operand) (.scalar p) :=
    .unary hp hoperand
  have hsite : types.get site.id = .scalar p := htyped.get_root hrec
  rw [visits_unary, TypeTable.records_append] at hrec
  rcases ih env inputs rfl hrec.1 hslots with ⟨code, hcode, hlower⟩
  cases op with
  | plus =>
    refine ⟨_, .plus hp hcode, ?_⟩
    intro b result
    rw [lower, hlower b result]
    rfl
  | neg =>
    have helab : Elaborates env.scope.types inputs (.unary site .neg operand) _ (.neg p code) :=
      .neg hp hcode
    refine ⟨_, helab, ?_⟩
    intro b result
    rw [lower, hlower b result, ok_bind]
    simp only [TypeTable.scalarOf_eq hsite hp, ok_bind]
    exact b.build_of_hasType helab.codeHasType

theorem hasCode_binary {site : Site} {op : BinaryOp} {left right : Expr} {p q : Scalar}
    (hp : p.isNumeric = true) (hq : q.isNumeric = true) (hleft : HasType Γ left (.scalar p))
    (hright : HasType Γ right (.scalar q)) (ihl : HasCode types Γ left (.scalar p))
    (ihr : HasCode types Γ right (.scalar q)) :
    HasCode types Γ (.binary site op left right) (.scalar (p.widest q)) := by
  rintro env inputs rfl hrec hslots
  have htyped : HasType env.scope.types (.binary site op left right) (.scalar (p.widest q)) :=
    .binary hp hq hleft hright
  have hsite : types.get site.id = .scalar (p.widest q) := htyped.get_root hrec
  rw [visits_binary, TypeTable.records_append, TypeTable.records_append] at hrec
  rcases hrec with ⟨⟨hrecl, hrecr⟩, -⟩
  rcases Context.SlotsFor.append.1 hslots with ⟨hslotsl, hslotsr⟩
  rcases ihl env inputs rfl hrecl hslotsl with ⟨l, hl, hlowerl⟩
  rcases ihr env inputs rfl hrecr hslotsr with ⟨r, hr, hlowerr⟩
  have helab : Elaborates env.scope.types inputs (.binary site op left right) _ _ :=
    .binary hp hq hl hr
  refine ⟨_, helab, ?_⟩
  intro b result
  rw [lower, TypeTable.scalarOf_eq hsite (Scalar.isNumeric_widest p q), ok_bind,
    hlowerl b result, ok_bind,
    Scaffold.coerce_eq b hp (Scalar.widensTo_widest_left hp q) (hleft.get_root hrecl)
      hl.codeHasType,
    ok_bind, hlowerr b result, ok_bind,
    Scaffold.coerce_eq b hq (Scalar.widensTo_widest_right p hq) (hright.get_root hrecr)
      hr.codeHasType,
    ok_bind]
  exact b.build_of_hasType helab.codeHasType

theorem hasCode_range {site : Site} {first last : Expr} (ihf : HasCode types Γ first .int)
    (ihl : HasCode types Γ last .int) :
    HasCode types Γ (.range site first last) Ty.int.sequenceOf := by
  rintro env inputs rfl hrec hslots
  rw [visits_range, TypeTable.records_append, TypeTable.records_append] at hrec
  rcases Context.SlotsFor.append.1 hslots with ⟨hslotsf, hslotsl⟩
  rcases ihf env inputs rfl hrec.1.1 hslotsf with ⟨a, ha, hlowera⟩
  rcases ihl env inputs rfl hrec.1.2 hslotsl with ⟨z, hz, hlowerz⟩
  have helab : Elaborates env.scope.types inputs (.range site first last) _ _ := .range ha hz
  refine ⟨_, helab, ?_⟩
  intro b result
  rw [lower, hlowera b result, ok_bind, hlowerz b result, ok_bind]
  exact b.build_of_hasType helab.codeHasType

/-- Both backends take the code of a body as a nested function of its parameters. -/
theorem lowerFunction_eq {inner : Site} {params : List Variable} {body : Expr} {u : Ty}
    {code : Code} (b : Backend) (hparams : ∀ v ∈ params, v.ty.IsProper)
    (hcode : Code.HasType (params.map Variable.ty) code u)
    (hlower : body.lower b types (.ofInputs u params) = .ok code) :
    (Expr.lambda inner (params.map Variable.name) body).lowerFunction b types
      ⟨u, params.map Variable.ty⟩ = .ok code := by
  rw [lowerFunction, if_pos (by simp)]
  have hbody : body.lower b types ⟨⟨u, params.map Variable.ty⟩, params.map Variable.name⟩ =
      .ok code := hlower
  rw [hbody]
  refine b.wrap_of_hasType ?_ hcode
  intro t ht
  rcases List.mem_map.1 ht with ⟨v, hv, rfl⟩
  exact hparams v hv

theorem hasCode_map {site inner : Site} {seq body : Expr} {x : String} {t u : Ty}
    (ht : t.IsProper) (hseq : HasType Γ seq t.sequenceOf)
    (hbody : HasType (Context.empty.extend x t) body u)
    (ihs : HasCode types Γ seq t.sequenceOf)
    (ihb : HasCode types (Context.empty.extend x t) body u) :
    HasCode types Γ (.map site seq (.lambda inner [x] body)) u.sequenceOf := by
  rintro env inputs rfl hrec hslots
  have hu : u.IsProper := hbody.isProper (Context.isProper_empty.extend ht x)
  rw [hseq.visits_map ht hbody] at hrec
  simp only [TypeTable.records_append, TypeTable.records_singleton] at hrec
  rcases hrec with ⟨⟨hrecs, hrecb, hinner⟩, -⟩
  rcases ihs env inputs rfl hrecs hslots with ⟨s, hs, hlowers⟩
  obtain ⟨c, hc, hlowerc⟩ := ihb ⟨⟨[⟨x, t⟩]⟩, true⟩ [⟨x, t⟩] (Scope.types_one x t) hrecb
    (Context.slotsFor_one x t _)
  have helab : Elaborates env.scope.types inputs (.map site seq (.lambda inner [x] body)) _ _ :=
    .map ht hu hs hc
  refine ⟨_, helab, ?_⟩
  intro b result
  have hsource : types.elementOf seq.id = .ok t := by
    rw [TypeTable.elementOf, hseq.get_root hrecs, ht.element?_sequenceOf]
  have htarget : types.get (Expr.lambda inner [x] body).id = u := hinner
  have hfunction : (Expr.lambda inner [x] body).lowerFunction b types ⟨u, [t]⟩ = .ok c :=
    lowerFunction_eq b (by simpa using ht) hc.codeHasType (hlowerc b u)
  rw [lower, hsource, ok_bind, htarget, hlowers b result, ok_bind]
  dsimp only
  rw [hfunction, ok_bind]
  exact b.build_of_hasType helab.codeHasType

theorem hasCode_reduce {site inner : Site} {seq neutral body : Expr} {acc x : String}
    {p q r : Scalar} (hp : p.isNumeric = true) (hq : q.isNumeric = true) (hne : acc ≠ x)
    (hr : r = p.widest q) (hseq : HasType Γ seq (Ty.scalar p).sequenceOf)
    (hneutral : HasType Γ neutral (.scalar q))
    (hbody : HasType ((Context.empty.extend acc (.scalar r)).extend x (.scalar r)) body (.scalar r))
    (ihs : HasCode types Γ seq (Ty.scalar p).sequenceOf)
    (ihn : HasCode types Γ neutral (.scalar q))
    (ihb : HasCode types ((Context.empty.extend acc (.scalar r)).extend x (.scalar r)) body
      (.scalar r)) :
    HasCode types Γ (.reduce site seq neutral (.lambda inner [acc, x] body)) (.scalar r) := by
  rintro env inputs rfl hrec hslots
  have hrnum : r.isNumeric = true := hr ▸ Scalar.isNumeric_widest p q
  have htyped : HasType env.scope.types (.reduce site seq neutral (.lambda inner [acc, x] body))
      (.scalar r) := by
    subst hr
    exact .reduce hp hq hne hseq hneutral hbody
  have hsite : types.get site.id = .scalar r := htyped.get_root hrec
  rw [hseq.visits_reduce hp hq hne hr hneutral hbody] at hrec
  simp only [TypeTable.records_append] at hrec
  rcases hrec with ⟨⟨⟨hrecs, hrecn⟩, hrecb, -⟩, -⟩
  rcases Context.SlotsFor.append.1 hslots with ⟨hslotss, hslotsn⟩
  rcases ihs env inputs rfl hrecs hslotss with ⟨s, hs, hlowers⟩
  rcases ihn env inputs rfl hrecn hslotsn with ⟨n, hn, hlowern⟩
  obtain ⟨c, hc, hlowerc⟩ := ihb ⟨⟨[⟨acc, .scalar r⟩, ⟨x, .scalar r⟩]⟩, true⟩
    [⟨acc, .scalar r⟩, ⟨x, .scalar r⟩] (Scope.types_two hne _ _) hrecb
    (Context.slotsFor_two hne _ _ _)
  have helab : Elaborates env.scope.types inputs
      (.reduce site seq neutral (.lambda inner [acc, x] body)) (.scalar r) _ :=
    .reduce hp hq hne hr hs hn hc
  refine ⟨_, helab, ?_⟩
  intro b result
  have helement : types.scalarElementOf seq.id = .ok p := by
    rw [TypeTable.scalarElementOf, hseq.get_root hrecs]
    rfl
  have hfunction : (Expr.lambda inner [acc, x] body).lowerFunction b types
      ⟨.scalar r, [.scalar r, .scalar r]⟩ = .ok c :=
    lowerFunction_eq b (by simpa using hrnum) hc.codeHasType (hlowerc b (.scalar r))
  have hwidens : q.WidensTo r := hr ▸ Scalar.widensTo_widest_right p hq
  rw [lower, TypeTable.scalarOf_eq hsite hrnum, ok_bind, helement, ok_bind, hlowers b result,
    ok_bind, hlowern b result, ok_bind,
    Scaffold.coerce_eq b hq hwidens (hneutral.get_root hrecn) hn.codeHasType, ok_bind]
  dsimp only
  rw [hfunction, ok_bind]
  exact b.build_of_hasType helab.codeHasType

end HasCode

/-- A typed expression has code, and lowering finds it. -/
theorem HasType.hasCode {Γ : Context} {e : Expr} {t : Ty} (types : TypeTable)
    (h : HasType Γ e t) : HasCode types Γ e t := by
  induction h with
  | int =>
    intro env inputs _ _ _
    refine ⟨_, .int, ?_⟩
    intro b result
    exact b.build_of_hasType (.int _)
  | float =>
    intro env inputs _ _ _
    refine ⟨_, .float, ?_⟩
    intro b result
    exact b.build_of_hasType (.float _)
  | ident hname => exact hasCode_ident hname
  | unary hp hoperand ih => exact hasCode_unary hp hoperand ih
  | binary hp hq hleft hright ihl ihr => exact hasCode_binary hp hq hleft hright ihl ihr
  | range _ _ ihf ihl => exact hasCode_range ihf ihl
  | map ht hseq hbody ihs ihb => exact hasCode_map ht hseq hbody ihs ihb
  | reduce hp hq hne hseq hneutral hbody ihs ihn ihb =>
    exact hasCode_reduce hp hq hne rfl hseq hneutral hbody ihs ihn ihb

end Expr
end SeqCalc
