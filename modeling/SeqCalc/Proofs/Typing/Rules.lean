import SeqCalc.Program.Expr
import SeqCalc.Typing.Variable

/-!
# The type system

The types of expressions and statements by rules, without reference to any algorithm.  A context
gives types to names.  The body of a function literal is typed in the context of its parameters
alone, and a function literal has no type of its own: it occurs in the rules for `map` and
`reduce` only.

Main results:

- `Expr.HasType.isProper`: types never mention `unknown`, if the context does not.
-/

namespace SeqCalc

/-! ## Proper types -/

/-- A type in which nothing is unknown and that is nested at least once if it is a sequence. -/
def Ty.IsProper : Ty → Prop
  | .scalar s => s.isNumeric = true
  | .seq element depth => element.isNumeric = true ∧ 0 < depth

namespace Ty

@[simp]
theorem isProper_int : Ty.int.IsProper :=
  rfl

@[simp]
theorem isProper_float : Ty.float.IsProper :=
  rfl

@[simp]
theorem isProper_scalar {s : Scalar} : (scalar s).IsProper ↔ s.isNumeric = true :=
  Iff.rfl

theorem IsProper.sequenceOf {t : Ty} (h : t.IsProper) : t.sequenceOf.IsProper := by
  cases t with
  | scalar s => exact ⟨h, Nat.one_pos⟩
  | seq element depth => exact ⟨h.1, Nat.succ_pos depth⟩

theorem IsProper.ne_unknown {t : Ty} (h : t.IsProper) : t ≠ .unknown := by
  rintro rfl
  simp [unknown, Scalar.isNumeric] at h

theorem IsProper.isUnknown_eq_false {t : Ty} (h : t.IsProper) : t.isUnknown = false := by
  simp [isUnknown, h.ne_unknown]

theorem IsProper.element?_sequenceOf {t : Ty} (h : t.IsProper) :
    t.sequenceOf.element? = some t := by
  refine Ty.element?_sequenceOf ?_
  rintro s rfl
  exact absurd h.2 (Nat.lt_irrefl 0)

/-- A proper sequence type is the type of sequences of its element type, which is proper too. -/
theorem IsProper.of_element? {t element : Ty} (h : t.IsProper) (he : t.element? = some element) :
    element.IsProper ∧ t = element.sequenceOf := by
  cases t with
  | scalar s => simp [element?] at he
  | seq s depth =>
    rcases h with ⟨hs, hpos⟩
    simp only [element?, Option.some.injEq] at he
    subst he
    by_cases hd : depth ≤ 1
    · have : depth = 1 := by omega
      subst this
      exact ⟨hs, rfl⟩
    · rw [if_neg hd]
      refine ⟨⟨hs, by omega⟩, ?_⟩
      simp only [Ty.sequenceOf, seq.injEq, true_and]
      omega

/-- Scalar types are those that are no sequences. -/
theorem IsProper.scalar?_isSome {t : Ty} (h : t.IsProper) (hs : t.isSequence = false) :
    ∃ s, t = scalar s ∧ s.isNumeric = true := by
  cases t with
  | scalar s => exact ⟨s, rfl, h⟩
  | seq element depth => simp [isSequence] at hs

end Ty

/-- The common type of two numbers: float if either is a float, and int otherwise. -/
def Scalar.widest (p q : Scalar) : Scalar :=
  if p = .float ∨ q = .float then .float else .int

namespace Scalar

@[simp]
theorem isNumeric_widest (p q : Scalar) : (widest p q).isNumeric = true := by
  unfold widest
  split <;> rfl

theorem promote_eq_widest {p q : Scalar} (hp : p.isNumeric = true) (hq : q.isNumeric = true) :
    p.promote q = widest p q := by
  cases p <;> cases q <;> simp_all [promote, widest, isNumeric]

end Scalar

/-! ## Contexts -/

/-- Types by name. -/
def Context : Type :=
  String → Option Ty

namespace Context

def empty : Context :=
  fun _ => none

/-- A context with one more name, which hides an earlier one of the same text. -/
def extend (Γ : Context) (name : String) (t : Ty) : Context :=
  fun other => if other = name then some t else Γ other

theorem extend_self (Γ : Context) (name : String) (t : Ty) : Γ.extend name t name = some t :=
  if_pos rfl

theorem extend_of_ne {Γ : Context} {name other : String} (h : other ≠ name) (t : Ty) :
    Γ.extend name t other = Γ other :=
  if_neg h

/-- Every name has a proper type. -/
def IsProper (Γ : Context) : Prop :=
  ∀ name t, Γ name = some t → t.IsProper

theorem isProper_empty : empty.IsProper := by
  intro name t h
  simp [empty] at h

theorem IsProper.extend {Γ : Context} (h : Γ.IsProper) {t : Ty} (ht : t.IsProper)
    (name : String) : (Γ.extend name t).IsProper := by
  intro other u hu
  unfold Context.extend at hu
  split at hu
  · exact Option.some.inj hu ▸ ht
  · exact h other u hu

end Context

/-- The types that a scope gives to names. -/
def Scope.types (s : Scope) : Context :=
  fun name => (s.lookup? name).map Variable.ty

/-! ## Expressions -/

namespace Expr

/-- The typing rules of expressions. -/
inductive HasType : Context → Expr → Ty → Prop
  | int {Γ : Context} {site : Site} {value : Int64} :
      HasType Γ (.int site value) .int
  | float {Γ : Context} {site : Site} {bits : UInt64} :
      HasType Γ (.float site bits) .float
  | ident {Γ : Context} {site : Site} {name : String} {t : Ty} :
      Γ name = some t → HasType Γ (.ident site name) t
  | unary {Γ : Context} {site : Site} {op : UnaryOp} {operand : Expr} {p : Scalar} :
      p.isNumeric = true → HasType Γ operand (.scalar p) →
      HasType Γ (.unary site op operand) (.scalar p)
  | binary {Γ : Context} {site : Site} {op : BinaryOp} {left right : Expr} {p q : Scalar} :
      p.isNumeric = true → q.isNumeric = true →
      HasType Γ left (.scalar p) → HasType Γ right (.scalar q) →
      HasType Γ (.binary site op left right) (.scalar (p.widest q))
  | range {Γ : Context} {site : Site} {first last : Expr} :
      HasType Γ first .int → HasType Γ last .int →
      HasType Γ (.range site first last) Ty.int.sequenceOf
  | map {Γ : Context} {site inner : Site} {seq body : Expr} {x : String} {t u : Ty} :
      t.IsProper → HasType Γ seq t.sequenceOf → HasType (Context.empty.extend x t) body u →
      HasType Γ (.map site seq (.lambda inner [x] body)) u.sequenceOf
  | reduce {Γ : Context} {site inner : Site} {seq neutral body : Expr} {acc x : String}
      {p q : Scalar} :
      p.isNumeric = true → q.isNumeric = true → acc ≠ x →
      HasType Γ seq (Ty.scalar p).sequenceOf → HasType Γ neutral (.scalar q) →
      HasType ((Context.empty.extend acc (.scalar (p.widest q))).extend x (.scalar (p.widest q)))
        body (.scalar (p.widest q)) →
      HasType Γ (.reduce site seq neutral (.lambda inner [acc, x] body)) (.scalar (p.widest q))

/-- The names that occur outside function literals, from left to right. -/
def names : Expr → List String
  | .int _ _ | .float _ _ | .lambda _ _ _ => []
  | .ident _ name => [name]
  | .unary _ _ operand => operand.names
  | .binary _ _ left right => left.names ++ right.names
  | .range _ first last => first.names ++ last.names
  | .map _ seq _ => seq.names
  | .reduce _ seq neutral _ => seq.names ++ neutral.names

theorem HasType.isProper {Γ : Context} {e : Expr} {t : Ty} (h : HasType Γ e t)
    (hΓ : Γ.IsProper) : t.IsProper := by
  induction h with
  | int => exact Ty.isProper_int
  | float => exact Ty.isProper_float
  | ident hname => exact hΓ _ _ hname
  | unary hp _ _ => exact hp
  | binary _ _ _ _ _ _ => exact Scalar.isNumeric_widest _ _
  | range _ _ _ _ => exact Ty.isProper_int.sequenceOf
  | map ht _ _ _ ih => exact (ih (Context.isProper_empty.extend ht _)).sequenceOf
  | reduce _ _ _ _ _ _ _ _ _ => exact Scalar.isNumeric_widest _ _

end Expr

/-! ## Statements -/

/-- The typing rules of statements, in program order, with the types of their values. -/
inductive StmtsTyped : Context → List Stmt → List Ty → Prop
  | nil {Γ : Context} : StmtsTyped Γ [] []
  | print {Γ : Context} {value : Expr} {span : Span} {rest : List Stmt} {t : Ty} {ts : List Ty} :
      value.HasType Γ t → StmtsTyped Γ rest ts →
      StmtsTyped Γ (⟨none, value, span⟩ :: rest) (t :: ts)
  | define {Γ : Context} {name : String} {value : Expr} {span : Span} {rest : List Stmt} {t : Ty}
      {ts : List Ty} :
      value.HasType Γ t → Γ name = none → StmtsTyped (Γ.extend name t) rest ts →
      StmtsTyped Γ (⟨some name, value, span⟩ :: rest) (t :: ts)

end SeqCalc
