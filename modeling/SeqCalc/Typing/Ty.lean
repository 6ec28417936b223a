/-!
# Types

A type is a scalar or a sequence of scalars nested to some depth.  An expression whose type could
not be found has the scalar type `unknown`, which absorbs every other scalar.

Main results:

- `Ty.element?_sequenceOf`: the element type of a sequence type built over a proper type is that
  type.
-/

namespace SeqCalc

/-! ## Scalars -/

inductive Scalar where
  | int
  | float
  /-- The type of an expression that an earlier error left without one. -/
  | unknown
deriving DecidableEq, Repr, Inhabited

namespace Scalar

def isNumeric : Scalar → Bool
  | unknown => false
  | _ => true

def text : Scalar → String
  | int => "int"
  | float => "float"
  | unknown => "\x7bunknown\x7d"

/-- The common type of two operands: an integer widens to a float, and unknown absorbs. -/
def promote : Scalar → Scalar → Scalar
  | unknown, _ | _, unknown => unknown
  | int, int => int
  | _, _ => float

theorem promote_comm (p q : Scalar) : promote p q = promote q p := by
  cases p <;> cases q <;> rfl

/-- The tag of a scalar, for a developer. -/
def inspect : Scalar → String
  | int => "Integer"
  | float => "Float"
  | unknown => "Unknown"

end Scalar

/-! ## Types -/

/-- A scalar, or sequences of it nested `depth` times. -/
inductive Ty where
  | scalar (s : Scalar)
  | seq (element : Scalar) (depth : Nat)
deriving DecidableEq, Repr, Inhabited

namespace Ty

def int : Ty :=
  scalar .int

def float : Ty :=
  scalar .float

def unknown : Ty :=
  scalar .unknown

/-- The type of sequences of `t`. -/
def sequenceOf : Ty → Ty
  | scalar s => seq s 1
  | seq element depth => seq element (depth + 1)

/-- The type of the elements of a sequence. -/
def element? : Ty → Option Ty
  | scalar _ => none
  | seq element depth => some (if depth ≤ 1 then scalar element else seq element (depth - 1))

def scalar? : Ty → Option Scalar
  | scalar s => some s
  | seq _ _ => none

def isUnknown (t : Ty) : Bool :=
  t == unknown

def isSequence : Ty → Bool
  | scalar _ => false
  | seq _ _ => true

/-- A scalar's name, between as many brackets as the type is deep. -/
def text : Ty → String
  | scalar s => s.text
  | seq element depth =>
    String.ofList (List.replicate depth '[') ++ element.text ++
      String.ofList (List.replicate depth ']')

instance : ToString Ty :=
  ⟨text⟩

/-- The shape of a type, for a developer. -/
def inspect : Ty → String
  | scalar s => s!"Primitive({s.inspect})"
  | seq element depth =>
    "Sequence \x7b element: " ++ element.inspect ++ ", depth: " ++ toString depth ++ " \x7d"

/-- Taking elements undoes building a sequence; a sequence type of depth zero is the exception. -/
theorem element?_sequenceOf {t : Ty} (h : ∀ s, t ≠ seq s 0) : t.sequenceOf.element? = some t := by
  cases t with
  | scalar s => rfl
  | seq s depth =>
    cases depth with
    | zero => exact absurd rfl (h s)
    | succ n => simp [sequenceOf, element?]

end Ty
end SeqCalc
