import SeqCalc.Value.Binary64

/-!
# Values

Integers, floats and sequences.  A sequence of scalars stores bare words, every other sequence
stores values; the stored kind is part of the sequence, also when it is empty.

Main results:

- `Sequence.length_elements`: viewing a sequence as values keeps its length.
-/

namespace SeqCalc

/-! ## Kinds -/

/-- How a value is stored. -/
inductive Kind where
  | int
  | float
  | object
deriving DecidableEq, Repr, Inhabited

/-- The kind of a sequence by its elements. -/
def Kind.text : Kind → String
  | .int => "int"
  | .float => "float"
  | .object => "object"

/-! ## Values -/

mutual

/-- The result of evaluating an expression. -/
inductive Value where
  | int (n : Int64)
  | float (x : Binary64)
  | seq (s : Sequence)

/-- A finite sequence, by the kind of its elements. -/
inductive Sequence where
  | ints (xs : List Int64)
  | floats (xs : List Binary64)
  | objects (xs : List Value)

end

instance : Inhabited Value :=
  ⟨.int 0⟩

instance : Inhabited Sequence :=
  ⟨.ints []⟩

/-- The kind of a value as an element of a sequence. -/
def Value.kind : Value → Kind
  | .int _ => .int
  | .float _ => .float
  | .seq _ => .object

namespace Sequence

/-- The kind of the elements. -/
def kind : Sequence → Kind
  | ints _ => .int
  | floats _ => .float
  | objects _ => .object

def length : Sequence → Nat
  | ints xs => xs.length
  | floats xs => xs.length
  | objects xs => xs.length

def isEmpty (s : Sequence) : Bool :=
  s.length == 0

/-- The elements as values. -/
def elements : Sequence → List Value
  | ints xs => xs.map .int
  | floats xs => xs.map .float
  | objects xs => xs

/-- The elements as values of a kind: integers widen to floats, all others stay as they are. -/
def elementsAs (kind : Kind) : Sequence → List Value
  | ints xs => match kind with
    | .float => xs.map fun n => .float (.ofInt64 n)
    | _ => xs.map .int
  | s => s.elements

/-- The element at a position. -/
def get? (s : Sequence) (i : Nat) : Option Value :=
  match s with
  | ints xs => xs[i]?.map .int
  | floats xs => xs[i]?.map .float
  | objects xs => xs[i]?

/-- The element at a position as a value of a kind. -/
def getAs? (s : Sequence) (i : Nat) (kind : Kind) : Option Value :=
  match s, kind with
  | ints xs, .float => xs[i]?.map fun n => .float (.ofInt64 n)
  | _, _ => s.get? i

@[simp]
theorem length_elements (s : Sequence) : s.elements.length = s.length := by
  cases s <;> simp [elements, length]

@[simp]
theorem length_elementsAs (s : Sequence) (kind : Kind) :
    (s.elementsAs kind).length = s.length := by
  cases s <;> cases kind <;> simp [elementsAs, elements, length]

theorem get?_eq_getElem? (s : Sequence) (i : Nat) : s.get? i = s.elements[i]? := by
  cases s <;> simp [get?, elements]

end Sequence

/-! ## Comparing -/

mutual

/-- Same value: floats bit by bit, sequences element by element, however they are stored. -/
def Value.same : Value → Value → Bool
  | .int a, .int b => a == b
  | .float x, .float y => x == y
  | .seq s, .seq t => s.sameElements t.elements
  | _, _ => false

/-- Whether the elements of a sequence are the given values. -/
def Sequence.sameElements : Sequence → List Value → Bool
  | .ints xs, ys =>
    xs.length == ys.length && (xs.zip ys).all fun p => match p.2 with
      | .int b => p.1 == b
      | _ => false
  | .floats xs, ys =>
    xs.length == ys.length && (xs.zip ys).all fun p => match p.2 with
      | .float y => p.1 == y
      | _ => false
  | .objects xs, ys => sameAll xs ys

/-- Same values, pairwise. -/
def sameAll : List Value → List Value → Bool
  | [], [] => true
  | x :: xs, y :: ys => x.same y && sameAll xs ys
  | _, _ => false

end

mutual

/-- Equal as numbers compare: a NaN differs from itself, and sequences are stored alike. -/
def Value.equal : Value → Value → Bool
  | .int a, .int b => a == b
  | .float x, .float y => x.equal y
  | .seq s, .seq t => s.equal t
  | _, _ => false

/-- Equal sequences. -/
def Sequence.equal : Sequence → Sequence → Bool
  | .ints xs, .ints ys => xs == ys
  | .floats xs, .floats ys => xs.isEqv ys Binary64.equal
  | .objects xs, .objects ys => equalAll xs ys
  | _, _ => false

/-- Equal values, pairwise. -/
def equalAll : List Value → List Value → Bool
  | [], [] => true
  | x :: xs, y :: ys => x.equal y && equalAll xs ys
  | _, _ => false

end

end SeqCalc
