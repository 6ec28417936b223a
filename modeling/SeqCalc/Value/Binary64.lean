/-!
# Binary64 floats

A float is its sixty-four bits.  Two floats are the same if their bits are; as numbers they compare
by value, so a NaN differs from itself and the two zeros are equal.  Storing a float and reading it
back keeps every bit, also those of a NaN, and negation flips the sign bit alone.

Main results:

- `Binary64.neg_neg`: negation is its own inverse, bit by bit.
- `Binary64.isNaN_neg`: it neither makes a NaN nor takes one away.
-/

namespace SeqCalc

/-- A double-precision float, given by its bits. -/
structure Binary64 where
  bits : UInt64
deriving DecidableEq, Repr, Inhabited

namespace Binary64

/-! ## Bits and numbers -/

/-- The number of a float; all NaNs become one. -/
def toFloat (x : Binary64) : Float :=
  Float.ofBits x.bits

/-- The bits of a computed number. -/
def ofFloat (x : Float) : Binary64 :=
  ⟨x.toBits⟩

/-- Positive zero. -/
def zero : Binary64 :=
  ⟨0⟩

/-- The bit that holds the sign. -/
def signBit : UInt64 :=
  0x8000000000000000

/-- The bits of positive infinity: a full exponent and an empty fraction. -/
def infinityBits : UInt64 :=
  0x7ff0000000000000

/-- Whether the exponent is full and the fraction is not empty. -/
def isNaN (x : Binary64) : Bool :=
  decide (infinityBits < x.bits &&& ~~~signBit)

/-- Equal as numbers. -/
def equal (x y : Binary64) : Bool :=
  x.toFloat == y.toFloat

/-! ## Arithmetic -/

instance : Add Binary64 :=
  ⟨fun x y => ofFloat (x.toFloat + y.toFloat)⟩

instance : Sub Binary64 :=
  ⟨fun x y => ofFloat (x.toFloat - y.toFloat)⟩

instance : Mul Binary64 :=
  ⟨fun x y => ofFloat (x.toFloat * y.toFloat)⟩

instance : Div Binary64 :=
  ⟨fun x y => ofFloat (x.toFloat / y.toFloat)⟩

instance : Neg Binary64 :=
  ⟨fun x => ⟨x.bits ^^^ signBit⟩⟩

def pow (base exp : Binary64) : Binary64 :=
  ofFloat (base.toFloat ^ exp.toFloat)

@[simp]
theorem bits_neg (x : Binary64) : (-x).bits = x.bits ^^^ signBit :=
  rfl

@[simp]
protected theorem neg_neg (x : Binary64) : - -x = x := by
  change Binary64.mk (x.bits ^^^ signBit ^^^ signBit) = x
  rw [UInt64.xor_assoc, UInt64.xor_self, UInt64.xor_zero]

/-- Flipping a bit does not show where that bit is masked out. -/
theorem xor_and_not (bits mask : UInt64) : (bits ^^^ mask) &&& ~~~mask = bits &&& ~~~mask := by
  apply UInt64.toBitVec_inj.1
  ext i hi
  simp only [UInt64.toBitVec_and, UInt64.toBitVec_xor, UInt64.toBitVec_not, BitVec.getElem_and,
    BitVec.getElem_xor, BitVec.getElem_not]
  cases bits.toBitVec[i] <;> cases mask.toBitVec[i] <;> rfl

@[simp]
theorem isNaN_neg (x : Binary64) : (-x).isNaN = x.isNaN := by
  simp [isNaN, xor_and_not]

/-! ## Integers -/

/-- The float nearest to an integer. -/
def ofInt64 (n : Int64) : Binary64 :=
  ofFloat n.toFloat

/-- A float truncated toward zero, clamped to the range of integers; a NaN becomes zero. -/
def toInt64 (x : Binary64) : Int64 :=
  x.toFloat.toInt64

end Binary64
end SeqCalc
