import SeqCalc.Value.Fault

/-!
# Traversals

`map` and `reduce` go over a sequence from left to right, or, from some length on, in parallel.  A
parallel map answers as the sequential one.  A parallel reduce puts brackets around the elements
in an order-preserving way of its choice and takes the neutral element in at the left end, once.

Main results:

- `Bracketing.leaves_balanced`: the chosen bracketing has exactly the elements, in order.
-/

namespace SeqCalc

/-! ## Modes -/

/-- How sequences are traversed. -/
inductive Mode where
  | sequential
  /-- In parallel from `minLength` elements on. -/
  | parallel (minLength : Nat)
deriving DecidableEq, Repr, Inhabited

namespace Mode

/-- The length from which parallel work pays, unless told otherwise. -/
def defaultThreshold : Nat :=
  1024

/-- Whether a sequence of a given length is traversed in parallel. -/
def isParallelFor : Mode → Nat → Bool
  | sequential, _ => false
  | parallel minLength, length => decide (minLength ≤ length)

/-- The length from which work is parallel, if it ever is. -/
def threshold? : Mode → Option Nat
  | sequential => none
  | parallel minLength => some minLength

end Mode

/-! ## Bracketings -/

/-- A way to put brackets around a non-empty list of items. -/
inductive Bracketing (α : Type) where
  | item (a : α)
  | pair (left right : Bracketing α)
deriving Repr

namespace Bracketing

variable {α : Type}

/-- The items from left to right. -/
def leaves : Bracketing α → List α
  | item a => [a]
  | pair left right => left.leaves ++ right.leaves

/-- Combine the items as the brackets say, the left part of a pair first. -/
def combine {m : Type → Type} [Monad m] (op : α → α → m α) : Bracketing α → m α
  | item a => pure a
  | pair left right => do
    let a ← left.combine op
    let b ← right.combine op
    op a b

/-- Brackets around `a :: xs` that halve the list again and again. -/
def balanced (a : α) (xs : List α) : Bracketing α :=
  match hx : xs.drop (xs.length / 2) with
  | [] => .item a
  | b :: ys => .pair (balanced a (xs.take (xs.length / 2))) (balanced b ys)
termination_by xs.length
decreasing_by
  · have h := congrArg List.length hx
    simp only [List.length_drop, List.length_cons] at h
    simp only [List.length_take]
    omega
  · have h := congrArg List.length hx
    simp only [List.length_drop, List.length_cons] at h
    omega

theorem leaves_balanced (a : α) (xs : List α) : (balanced a xs).leaves = a :: xs := by
  fun_induction balanced a xs with
  | case1 a xs hx =>
    have h := congrArg List.length hx
    simp only [List.length_drop, List.length_nil] at h
    have : xs = [] := List.eq_nil_of_length_eq_zero (by omega)
    simp [leaves, this]
  | case2 a xs b ys hx ih₁ ih₂ =>
    simp only [leaves, ih₁, ih₂, List.cons_append, List.cons.injEq, true_and]
    rw [← hx]
    exact List.take_append_drop _ _

end Bracketing

/-! ## Traversals -/

namespace Mode

variable {m : Type → Type} [Monad m] {α β : Type}

/-- Apply `f` to every item in order; the first failure is the answer. -/
@[specialize]
def mapM (_mode : Mode) (f : α → m β) (xs : List α) : m (List β) :=
  xs.mapM f

/-- Fold the items into `neutral` from the left, or, in parallel, by the bracketing of the items. -/
@[specialize]
def reduceM (mode : Mode) (op : α → α → m α) (neutral : α) (xs : List α) : m α :=
  if mode.isParallelFor xs.length then
    match xs with
    | [] => pure neutral
    | a :: rest => do
      let partly ← (Bracketing.balanced a rest).combine op
      op neutral partly
  else
    xs.foldlM op neutral

end Mode

/-! ## Traversing sequences -/

namespace Sequence

/-- Apply `f` to every element and store the results as elements of the given kind. -/
def mapM (mode : Mode) (kind : Kind) (f : Value → Except Fault Value) (s : Sequence) :
    Except Fault Sequence :=
  match kind with
  | .int => .ints <$> mode.mapM (fun v => f v >>= Value.asInt) s.elements
  | .float => .floats <$> mode.mapM (fun v => f v >>= Value.asFloat) s.elements
  | .object => .objects <$> mode.mapM f s.elements

/-- Fold all elements into `neutral`, after converting them to its kind. -/
def reduceM (mode : Mode) (op : Value → Value → Except Fault Value) (neutral : Value)
    (s : Sequence) : Except Fault Value :=
  mode.reduceM op neutral (s.elementsAs neutral.kind)

end Sequence
end SeqCalc
