import SeqCalc.Code.Interp

/-!
# Computations that may fail

Evaluation either gives a value or stops at the first fault.  A computation yields values with a
property if it gives such a value or else fails for a reason that lies in the operands of its
arithmetic, and not in the evaluator.

Main results:

- `Yields.bind`, `Yields.mapM`, `Yields.foldlM`: computations that yield values, one after another.
- `Mode.yields_reduceM`: a fold in any mode yields what its step keeps.
- `Arith.yields_intOp`, `Range.yields_elements`: the operations that can fail at all.
-/

namespace SeqCalc

@[simp]
theorem ok_bind {ε α β : Type} (a : α) (f : α → Except ε β) : (Except.ok a >>= f) = f a :=
  rfl

@[simp]
theorem error_bind {ε α β : Type} (e : ε) (f : α → Except ε β) :
    (Except.error e >>= f) = .error e :=
  rfl

/-! ## Faults of arithmetic -/

/-- A fault that the operands of an operation are the cause of. -/
def Fault.IsArithmetic : Fault → Prop
  | .divisionByZero | .rangeOverflow _ _ _ => True
  | _ => False

theorem Fault.IsArithmetic.not_isInternal {e : Fault} (h : e.IsArithmetic) :
    e.isInternal = false := by
  cases e <;> first | rfl | exact h.elim

/-- A computation that gives a value with a property, unless there is a fault of arithmetic. -/
def Yields {α : Type} (P : α → Prop) : Except Fault α → Prop
  | .ok a => P a
  | .error e => e.IsArithmetic

namespace Yields

variable {α β : Type} {P : α → Prop} {Q : β → Prop}

theorem bind {x : Except Fault α} {f : α → Except Fault β} (hx : Yields P x)
    (hf : ∀ a, P a → Yields Q (f a)) : Yields Q (x >>= f) := by
  cases x with
  | ok a => exact hf a hx
  | error e => exact hx

theorem map {x : Except Fault α} {f : α → β} (hx : Yields P x) (hf : ∀ a, P a → Q (f a)) :
    Yields Q (f <$> x) := by
  cases x with
  | ok a => exact hf a hx
  | error e => exact hx

/-- Results of a function on all items of a list. -/
theorem mapM {f : α → Except Fault β} {xs : List α} (h : ∀ a ∈ xs, Yields Q (f a)) :
    Yields (fun ys => ∀ b ∈ ys, Q b) (xs.mapM f) := by
  induction xs with
  | nil =>
    intro b hb
    contradiction
  | cons x xs ih =>
    rw [List.mapM_cons]
    apply (h x List.mem_cons_self).bind
    intro b hb
    refine (ih fun a ha => h a (List.mem_cons_of_mem x ha)).bind ?_
    intro bs hbs c hc
    rcases List.mem_cons.1 hc with rfl | hc
    · exact hb
    · exact hbs c hc

/-- If what is done with the results cannot fail, it may be done to all of them at the end. -/
theorem mapM_bind {γ : Type} {f : α → Except Fault β} {g : β → Except Fault γ} {k : β → γ}
    {xs : List α} (h : ∀ a ∈ xs, Yields Q (f a)) (hg : ∀ b, Q b → g b = .ok (k b)) :
    xs.mapM (fun a => f a >>= g) = List.map k <$> xs.mapM f := by
  induction xs with
  | nil => rfl
  | cons x xs ih =>
    have hrest := ih fun a ha => h a (List.mem_cons_of_mem x ha)
    rw [List.mapM_cons, List.mapM_cons, hrest]
    cases hx : f x with
    | error e => rfl
    | ok b =>
      have hb : Q b := by
        have := h x List.mem_cons_self
        rwa [hx] at this
      rw [ok_bind, ok_bind, hg b hb, ok_bind]
      cases xs.mapM f <;> rfl

/-- A fold whose step keeps a property of the accumulator. -/
theorem foldlM {f : β → α → Except Fault β} {xs : List α} {b : β} (hb : Q b)
    (h : ∀ a ∈ xs, ∀ b, Q b → Yields Q (f b a)) : Yields Q (xs.foldlM f b) := by
  induction xs generalizing b with
  | nil => exact hb
  | cons x xs ih =>
    rw [List.foldlM_cons]
    apply (h x List.mem_cons_self b hb).bind
    intro c hc
    exact ih hc fun a ha => h a (List.mem_cons_of_mem x ha)

end Yields

theorem Bracketing.yields_combine {α : Type} {P : α → Prop} {op : α → α → Except Fault α}
    (hop : ∀ a b, P a → P b → Yields P (op a b)) (t : Bracketing α) (h : ∀ a ∈ t.leaves, P a) :
    Yields P (t.combine op) := by
  induction t with
  | item a => exact h a (List.mem_singleton.2 rfl)
  | pair left right ihl ihr =>
    refine (ihl fun a ha => h a (List.mem_append_left _ ha)).bind ?_
    intro a ha
    refine (ihr fun b hb => h b (List.mem_append_right _ hb)).bind ?_
    intro b hb
    exact hop a b ha hb

theorem Mode.yields_reduceM {α : Type} {P : α → Prop} {op : α → α → Except Fault α} (mode : Mode)
    (hop : ∀ a b, P a → P b → Yields P (op a b)) {neutral : α} (hn : P neutral) {xs : List α}
    (hxs : ∀ a ∈ xs, P a) : Yields P (mode.reduceM op neutral xs) := by
  unfold Mode.reduceM
  split
  · cases xs with
    | nil => exact hn
    | cons a rest =>
      have hleaves : ∀ b ∈ (Bracketing.balanced a rest).leaves, P b := by
        rw [Bracketing.leaves_balanced]
        exact hxs
      apply (Bracketing.yields_combine hop _ hleaves).bind
      intro b hb
      exact hop neutral b hn hb
  · exact Yields.foldlM hn fun a ha b hb => hop b a hb (hxs a ha)

/-! ## Operations -/

theorem Arith.yields_intOp (op : BinaryOp) (a b : Int64) :
    Yields (fun _ => True) (Arith.intOp op a b) := by
  cases op with
  | add | sub | mul => trivial
  | div =>
    rw [Arith.intOp, Arith.intDiv]
    split <;> trivial
  | pow =>
    rw [Arith.intOp, Arith.intPow]
    repeat' split
    all_goals trivial

theorem Range.yields_elements (closed : Bool) (first last : Int64) :
    Yields (fun _ => True) (Range.elements closed first last) := by
  have hmaterialize : ∀ a b, Yields (fun _ => True) (Range.materialize a b) := by
    intro a b
    unfold Range.materialize
    dsimp only
    split <;> trivial
  unfold Range.elements Range.closed Range.halfOpen
  split <;> split
  · trivial
  · exact hmaterialize _ _
  · trivial
  · exact hmaterialize _ _

end SeqCalc
