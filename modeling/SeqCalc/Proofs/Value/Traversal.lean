import Mathlib.Data.List.Forall2
import SeqCalc.Proofs.Value.Computation
import SeqCalc.Value.Arith

/-!
# Traversals in parallel

A parallel fold puts its brackets where it likes, as long as the items stay in order, and takes the
start value in once, at the left end.  An associative operation that never fails does not notice,
and the start value need not be neutral for it.  A parallel map gives all results in order, or else
the failure of some item, which need not be the first one that fails.

Main results:

- `Bracketing.op_fold`: brackets make no difference to an associative operation.
- `mapM_eq_ok_iff`, `mapM_eq_error_iff`: what a map in order answers with.
- `Mode.traversals_agree`: parallel traversals against sequential ones.
-/

namespace SeqCalc

/-! ## Brackets -/

namespace Bracketing

variable {α : Type}

/-- The items of a bracketing, combined by an operation that cannot fail. -/
def fold (op : α → α → α) : Bracketing α → α
  | item a => a
  | pair left right => op (left.fold op) (right.fold op)

/-- An operation that never fails combines without failing. -/
theorem combine_eq_pure {m : Type → Type} [Monad m] [LawfulMonad m] {op : α → α → m α}
    {g : α → α → α} (h : ∀ a b, op a b = pure (g a b)) (t : Bracketing α) :
    t.combine op = pure (t.fold g) := by
  induction t with
  | item a => rfl
  | pair left right ihl ihr => rw [combine, ihl, pure_bind, ihr, pure_bind, h, fold]

/--
Brackets make no difference to an associative operation.  The start value is generalized over, so
that the right part of a pair is folded into what the left part has come to.
-/
theorem op_fold {op : α → α → α} (hassoc : ∀ a b c, op (op a b) c = op a (op b c))
    (t : Bracketing α) (start : α) : op start (t.fold op) = t.leaves.foldl op start := by
  induction t generalizing start with
  | item a => rfl
  | pair left right ihl ihr =>
    calc
      op start (op (left.fold op) (right.fold op))
          = op (op start (left.fold op)) (right.fold op) := (hassoc _ _ _).symm
      _ = right.leaves.foldl op (left.leaves.foldl op start) := by rw [ihl, ihr]
      _ = (left.leaves ++ right.leaves).foldl op start := List.foldl_append.symm

/-- What can stand around some items: a bracketing that has them in order, or nothing at all. -/
def Around (xs : List α) : Option (Bracketing α) → Prop
  | none => xs = []
  | some t => t.leaves = xs

instance [DecidableEq α] (xs : List α) (brackets : Option (Bracketing α)) :
    Decidable (Around xs brackets) :=
  match brackets with
  | none => inferInstanceAs (Decidable (xs = []))
  | some t => inferInstanceAs (Decidable (t.leaves = xs))

end Bracketing

/-! ## Folds -/

namespace Mode

section Folds

variable {m : Type → Type} [Monad m] {α : Type}

/-- A fold that, where it is parallel, brackets the items as it is told. -/
def reduceAs (mode : Mode) (op : α → α → m α) (neutral : α) (xs : List α)
    (brackets : Option (Bracketing α)) : m α :=
  if mode.isParallelFor xs.length then
    match brackets with
    | none => pure neutral
    | some t => do
      let partly ← t.combine op
      op neutral partly
  else
    xs.foldlM op neutral

/-- The fold of a mode is one that brackets the items in some way. -/
theorem exists_reduceM_eq (mode : Mode) (op : α → α → m α) (neutral : α) (xs : List α) :
    ∃ brackets, Bracketing.Around xs brackets ∧
      mode.reduceM op neutral xs = mode.reduceAs op neutral xs brackets := by
  cases xs with
  | nil => exact ⟨none, rfl, rfl⟩
  | cons a rest => exact ⟨some (.balanced a rest), Bracketing.leaves_balanced a rest, rfl⟩

/-- However it is bracketed, a fold by an associative operation is the fold from the left. -/
theorem reduceAs_eq_pure [LawfulMonad m] (mode : Mode) {op : α → α → m α} {g : α → α → α}
    (hop : ∀ a b, op a b = pure (g a b)) (hassoc : ∀ a b c, g (g a b) c = g a (g b c))
    (neutral : α) {xs : List α} {brackets : Option (Bracketing α)}
    (h : Bracketing.Around xs brackets) :
    mode.reduceAs op neutral xs brackets = pure (xs.foldl g neutral) := by
  unfold reduceAs
  split
  · cases brackets with
    | none =>
      have hnil : xs = [] := h
      subst hnil
      rfl
    | some t =>
      have hleaves : t.leaves = xs := h
      dsimp only
      rw [Bracketing.combine_eq_pure hop, pure_bind, hop, Bracketing.op_fold hassoc, hleaves]
  · have hpure : op = fun a b => pure (g a b) := funext fun a => funext fun b => hop a b
    rw [hpure, List.foldlM_pure]

end Folds

end Mode

/-! ## Maps -/

section Maps

variable {ε α β : Type} {f : α → Except ε β} {xs : List α}

/-- A map in order succeeds with the results of all items. -/
theorem mapM_eq_ok_iff {ys : List β} :
    xs.mapM f = .ok ys ↔ List.Forall₂ (fun x y => f x = .ok y) xs ys := by
  induction xs generalizing ys with
  | nil =>
    rw [List.forall₂_nil_left_iff]
    exact ⟨fun h => by cases h; rfl, fun h => by cases h; rfl⟩
  | cons x xs ih =>
    rw [List.mapM_cons, List.forall₂_cons_left_iff]
    cases hx : f x with
    | error e => simp
    | ok y =>
      cases hxs : xs.mapM f with
      | error e =>
        have hrest : ∀ zs, ¬List.Forall₂ (fun x y => f x = .ok y) xs zs := by
          intro zs hzs
          rw [← ih, hxs] at hzs
          contradiction
        simp [hrest]
      | ok zs =>
        have hrest : ∀ us, List.Forall₂ (fun x y => f x = .ok y) xs us ↔ zs = us := by
          intro us
          rw [← ih, hxs, Except.ok.injEq]
        simp [hrest, pure, Except.pure, eq_comm]

/-- A map in order succeeds if every item has a result. -/
theorem exists_mapM_eq_ok {R : α → β → Prop} (h : ∀ x ∈ xs, ∃ y, f x = .ok y ∧ R x y) :
    ∃ ys, xs.mapM f = .ok ys ∧ List.Forall₂ R xs ys := by
  induction xs with
  | nil => exact ⟨[], rfl, .nil⟩
  | cons x xs ih =>
    rcases h x List.mem_cons_self with ⟨y, hx, hy⟩
    rcases ih fun a ha => h a (List.mem_cons_of_mem x ha) with ⟨ys, hxs, hys⟩
    exact ⟨y :: ys, by rw [List.mapM_cons, hx, ok_bind, hxs]; rfl, .cons hy hys⟩

/-- The item at a position fails. -/
def FailsAt (f : α → Except ε β) (xs : List α) (i : Nat) (e : ε) : Prop :=
  ∃ x, xs[i]? = some x ∧ f x = .error e

@[simp]
theorem failsAt_cons_zero {x : α} {e : ε} : FailsAt f (x :: xs) 0 e ↔ f x = .error e := by
  simp [FailsAt]

@[simp]
theorem failsAt_cons_succ {x : α} {i : Nat} {e : ε} :
    FailsAt f (x :: xs) (i + 1) e ↔ FailsAt f xs i e := by
  simp [FailsAt]

/-- A map in order fails as the first item that fails. -/
theorem mapM_eq_error_iff {e : ε} :
    xs.mapM f = .error e ↔ ∃ i, FailsAt f xs i e ∧ ∀ j < i, ∀ e', ¬FailsAt f xs j e' := by
  induction xs with
  | nil => simp [FailsAt, pure, Except.pure]
  | cons x xs ih =>
    rw [List.mapM_cons]
    cases hx : f x with
    | error e' =>
      rw [error_bind, Except.error.injEq]
      constructor
      · rintro rfl
        exact ⟨0, failsAt_cons_zero.2 hx, by simp⟩
      · rintro ⟨i, hfail, hbefore⟩
        -- nothing can come before the item in front
        cases i with
        | zero =>
          rw [failsAt_cons_zero, hx, Except.error.injEq] at hfail
          exact hfail
        | succ i => exact absurd (failsAt_cons_zero.2 hx) (hbefore 0 (Nat.succ_pos i) e')
    | ok y =>
      have hrest : (Except.ok y >>= fun b => xs.mapM f >>= fun bs => pure (b :: bs)) =
          Except.error e ↔ xs.mapM f = .error e := by
        cases xs.mapM f <;> simp [pure, Except.pure]
      rw [hrest, ih]
      constructor
      · rintro ⟨i, hfail, hbefore⟩
        refine ⟨i + 1, failsAt_cons_succ.2 hfail, ?_⟩
        intro j hj e'
        cases j with
        | zero => simp [hx]
        | succ j => simpa using hbefore j (by omega) e'
      · rintro ⟨i, hfail, hbefore⟩
        cases i with
        | zero => simp [hx] at hfail
        | succ i =>
          refine ⟨i, failsAt_cons_succ.1 hfail, ?_⟩
          intro j hj e'
          simpa using hbefore (j + 1) (by omega) e'

/-- What collecting the results of all items in parallel may answer with. -/
inductive Collects (f : α → Except ε β) (xs : List α) : Except ε (List β) → Prop
  | results {ys : List β} :
      List.Forall₂ (fun x y => f x = .ok y) xs ys → Collects f xs (.ok ys)
  | failure {i : Nat} {e : ε} : FailsAt f xs i e → Collects f xs (.error e)

/-- What a map may answer with in a mode. -/
inductive Mode.Maps (mode : Mode) (f : α → Except ε β) (xs : List α) :
    Except ε (List β) → Prop
  | inOrder : mode.isParallelFor xs.length = false → Maps mode f xs (xs.mapM f)
  | inParallel {r : Except ε (List β)} :
      mode.isParallelFor xs.length = true → Collects f xs r → Maps mode f xs r

/-- A map in order is among the answers of a parallel one. -/
theorem collects_mapM (f : α → Except ε β) (xs : List α) : Collects f xs (xs.mapM f) := by
  cases h : xs.mapM f with
  | ok ys => exact .results (mapM_eq_ok_iff.1 h)
  | error e =>
    rcases mapM_eq_error_iff.1 h with ⟨i, hfail, -⟩
    exact .failure hfail

theorem Mode.maps_mapM (mode : Mode) (f : α → Except ε β) (xs : List α) :
    mode.Maps f xs (mode.mapM f xs) := by
  cases h : mode.isParallelFor xs.length with
  | false => exact .inOrder h
  | true => exact .inParallel h (collects_mapM f xs)

theorem Mode.Maps.collects {mode : Mode} {r : Except ε (List β)} (h : mode.Maps f xs r) :
    Collects f xs r := by
  cases h with
  | inOrder _ => exact collects_mapM f xs
  | inParallel _ hr => exact hr

/-- Collecting succeeds exactly when a map in order does, and then with the same results. -/
theorem Collects.eq_ok_iff {r : Except ε (List β)} (h : Collects f xs r) {ys : List β} :
    r = .ok ys ↔ xs.mapM f = .ok ys := by
  cases h with
  | results hzs => rw [mapM_eq_ok_iff.2 hzs]
  | @failure i e hfails =>
    rcases hfails with ⟨x, hx, hfail⟩
    refine ⟨fun hr => by contradiction, fun hok => ?_⟩
    -- the failing item would have a result
    have hlen := (List.getElem?_eq_some_iff.1 hx).1
    have hpair := (mapM_eq_ok_iff.1 hok).get hlen ((mapM_eq_ok_iff.1 hok).length_eq ▸ hlen)
    simp only [List.get_eq_getElem, (List.getElem?_eq_some_iff.1 hx).2, hfail] at hpair
    contradiction

end Maps

/-! ## Both modes -/

namespace Mode

/--
Parallel traversals agree with sequential ones, whatever the threshold.  A fold by an associative
operation that never fails is the fold from the left, however a parallel fold brackets the items;
wrapping addition and multiplication are such operations.  A map succeeds in parallel exactly when
it does in order, and with the same results.  In order it fails as the first failing item, and in
parallel as some failing item.
-/
theorem traversals_agree {α β : Type} (mode : Mode) :
    (∀ (op : α → α → Except Fault α) (g : α → α → α), (∀ a b, op a b = .ok (g a b)) →
      (∀ a b c, g (g a b) c = g a (g b c)) → ∀ neutral xs brackets,
        Bracketing.Around xs brackets →
          mode.reduceAs op neutral xs brackets = .ok (xs.foldl g neutral) ∧
            mode.reduceM op neutral xs = .ok (xs.foldl g neutral) ∧
            sequential.reduceM op neutral xs = .ok (xs.foldl g neutral)) ∧
      (∀ neutral xs brackets, Bracketing.Around xs brackets →
        mode.reduceAs (Arith.intOp .add) neutral xs brackets = .ok (xs.foldl (· + ·) neutral) ∧
          mode.reduceAs (Arith.intOp .mul) neutral xs brackets =
            .ok (xs.foldl (· * ·) neutral)) ∧
      ∀ (f : α → Except Fault β) (xs : List α),
        mode.Maps f xs (mode.mapM f xs) ∧
        (∀ e, sequential.mapM f xs = .error e ↔
          ∃ i, FailsAt f xs i e ∧ ∀ j < i, ∀ e', ¬FailsAt f xs j e') ∧
        ∀ r, mode.Maps f xs r →
          (∀ ys, r = .ok ys ↔ sequential.mapM f xs = .ok ys) ∧
            ∀ e, r = .error e → ∃ i, FailsAt f xs i e := by
  refine ⟨?_, ?_, ?_⟩
  · intro op g hop hassoc neutral xs brackets h
    rcases mode.exists_reduceM_eq op neutral xs with ⟨own, hown, hmode⟩
    rcases sequential.exists_reduceM_eq op neutral xs with ⟨other, hother, hsequential⟩
    rw [hmode, hsequential]
    exact ⟨mode.reduceAs_eq_pure hop hassoc neutral h,
      mode.reduceAs_eq_pure hop hassoc neutral hown,
      sequential.reduceAs_eq_pure hop hassoc neutral hother⟩
  · intro neutral xs brackets h
    exact ⟨mode.reduceAs_eq_pure (fun _ _ => rfl) Int64.add_assoc neutral h,
      mode.reduceAs_eq_pure (fun _ _ => rfl) Int64.mul_assoc neutral h⟩
  · intro f xs
    refine ⟨mode.maps_mapM f xs, fun e => mapM_eq_error_iff, ?_⟩
    intro r hr
    refine ⟨fun ys => hr.collects.eq_ok_iff, ?_⟩
    rintro e rfl
    cases hr.collects with
    | failure hfails => exact ⟨_, hfails⟩

/-- Joining lists, which is not commutative, from a start value that is not neutral for it. -/
theorem traversals_agree_append :
    (∀ a b : List Nat, (Except.ok (a ++ b) : Except Fault (List Nat)) = .ok (a ++ b)) ∧
      (∀ a b c : List Nat, a ++ b ++ c = a ++ (b ++ c)) ∧
      Bracketing.Around [[1], [2], [3]] (some (.pair (.item [1]) (.pair (.item [2]) (.item [3])))) ∧
      (parallel 2).reduceAs (fun a b => (Except.ok (a ++ b) : Except Fault (List Nat))) [0]
          [[1], [2], [3]] (some (.pair (.item [1]) (.pair (.item [2]) (.item [3])))) =
        .ok [0, 1, 2, 3] ∧
      (parallel 2).Maps (Arith.intDiv 60) [4, 0, 5, 0] (.error .divisionByZero) ∧
      ∀ ys, sequential.mapM (Arith.intDiv 60) [4, 0, 5, 0] ≠ .ok ys := by
  have hmaps : (parallel 2).Maps (Arith.intDiv 60) [4, 0, 5, 0] (.error .divisionByZero) :=
    .inParallel rfl (.failure (i := 3) ⟨0, rfl, rfl⟩)
  have hfold := (traversals_agree (α := List Nat) (β := Unit) (parallel 2)).1
    (fun a b => .ok (a ++ b)) (· ++ ·) (fun _ _ => rfl) List.append_assoc [0] [[1], [2], [3]]
    (some (.pair (.item [1]) (.pair (.item [2]) (.item [3])))) rfl
  have hmap := ((traversals_agree (α := Int64) (β := Int64) (parallel 2)).2.2
    (Arith.intDiv 60) [4, 0, 5, 0]).2.2 _ hmaps
  refine ⟨fun _ _ => rfl, List.append_assoc, rfl, hfold.1, hmaps, ?_⟩
  intro ys hys
  have := (hmap.1 ys).2 hys
  contradiction

end Mode
end SeqCalc
