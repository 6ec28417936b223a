import Mathlib.Data.List.Perm.Basic
import SeqCalc.Program.Expr
import SeqCalc.Proofs.Program.Validity

/-!
# Programs with two statements exchanged

Two adjacent statements of a program change places; the node table and the other tables stay as they
are.  What a program without flaws is checked for does not depend on the order of its statements.

Main results:

- `exchange_perm`, `map_exchange`: exchanged items, and their images.
- `SoundProgram.stmts_exchanged`: the trees of the statements are exchanged with them.
-/

namespace SeqCalc

/-! ## Lists -/

/-- The list in which the items at `i` and `i + 1` have changed places, if it has both. -/
def exchange {α : Type} : Nat → List α → List α
  | 0, x :: y :: rest => y :: x :: rest
  | i + 1, x :: rest => x :: exchange i rest
  | _, xs => xs

section Lists

variable {α β : Type}

@[simp]
theorem exchange_nil (i : Nat) : exchange i ([] : List α) = [] := by
  cases i <;> rfl

@[simp]
theorem exchange_singleton (x : α) : exchange 0 [x] = [x] :=
  rfl

@[simp]
theorem exchange_zero (x y : α) (rest : List α) : exchange 0 (x :: y :: rest) = y :: x :: rest :=
  rfl

@[simp]
theorem exchange_succ (i : Nat) (x : α) (rest : List α) :
    exchange (i + 1) (x :: rest) = x :: exchange i rest :=
  rfl

theorem map_exchange (f : α → β) (i : Nat) (xs : List α) :
    (exchange i xs).map f = exchange i (xs.map f) := by
  induction xs generalizing i with
  | nil => simp
  | cons x rest ih =>
    cases i with
    | succ i => simp [ih]
    | zero => cases rest <;> rfl

theorem exchange_perm (i : Nat) (xs : List α) : (exchange i xs).Perm xs := by
  induction xs generalizing i with
  | nil => simp
  | cons x rest ih =>
    cases i with
    | succ i => exact (ih i).cons x
    | zero =>
      cases rest with
      | nil => exact .refl _
      | cons y rest => exact .swap x y rest

/-- Items are exchanged before or after they are read. -/
theorem mapM_exchange (f : α → Option β) (i : Nat) (xs : List α) :
    (exchange i xs).mapM f = (xs.mapM f).map (exchange i) := by
  induction xs generalizing i with
  | nil => simp
  | cons x rest ih =>
    cases i with
    | succ i =>
      rw [exchange_succ, List.mapM_cons, List.mapM_cons, ih]
      cases f x <;> cases rest.mapM f <;> simp
    | zero =>
      cases rest with
      | nil => cases h : f x <;> simp [h]
      | cons y rest =>
        rw [exchange_zero]
        simp only [List.mapM_cons]
        cases f x <;> cases f y <;> cases rest.mapM f <;> simp

end Lists

/-! ## Programs -/

/-- The program in which the statements at `i` and `i + 1` have changed places. -/
def Program.exchanged (p : Program) (i : Nat) : Program :=
  { p with stmts := (exchange i p.stmts.toList).toArray }

theorem Program.mem_stmts_exchanged {p : Program} {i : Nat} {s : StmtNode} :
    s ∈ (p.exchanged i).stmts ↔ s ∈ p.stmts := by
  rw [exchanged, List.mem_toArray, (exchange_perm i p.stmts.toList).mem_iff, Array.mem_toList_iff]

theorem Program.validate_exchanged {p : Program} (h : p.validate = []) (i : Nat) :
    (p.exchanged i).validate = [] := by
  rw [validate_eq_nil_iff] at h ⊢
  exact
    { children_lt := h.children_lt
      ident_lt := h.ident_lt
      params_le := h.params_le
      param_lt := h.param_lt
      value_lt := fun s hs => h.value_lt s (mem_stmts_exchanged.1 hs)
      target_lt := fun s hs => h.target_lt s (mem_stmts_exchanged.1 hs) }

namespace SoundProgram

/-- The sound program in which the statements at `i` and `i + 1` have changed places. -/
def exchanged (p : SoundProgram) (i : Nat) : SoundProgram :=
  ⟨p.program.exchanged i, Program.validate_exchanged p.sound i⟩

/-- The trees of the statements change places with them. -/
theorem stmts_exchanged (p : SoundProgram) (i : Nat) :
    (p.exchanged i).stmts = exchange i p.stmts := by
  have hresolve : p.program.resolve? = some p.stmts := (Option.some_get p.isSome_resolve?).symm
  apply Option.get_of_eq_some
  change (exchange i p.program.stmts.toList).mapM _ = _
  rw [mapM_exchange]
  change p.program.resolve?.map _ = _
  rw [hresolve]
  rfl

end SoundProgram
end SeqCalc
