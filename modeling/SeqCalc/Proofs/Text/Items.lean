/-!
# Lists in brackets

The items of a list stand between commas, and an item may be a list itself.  A comma outside of all
brackets only separates, so that the items can be cut out of the joined text again, one after the
other.

Main results:

- `Passes.bracket`: brackets around a text shield its commas.
- `intercalate_inj`: joined items can be told apart.
-/

namespace SeqCalc

/-! ## Items -/

/-- How many brackets are open behind a character. -/
def openBehind (c : Char) (depth : Nat) : Nat :=
  if c = '[' then depth + 1 else if c = ']' then depth - 1 else depth

/-- What stands before the first comma outside of brackets, where `depth` of them are open. -/
def firstItem (depth : Nat) : List Char → List Char
  | [] => []
  | c :: rest => if c = ',' ∧ depth = 0 then [] else c :: firstItem (openBehind c depth) rest

/-- A text that opens as many brackets as it closes, all commas of it at `least` open ones. -/
def Passes (least : Nat) (text : List Char) : Prop :=
  ∀ depth rest, least ≤ depth → firstItem depth (text ++ rest) = text ++ firstItem depth rest

theorem Passes.mono {m n : Nat} {text : List Char} (h : Passes m text) (hle : m ≤ n) :
    Passes n text :=
  fun depth rest hdepth => h depth rest (Nat.le_trans hle hdepth)

theorem Passes.append {least : Nat} {xs ys : List Char} (hx : Passes least xs)
    (hy : Passes least ys) : Passes least (xs ++ ys) := by
  intro depth rest hdepth
  rw [List.append_assoc, hx depth _ hdepth, hy depth rest hdepth, List.append_assoc]

theorem passes_nil (least : Nat) : Passes least [] :=
  fun _ _ _ => rfl

/-- Neither a bracket nor a comma. -/
def IsPlain (c : Char) : Prop :=
  c ≠ '[' ∧ c ≠ ']' ∧ c ≠ ','

theorem passes_of_plain {text : List Char} (h : ∀ c ∈ text, IsPlain c) : Passes 0 text := by
  intro depth rest _
  induction text with
  | nil => rfl
  | cons c text ih =>
    rcases h c List.mem_cons_self with ⟨hopen, hclose, hcomma⟩
    have hrest := ih fun d hd => h d (List.mem_cons_of_mem c hd)
    rw [List.cons_append, firstItem, if_neg (fun hand => hcomma hand.1), openBehind,
      if_neg hopen, if_neg hclose, hrest, List.cons_append]

/-- Within brackets a comma ends nothing. -/
theorem passes_comma : Passes 1 [','] := by
  intro depth rest hdepth
  have hinside : ¬ (',' = ',' ∧ depth = 0) := by omega
  rw [List.singleton_append, firstItem, if_neg hinside]
  rfl

/-- Brackets around a text shield its commas. -/
theorem Passes.bracket {inner : List Char} (h : Passes 1 inner) :
    Passes 0 ('[' :: inner ++ [']']) := by
  intro depth rest _
  have hopen : ¬ ('[' = ',' ∧ depth = 0) := fun hand => absurd hand.1 (by decide)
  have hclose : ¬ (']' = ',' ∧ depth + 1 = 0) := fun hand => absurd hand.1 (by decide)
  rw [List.cons_append, List.cons_append, firstItem, if_neg hopen, List.append_assoc]
  change '[' :: firstItem (depth + 1) (inner ++ ([']'] ++ rest)) = _
  rw [h (depth + 1) _ (Nat.le_add_left 1 depth), List.singleton_append, firstItem, if_neg hclose]
  simp [openBehind]

/-! ## Joined items -/

/-- What stands between two items. -/
def separator : List Char :=
  [',', ' ']

theorem passes_separator : Passes 1 separator :=
  passes_comma.append ((passes_of_plain (by simp [IsPlain])).mono (Nat.zero_le 1))

theorem passes_intercalate {items : List (List Char)} (h : ∀ item ∈ items, Passes 0 item) :
    Passes 1 (separator.intercalate items) := by
  induction items with
  | nil => exact passes_nil 1
  | cons x items ih =>
    have hx : Passes 1 x := (h x List.mem_cons_self).mono (Nat.zero_le 1)
    cases items with
    | nil =>
      rw [List.intercalate_singleton]
      exact hx
    | cons y items =>
      rw [List.intercalate_cons_cons]
      exact (hx.append passes_separator).append
        (ih fun item hitem => h item (List.mem_cons_of_mem x hitem))

/-- The first of several items ends at the comma behind it. -/
theorem firstItem_intercalate {x : List Char} (hx : Passes 0 x) (items : List (List Char)) :
    firstItem 0 (separator.intercalate (x :: items)) = x := by
  cases items with
  | nil =>
    have hpass := hx 0 [] (Nat.le_refl 0)
    rw [List.append_nil] at hpass
    rw [List.intercalate_singleton, hpass, firstItem, List.append_nil]
  | cons y items =>
    rw [List.intercalate_cons_cons, List.append_assoc, hx 0 _ (Nat.le_refl 0)]
    simp [separator, firstItem]

theorem intercalate_ne_nil {x : List Char} (hx : x ≠ []) (items : List (List Char)) :
    separator.intercalate (x :: items) ≠ [] := by
  cases items with
  | nil => simpa [List.intercalate_singleton] using hx
  | cons y items => simp [List.intercalate_cons_cons, hx]

/-- Joined items can be told apart. -/
theorem intercalate_inj {xs ys : List (List Char)} (hx : ∀ x ∈ xs, Passes 0 x ∧ x ≠ [])
    (hy : ∀ y ∈ ys, Passes 0 y ∧ y ≠ [])
    (h : separator.intercalate xs = separator.intercalate ys) : xs = ys := by
  induction xs generalizing ys with
  | nil =>
    cases ys with
    | nil => rfl
    | cons y ys => exact absurd h.symm (intercalate_ne_nil (hy y List.mem_cons_self).2 ys)
  | cons x xs ih =>
    cases ys with
    | nil => exact absurd h (intercalate_ne_nil (hx x List.mem_cons_self).2 xs)
    | cons y ys =>
      have hfirst : x = y := by
        have hcut := congrArg (firstItem 0) h
        rwa [firstItem_intercalate (hx x List.mem_cons_self).1,
          firstItem_intercalate (hy y List.mem_cons_self).1] at hcut
      subst hfirst
      have hxs : ∀ z ∈ xs, Passes 0 z ∧ z ≠ [] := fun z hz => hx z (List.mem_cons_of_mem x hz)
      have hys : ∀ z ∈ ys, Passes 0 z ∧ z ≠ [] := fun z hz => hy z (List.mem_cons_of_mem x hz)
      -- with the first item off, either both are at their end or a separator follows in both
      cases xs with
      | nil =>
        cases ys with
        | nil => rfl
        | cons y ys => simp [List.intercalate_cons_cons, separator] at h
      | cons x' xs =>
        cases ys with
        | nil => simp [List.intercalate_cons_cons, separator] at h
        | cons y' ys =>
          rw [List.intercalate_cons_cons, List.intercalate_cons_cons, List.append_cancel_left_eq]
            at h
          rw [ih hxs hys h]

end SeqCalc
