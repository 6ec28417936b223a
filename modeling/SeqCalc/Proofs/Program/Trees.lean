import Mathlib.Data.List.Flatten
import Mathlib.Data.List.Nodup
import Mathlib.Data.List.Perm.Subperm
import SeqCalc.Proofs.Program.Unfolding

/-!
# Trees that follow their tables

The statements of a sound program are trees grown from its node table.  Every node of such a tree
is a node of the table and has the children that the table says.  A node that is referred to twice
occurs in several places; in a forest no node is, and then no node occurs twice.

Main results:

- `SoundProgram.grown_of_mem_stmts`: the trees of a sound program follow its tables.
- `SoundProgram.nodup_ids_of_isForest`: no node of a forest occurs twice.
-/

namespace SeqCalc

/-! ## The nodes of a tree -/

namespace Expr

/-- The trees right below the root, from left to right. -/
def children : Expr → List Expr
  | .int _ _ | .float _ _ | .ident _ _ => []
  | .unary _ _ operand => [operand]
  | .lambda _ _ body => [body]
  | .binary _ _ left right => [left, right]
  | .range _ first last => [first, last]
  | .map _ seq function => [seq, function]
  | .reduce _ seq neutral function => [seq, neutral, function]

/-- All nodes of a tree, with repetitions, and each of them after those below it. -/
def ids : Expr → List NodeId
  | .int site _ | .float site _ | .ident site _ => [site.id]
  | .unary site _ operand => operand.ids ++ [site.id]
  | .lambda site _ body => body.ids ++ [site.id]
  | .binary site _ left right => left.ids ++ right.ids ++ [site.id]
  | .range site first last => first.ids ++ last.ids ++ [site.id]
  | .map site seq function => seq.ids ++ function.ids ++ [site.id]
  | .reduce site seq neutral function => seq.ids ++ neutral.ids ++ function.ids ++ [site.id]

theorem ids_eq (e : Expr) : e.ids = e.children.flatMap ids ++ [e.id] := by
  cases e <;> simp [ids, children, id, site]

end Expr

/-! ## Following a table -/

namespace Arena

/-- The nodes that the entry at a position of the node table refers to. -/
def childrenAt (a : Arena) (i : Nat) : List NodeId :=
  match a.nodes[i]? with
  | some node => node.kind.children
  | none => []

/-- Every node of the tree is in the table and has there the children that it has in the tree. -/
inductive Grown (a : Arena) : Expr → Prop
  | intro {e : Expr} :
      e.id.toNat < a.nodes.size → a.childrenAt e.id.toNat = e.children.map Expr.id →
      (∀ c ∈ e.children, Grown a c) → Grown a e

theorem Grown.lt_size {a : Arena} {e : Expr} (h : a.Grown e) :
    ∀ id ∈ e.ids, id.toNat < a.nodes.size := by
  induction h with
  | @intro e hlt _ _ ih =>
    intro id hid
    rw [Expr.ids_eq, List.mem_append, List.mem_flatMap, List.mem_singleton] at hid
    rcases hid with ⟨c, hc, hmem⟩ | rfl
    · exact ih c hc id hmem
    · exact hlt

/-- What stands at the children of a node is below its tree. -/
theorem Unfolds.children {a : Arena} {id : NodeId} {e : Expr} (h : a.Unfolds id e) :
    List.Forall₂ a.Unfolds (a.childrenAt id.toNat) e.children := by
  unfold childrenAt
  cases h with
  | int hnode | float hnode | ident hnode =>
    rw [hnode]
    exact .nil
  | unary hnode _ h | lambda hnode _ h =>
    rw [hnode]
    exact .cons h .nil
  | binary hnode _ _ h₁ h₂ | range hnode _ _ h₁ h₂ | map hnode _ _ h₁ h₂ =>
    rw [hnode]
    exact .cons h₁ (.cons h₂ .nil)
  | reduce hnode _ _ _ h₁ h₂ h₃ =>
    rw [hnode]
    exact .cons h₁ (.cons h₂ (.cons h₃ .nil))

theorem ids_of_unfolds {a : Arena} {ids : List NodeId} {es : List Expr}
    (h : List.Forall₂ a.Unfolds ids es) : ids = es.map Expr.id := by
  induction h with
  | nil => rfl
  | cons hroot _ ih => rw [List.map_cons, hroot.id_eq, ← ih]

theorem Grown.of_unfolds {a : Arena} {id : NodeId} {e : Expr} (h : a.Unfolds id e)
    (hbelow : ∀ c ∈ e.children, a.Grown c) : a.Grown e := by
  refine .intro ?_ ?_ hbelow
  · rw [h.id_eq]
    exact h.lt_size
  · rw [h.id_eq]
    exact ids_of_unfolds h.children

/-- Trees that unfold a table follow it. -/
theorem Unfolds.grown {a : Arena} {id : NodeId} {e : Expr} (h : a.Unfolds id e) : a.Grown e := by
  induction h with
  | int hnode => exact .of_unfolds (.int hnode) (by simp [Expr.children])
  | float hnode => exact .of_unfolds (.float hnode) (by simp [Expr.children])
  | ident hnode => exact .of_unfolds (.ident hnode) (by simp [Expr.children])
  | unary hnode hlt h ih => exact .of_unfolds (.unary hnode hlt h) (by simp [Expr.children, ih])
  | lambda hnode hlt h ih => exact .of_unfolds (.lambda hnode hlt h) (by simp [Expr.children, ih])
  | binary hnode hlt₁ hlt₂ h₁ h₂ ih₁ ih₂ =>
    exact .of_unfolds (.binary hnode hlt₁ hlt₂ h₁ h₂) (by simp [Expr.children, ih₁, ih₂])
  | range hnode hlt₁ hlt₂ h₁ h₂ ih₁ ih₂ =>
    exact .of_unfolds (.range hnode hlt₁ hlt₂ h₁ h₂) (by simp [Expr.children, ih₁, ih₂])
  | map hnode hlt₁ hlt₂ h₁ h₂ ih₁ ih₂ =>
    exact .of_unfolds (.map hnode hlt₁ hlt₂ h₁ h₂) (by simp [Expr.children, ih₁, ih₂])
  | reduce hnode hlt₁ hlt₂ hlt₃ h₁ h₂ h₃ ih₁ ih₂ ih₃ =>
    exact .of_unfolds (.reduce hnode hlt₁ hlt₂ hlt₃ h₁ h₂ h₃)
      (by simp [Expr.children, ih₁, ih₂, ih₃])

end Arena

/-! ## Statements -/

namespace Program

/-- The nodes that the statements refer to. -/
def roots (p : Program) : List NodeId :=
  p.stmts.toList.map fun s => s.kind.value

/-- All references to nodes, those of the statements and those of the node table. -/
def references (p : Program) : List NodeId :=
  p.roots ++ p.arena.nodes.toList.flatMap fun node => node.kind.children

/-- Every node is referred to at most once. -/
def IsForest (p : Program) : Prop :=
  p.references.Nodup

instance (p : Program) : Decidable p.IsForest :=
  inferInstanceAs (Decidable p.references.Nodup)

end Program

namespace SoundProgram

theorem roots_eq_and_grown (p : SoundProgram) :
    p.program.roots = (p.stmts.map Stmt.value).map Expr.id ∧
      ∀ s ∈ p.stmts, p.program.arena.Grown s.value := by
  have hvalues : List.Forall₂ p.program.arena.Unfolds p.program.roots
      (p.stmts.map Stmt.value) := by
    rw [Program.roots, List.forall₂_map_left_iff, List.forall₂_map_right_iff]
    exact p.unfolds_stmts.imp fun _ _ h => h.value
  refine ⟨Arena.ids_of_unfolds hvalues, ?_⟩
  intro s hs
  rcases p.exists_unfolds hs with ⟨n, hn⟩
  exact hn.value.grown

/-- The trees of a sound program follow its tables. -/
theorem grown_of_mem_stmts (p : SoundProgram) {s : Stmt} (h : s ∈ p.stmts) :
    p.program.arena.Grown s.value :=
  p.roots_eq_and_grown.2 s h

/-- All nodes of all statements, with repetitions. -/
def ids (p : SoundProgram) : List NodeId :=
  p.stmts.flatMap fun s => s.value.ids

end SoundProgram

/-! ## Forests -/

/-- Items whose images do not have `b` are not needed to count it. -/
theorem count_flatMap_filter {α β : Type} [BEq β] [LawfulBEq β] {f : α → List β} {q : α → Bool}
    {b : β} {xs : List α} (h : ∀ x ∈ xs, b ∈ f x → q x = true) :
    (xs.flatMap f).count b = ((xs.filter q).flatMap f).count b := by
  induction xs with
  | nil => rfl
  | cons x xs ih =>
    have hrest := ih fun y hy => h y (List.mem_cons_of_mem x hy)
    rw [List.flatMap_cons, List.count_append, hrest]
    cases hx : q x with
    | true => rw [List.filter_cons_of_pos hx, List.flatMap_cons, List.count_append]
    | false =>
      have hnone : (f x).count b = 0 := by
        rw [List.count_eq_zero]
        intro hb
        rw [h x (List.mem_cons_self) hb] at hx
        contradiction
      rw [List.filter_cons_of_neg (by simp [hx]), hnone, Nat.zero_add]

namespace Arena

/-- The nodes of trees are their roots and the children of their nodes. -/
theorem flatMap_ids_perm {a : Arena} {es : List Expr}
    (h : ∀ e ∈ es, e.ids.Perm (e.id :: e.ids.flatMap fun id => a.childrenAt id.toNat)) :
    (es.flatMap Expr.ids).Perm
      (es.map Expr.id ++ (es.flatMap Expr.ids).flatMap fun id => a.childrenAt id.toNat) := by
  rw [List.flatMap_assoc, List.map_eq_flatMap]
  apply (List.Perm.flatMap_left es h).trans
  exact (List.flatMap_append_perm es (fun e => [e.id]) _).symm

/-- A node of a tree is its root or a child of another node of the tree. -/
theorem Grown.ids_perm {a : Arena} {e : Expr} (h : a.Grown e) :
    e.ids.Perm (e.id :: e.ids.flatMap fun id => a.childrenAt id.toNat) := by
  induction h with
  | @intro e _ hchildren _ ih =>
    have hbelow := flatMap_ids_perm ih
    rw [← hchildren] at hbelow
    rw [Expr.ids_eq, List.flatMap_append, List.flatMap_singleton]
    refine (List.perm_append_singleton _ _).trans (.cons _ ?_)
    exact hbelow.trans List.perm_append_comm

theorem flatMap_childrenAt (a : Arena) :
    (List.range a.nodes.size).flatMap a.childrenAt =
      a.nodes.toList.flatMap fun node => node.kind.children := by
  rw [List.flatMap_def, List.flatMap_def]
  congr 1
  apply List.ext_getElem (by simp)
  intro i hi _
  have hlt : i < a.nodes.size := by simpa using hi
  simp [childrenAt, hlt]

/-- References in a list of different nodes are references of the table. -/
theorem count_children_le {a : Arena} {ids : List NodeId} (hnodup : ids.Nodup)
    (hlt : ∀ id ∈ ids, id.toNat < a.nodes.size) (child : NodeId) :
    (ids.flatMap fun id => a.childrenAt id.toNat).count child ≤
      (a.nodes.toList.flatMap fun node => node.kind.children).count child := by
  have hpositions : (ids.map NodeId.toNat).Nodup := by
    refine List.Pairwise.map _ ?_ hnodup
    intro x y hne hxy
    exact hne ((NodeId.eq_of_toNat hxy).trans (NodeId.eq_of_toNat rfl).symm)
  have hsub : ids.map NodeId.toNat ⊆ List.range a.nodes.size := by
    intro i hi
    rcases List.mem_map.1 hi with ⟨id, hid, rfl⟩
    exact List.mem_range.2 (hlt id hid)
  rcases List.subperm_of_subset hpositions hsub with ⟨l, hperm, hl⟩
  have hids : (ids.map NodeId.toNat).flatMap a.childrenAt =
      ids.flatMap fun id => a.childrenAt id.toNat := by
    rw [List.flatMap_map]
  rw [← flatMap_childrenAt, ← hids, ← (hperm.flatMap_right a.childrenAt).count_eq child]
  exact (hl.flatMap a.childrenAt).count_le child

/--
If different nodes refer to different ones, then no node occurs twice.  An occurrence of a node is a
root or a reference to it from an occurrence of a parent.  Parents stand above their children, so by
induction from the top of the table each parent occurs at most once, and the references to the node
are counted once each.
-/
theorem nodup_of_references {a : Arena} {roots ids : List NodeId} {bound : Nat}
    (hperm : ids.Perm (roots ++ ids.flatMap fun id => a.childrenAt id.toNat))
    (hbelow : ∀ i, ∀ c ∈ a.childrenAt i, c.toNat < i) (hbound : ∀ id ∈ ids, id.toNat < bound)
    (honce : ∀ parents : List NodeId, parents.Nodup → parents ⊆ ids →
      (roots ++ parents.flatMap fun id => a.childrenAt id.toNat).Nodup) : ids.Nodup := by
  rw [List.nodup_iff_count_le_one]
  suffices htop : ∀ m (id : NodeId), bound ≤ id.toNat + m → ids.count id ≤ 1 by
    exact fun id => htop _ id (Nat.le_add_left _ _)
  intro m
  induction m with
  | zero =>
    intro id hid
    rw [List.count_eq_zero.2]
    · exact Nat.zero_le 1
    · intro hmem
      have := hbound id hmem
      omega
  | succ m ih =>
    intro id hid
    have hparents : (ids.filter fun k => decide (id.toNat < k.toNat)).Nodup := by
      rw [List.nodup_iff_count_le_one]
      intro k
      by_cases hk : id.toNat < k.toNat
      · rw [List.count_filter (by simpa using hk)]
        exact ih k (by omega)
      · rw [List.count_eq_zero.2]
        · exact Nat.zero_le 1
        · simp [hk]
    have hlater : (ids.flatMap fun k => a.childrenAt k.toNat).count id =
        ((ids.filter fun k => decide (id.toNat < k.toNat)).flatMap
          fun k => a.childrenAt k.toNat).count id := by
      apply count_flatMap_filter
      intro k _ hk
      exact decide_eq_true (hbelow _ id hk)
    rw [hperm.count_eq, List.count_append, hlater, ← List.count_append]
    exact List.nodup_iff_count_le_one.1 (honce _ hparents (List.filter_subset_self _)) id

end Arena

namespace SoundProgram

theorem lt_of_mem_childrenAt (p : SoundProgram) {i : Nat} {c : NodeId}
    (h : c ∈ p.program.arena.childrenAt i) : c.toNat < i := by
  unfold Arena.childrenAt at h
  split at h
  · rename_i node hnode
    exact Program.children_lt_of_validate p.sound hnode h
  · simp at h

theorem ids_perm (p : SoundProgram) :
    p.ids.Perm
      (p.program.roots ++ p.ids.flatMap fun id => p.program.arena.childrenAt id.toNat) := by
  rcases p.roots_eq_and_grown with ⟨hroots, hgrown⟩
  have hids : p.ids = (p.stmts.map Stmt.value).flatMap Expr.ids := by
    rw [List.flatMap_map]
    rfl
  rw [hids, hroots]
  apply Arena.flatMap_ids_perm
  intro e he
  rcases List.mem_map.1 he with ⟨s, hs, rfl⟩
  exact (hgrown s hs).ids_perm

theorem lt_size_of_mem_ids (p : SoundProgram) {id : NodeId} (h : id ∈ p.ids) :
    id.toNat < p.program.arena.nodes.size := by
  rcases List.mem_flatMap.1 h with ⟨s, hs, hid⟩
  exact (p.grown_of_mem_stmts hs).lt_size id hid

/-- In a forest no node occurs twice. -/
theorem nodup_ids_of_isForest (p : SoundProgram) (h : p.program.IsForest) : p.ids.Nodup := by
  apply Arena.nodup_of_references p.ids_perm (fun _ _ => p.lt_of_mem_childrenAt)
    fun id => p.lt_size_of_mem_ids
  intro parents hparents hsub
  rw [List.nodup_iff_count_le_one]
  intro child
  have hcount := Arena.count_children_le hparents (fun k hk => p.lt_size_of_mem_ids (hsub hk)) child
  have hforest := List.nodup_iff_count_le_one.1 h child
  rw [Program.references, List.count_append] at hforest
  rw [List.count_append]
  omega

end SoundProgram
end SeqCalc
