import Mathlib.Data.List.Pairwise
import SeqCalc.Proofs.Program.Trees

/-!
# Reached nodes

From a node one reaches its children, their children and so on.  In a sound program the way leads
down the table, and it goes through the nodes of the tree that is grown from there.  A node stands
alone if no node that it reaches is referred to twice by the nodes that it reaches; what is shared
elsewhere does not matter.

Main results:

- `Arena.Unfolds.mem_ids_iff`: the nodes of a tree are those that its root reaches.
- `SoundProgram.reaches_le`: nodes are not reached from below.
- `SoundProgram.standsAlone_iff`: a node stands alone exactly if no node occurs twice in its tree.
-/

namespace SeqCalc
namespace Arena

/-! ## Reaching -/

/-- One node is reached from another through references to children. -/
inductive Reaches (a : Arena) (root : NodeId) : NodeId → Prop
  | root : Reaches a root root
  | child {parent child : NodeId} :
      Reaches a root parent → child ∈ a.childrenAt parent.toNat → Reaches a root child

variable {a : Arena} {root id : NodeId}

theorem Reaches.of_child {child : NodeId} (hchild : child ∈ a.childrenAt root.toNat)
    (h : a.Reaches child id) : a.Reaches root id := by
  induction h with
  | root => exact .child .root hchild
  | child _ hmem ih => exact .child ih hmem

/-- Every node of a tree that follows the table is reached from its root. -/
theorem Grown.reaches {e : Expr} (h : a.Grown e) : ∀ id ∈ e.ids, a.Reaches e.id id := by
  induction h with
  | @intro e _ hchildren _ ih =>
    intro id hid
    rw [Expr.ids_eq, List.mem_append, List.mem_flatMap, List.mem_singleton] at hid
    rcases hid with ⟨c, hc, hmem⟩ | rfl
    · refine (ih c hc id hmem).of_child ?_
      rw [hchildren]
      exact List.mem_map_of_mem hc
    · exact .root

/-- The nodes of a tree that follows the table are its root and the children of its nodes. -/
theorem Grown.mem_ids_of_reaches {e : Expr} (h : a.Grown e) (hreach : a.Reaches e.id id) :
    id ∈ e.ids := by
  induction hreach with
  | root =>
    rw [Expr.ids_eq]
    exact List.mem_append_right _ List.mem_cons_self
  | child _ hchild ih =>
    rw [h.ids_perm.mem_iff]
    exact List.mem_cons_of_mem _ (List.mem_flatMap.2 ⟨_, ih, hchild⟩)

/-- The nodes of a tree are those that its root reaches. -/
theorem Unfolds.mem_ids_iff {e : Expr} (h : a.Unfolds root e) : id ∈ e.ids ↔ a.Reaches root id := by
  have hroot := h.id_eq
  constructor
  · intro hid
    rw [← hroot]
    exact h.grown.reaches id hid
  · intro hreach
    rw [← hroot] at hreach
    exact h.grown.mem_ids_of_reaches hreach

/-! ## Standing alone -/

/-- Among the nodes that are reached from `root`, no node is referred to twice. -/
structure StandsAlone (a : Arena) (root : NodeId) : Prop where
  /-- No node refers twice to one. -/
  nodup_children : ∀ parent, a.Reaches root parent → (a.childrenAt parent.toNat).Nodup
  /-- No two nodes refer to the same one. -/
  eq_of_mem : ∀ i j child, a.Reaches root i → a.Reaches root j →
    child ∈ a.childrenAt i.toNat → child ∈ a.childrenAt j.toNat → i = j

theorem StandsAlone.nodup_flatMap (h : a.StandsAlone root) {parents : List NodeId}
    (hnodup : parents.Nodup) (hreach : ∀ id ∈ parents, a.Reaches root id) :
    (parents.flatMap fun id => a.childrenAt id.toNat).Nodup := by
  rw [List.nodup_flatMap]
  refine ⟨fun id hid => h.nodup_children id (hreach id hid), ?_⟩
  refine hnodup.imp_of_mem ?_
  intro i j hi hj hne child hci hcj
  exact hne (h.eq_of_mem i j child (hreach i hi) (hreach j hj) hci hcj)

end Arena

namespace SoundProgram

variable {p : SoundProgram} {root id : NodeId}

/-- Nodes are not reached from below. -/
theorem reaches_le (h : p.program.arena.Reaches root id) : id.toNat ≤ root.toNat := by
  induction h with
  | root => exact Nat.le_refl _
  | child _ hchild ih => exact Nat.le_trans (Nat.le_of_lt (p.lt_of_mem_childrenAt hchild)) ih

theorem lt_of_mem_children {parent child : NodeId} (h : p.program.arena.Reaches root parent)
    (hchild : child ∈ p.program.arena.childrenAt parent.toNat) : child.toNat < root.toNat :=
  Nat.lt_of_lt_of_le (p.lt_of_mem_childrenAt hchild) (reaches_le h)

/-- A node stands alone if and only if no node occurs twice in its tree. -/
theorem standsAlone_iff {e : Expr} (h : p.program.arena.Unfolds root e) :
    p.program.arena.StandsAlone root ↔ e.ids.Nodup := by
  have hperm := h.grown.ids_perm
  rw [h.id_eq] at hperm
  constructor
  · intro halone
    have hbound : ∀ id ∈ e.ids, id.toNat < root.toNat + 1 := fun id hid =>
      Nat.lt_succ_of_le (reaches_le (h.mem_ids_iff.1 hid))
    refine @Arena.nodup_of_references _ [root] _ _ hperm (fun _ _ => p.lt_of_mem_childrenAt)
      hbound ?_
    intro parents hparents hsub
    have hreach : ∀ id ∈ parents, p.program.arena.Reaches root id := fun id hid =>
      h.mem_ids_iff.1 (hsub hid)
    refine List.nodup_cons.2 ⟨?_, halone.nodup_flatMap hparents hreach⟩
    intro hroot
    rcases List.mem_flatMap.1 hroot with ⟨parent, hparent, hchild⟩
    exact Nat.lt_irrefl _ (lt_of_mem_children (hreach parent hparent) hchild)
  · intro hnodup
    have hchildren := (List.nodup_cons.1 (hperm.nodup_iff.1 hnodup)).2
    rw [List.nodup_flatMap] at hchildren
    have : Std.Symm (Function.onFun List.Disjoint fun id : NodeId =>
        p.program.arena.childrenAt id.toNat) := ⟨fun _ _ h _ hi hj => h hj hi⟩
    constructor
    · intro parent hparent
      exact hchildren.1 parent (h.mem_ids_iff.2 hparent)
    · intro i j child hi hj hci hcj
      by_contra hne
      exact hchildren.2.forall (h.mem_ids_iff.2 hi) (h.mem_ids_iff.2 hj) hne hci hcj

end SoundProgram
end SeqCalc
