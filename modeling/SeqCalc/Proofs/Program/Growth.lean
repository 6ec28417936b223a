import SeqCalc.Proofs.Program.Unfolding
import SeqCalc.Proofs.Program.Validity

/-!
# Tables that grow

Tables are only ever appended to.  What a reference leads to stays where it is, so that a node whose
references all lead somewhere keeps its tree, whatever the tables are extended by.

Main results:

- `Arena.Unfolds.extend`: a tree unfolds every extension of its table.
- `Arena.tree?_eq_some_iff`: a table has the trees that unfold it, and no others.
-/

namespace SeqCalc
namespace Arena

/-! ## Extensions -/

/-- Each table of `b` begins with that of `a`. -/
structure Extends (a b : Arena) : Prop where
  nodes : a.nodes.toList <+: b.nodes.toList
  names : a.names.toList <+: b.names.toList
  params : a.params.toList <+: b.params.toList

variable {a b c : Arena}

theorem Extends.refl (a : Arena) : a.Extends a :=
  ⟨List.prefix_rfl, List.prefix_rfl, List.prefix_rfl⟩

theorem Extends.trans (h : a.Extends b) (h' : b.Extends c) : a.Extends c :=
  ⟨h.nodes.trans h'.nodes, h.names.trans h'.names, h.params.trans h'.params⟩

theorem getElem?_of_initial {α : Type} {xs ys : Array α} (h : xs.toList <+: ys.toList) {i : Nat}
    (hi : i < xs.size) : ys[i]? = xs[i]? := by
  rcases h with ⟨more, hmore⟩
  rw [← Array.getElem?_toList, ← hmore, List.getElem?_append_left (by simpa using hi),
    Array.getElem?_toList]

theorem size_le_of_initial {α : Type} {xs ys : Array α} (h : xs.toList <+: ys.toList) :
    xs.size ≤ ys.size := by
  simpa using h.length_le

theorem Extends.node (h : a.Extends b) {i : Nat} {node : Node} (hnode : a.nodes[i]? = some node) :
    b.nodes[i]? = some node := by
  rw [getElem?_of_initial h.nodes (Array.getElem?_eq_some_iff.1 hnode).1, hnode]

theorem Extends.name_eq (h : a.Extends b) {n : NameId} (hn : n.toNat < a.names.size) :
    b.name n = a.name n := by
  rw [name, name, Array.getD_eq_getD_getElem?, Array.getD_eq_getD_getElem?,
    getElem?_of_initial h.names hn]

theorem Extends.paramNames_eq (h : a.Extends b) {r : ParamRange} (hr : r.stop ≤ a.params.size) :
    b.paramNames r = a.paramNames r := by
  have hstart : r.start.toNat ≤ a.params.toList.length := by
    rw [Array.length_toList]
    exact Nat.le_trans (Nat.le_add_right _ _) hr
  have hcount : r.count.toNat ≤ (a.params.toList.drop r.start.toNat).length := by
    rw [List.length_drop, Array.length_toList]
    unfold ParamRange.stop at hr
    omega
  have hr' : r.stop ≤ b.params.size := Nat.le_trans hr (size_le_of_initial h.params)
  rcases h.params with ⟨more, hmore⟩
  rw [paramNames, paramNames, if_pos hr, if_pos hr', ← hmore,
    List.drop_append_of_le_length hstart, List.take_append_of_le_length hcount]

/-! ## References that lead somewhere -/

/-- All references of the nodes lead where they should. -/
def Closed (a : Arena) : Prop :=
  ∀ i node, a.nodes[i]? = some node → ∀ r ∈ a.nodeReferences i node, r.Resolves a

theorem Extends.resolves (h : a.Extends b) {r : Reference} (hr : r.Resolves a) : r.Resolves b := by
  cases r with
  | child parent id => exact hr
  | value stmt id => exact Nat.lt_of_lt_of_le hr (size_le_of_initial h.nodes)
  | name id => exact Nat.lt_of_lt_of_le hr (size_le_of_initial h.names)
  | params range => exact Nat.le_trans hr (size_le_of_initial h.params)

/-- A node whose references lead somewhere has the same ones in an extension. -/
theorem Extends.nodeReferences_eq (h : a.Extends b) {i : Nat} {node : Node}
    (hnode : ∀ r ∈ a.nodeReferences i node, r.Resolves a) :
    b.nodeReferences i node = a.nodeReferences i node := by
  unfold nodeReferences at hnode ⊢
  cases hk : node.kind with
  | lambda range body =>
    rw [hk] at hnode
    have hrange : range.stop ≤ a.params.size := hnode (.params range) (by simp)
    simp only [h.paramNames_eq hrange]
  | int | float | ident | unary | binary | range | map | reduce => rfl

theorem Extends.closed (h : a.Extends b) (ha : a.Closed) (hnodes : b.nodes = a.nodes) :
    b.Closed := by
  intro i node hnode r hr
  rw [hnodes] at hnode
  rw [h.nodeReferences_eq (ha i node hnode)] at hr
  exact h.resolves (ha i node hnode r hr)

/-- The arena with one more node. -/
def withNode (a : Arena) (node : Node) : Arena :=
  { a with nodes := a.nodes.push node }

theorem extends_withNode (a : Arena) (node : Node) : a.Extends (a.withNode node) := by
  refine ⟨?_, List.prefix_rfl, List.prefix_rfl⟩
  rw [withNode, Array.toList_push]
  exact List.prefix_append _ _

theorem Closed.withNode (h : a.Closed) {node : Node}
    (hnode : ∀ r ∈ a.nodeReferences a.nodes.size node, r.Resolves a) :
    (a.withNode node).Closed := by
  have hext := a.extends_withNode node
  intro i other hother r hr
  rw [Arena.withNode, Array.getElem?_push] at hother
  split at hother
  · rename_i hi
    obtain rfl := Option.some.inj hother
    rw [hi, hext.nodeReferences_eq hnode] at hr
    exact hext.resolves (hnode r hr)
  · rw [hext.nodeReferences_eq (h i other hother)] at hr
    exact hext.resolves (h i other hother r hr)

/-! ## Trees -/

/-- A tree unfolds every extension of its table. -/
theorem Unfolds.extend {id : NodeId} {e : Expr} (h : a.Unfolds id e) (ha : a.Closed)
    (hab : a.Extends b) : b.Unfolds id e := by
  induction h with
  | int hnode => exact .int (hab.node hnode)
  | float hnode => exact .float (hab.node hnode)
  | @ident id span name hnode =>
    have hname : name.toNat < a.names.size :=
      ha _ _ hnode (.name name) (by simp [nodeReferences])
    rw [← hab.name_eq hname]
    exact .ident (hab.node hnode)
  | unary hnode hlt _ ih => exact .unary (hab.node hnode) hlt ih
  | binary hnode hlt hlt' _ _ ih ih' => exact .binary (hab.node hnode) hlt hlt' ih ih'
  | range hnode hlt hlt' _ _ ih ih' => exact .range (hab.node hnode) hlt hlt' ih ih'
  | map hnode hlt hlt' _ _ ih ih' => exact .map (hab.node hnode) hlt hlt' ih ih'
  | reduce hnode hlt hlt' hlt'' _ _ _ ih ih' ih'' =>
    exact .reduce (hab.node hnode) hlt hlt' hlt'' ih ih' ih''
  | @lambda id body span params e hnode hlt _ ih =>
    have hparams : params.stop ≤ a.params.size :=
      ha _ _ hnode (.params params) (by simp [nodeReferences])
    have hnames : (a.paramNames params).map a.name = (b.paramNames params).map b.name := by
      rw [hab.paramNames_eq hparams]
      refine List.map_congr_left fun name hname => (hab.name_eq ?_).symm
      exact ha _ _ hnode (.name name) (by simp [nodeReferences, hname])
    rw [hnames]
    exact .lambda (hab.node hnode) hlt ih

theorem growAll_append (a : Arena) (xs ys : List Node) (trees : Array (Option Expr)) :
    a.growAll trees (xs ++ ys) = a.growAll (a.growAll trees xs) ys := by
  induction xs generalizing trees with
  | nil => rfl
  | cons x xs ih => exact ih _

/-- Trees that have been grown stay. -/
theorem treeAt_growAll (a : Arena) (nodes : List Node) {trees : Array (Option Expr)} {id : NodeId}
    (h : id.toNat < trees.size) : treeAt (a.growAll trees nodes) id = treeAt trees id := by
  induction nodes generalizing trees with
  | nil => rfl
  | cons node nodes ih =>
    rw [growAll, ih (by rw [Array.size_push]; omega), treeAt_push, if_neg (by omega)]

/-- The tree of a node is grown from the trees of the nodes below it. -/
theorem tree?_eq_grow {id : NodeId} {node : Node} (hnode : a.nodes[id.toNat]? = some node) :
    ∃ trees : Array (Option Expr), trees.size = id.toNat ∧ a.tree? id = a.grow trees node ∧
      ∀ child : NodeId, child.toNat < id.toNat → treeAt trees child = a.tree? child := by
  rw [← Array.getElem?_toList] at hnode
  obtain ⟨hlt, hget⟩ := List.getElem?_eq_some_iff.1 hnode
  have hsplit : a.nodes.toList =
      a.nodes.toList.take id.toNat ++ node :: a.nodes.toList.drop (id.toNat + 1) := by
    rw [← hget, ← List.drop_eq_getElem_cons hlt, List.take_append_drop]
  -- what is grown before the node, and then with it
  let below := a.growAll #[] (a.nodes.toList.take id.toNat)
  have hbelow : below.size = id.toNat := by
    rw [size_growAll, List.length_take, Nat.min_eq_left (Nat.le_of_lt hlt)]
    exact Nat.zero_add _
  have htrees : a.trees =
      a.growAll (below.push (a.grow below node)) (a.nodes.toList.drop (id.toNat + 1)) := by
    rw [trees, hsplit, growAll_append, growAll, ← hsplit]
  have hkept : ∀ child : NodeId, child.toNat ≤ id.toNat →
      a.tree? child = treeAt (below.push (a.grow below node)) child := by
    intro child hchild
    rw [tree?, htrees, treeAt_growAll]
    rw [Array.size_push, hbelow]
    exact Nat.lt_succ_of_le hchild
  refine ⟨below, hbelow, ?_, fun child hchild => ?_⟩
  · rw [hkept id (Nat.le_refl _), treeAt_push, if_pos hbelow.symm]
  · rw [hkept child (Nat.le_of_lt hchild), treeAt_push, if_neg (by omega)]

/-- A table has the trees that unfold it, and no others. -/
theorem tree?_eq_some_iff {id : NodeId} {e : Expr} : a.tree? id = some e ↔ a.Unfolds id e := by
  refine ⟨unfolds_of_tree?, fun h => ?_⟩
  induction h with
  | int hnode | float hnode | ident hnode =>
    obtain ⟨trees, hsize, htree, -⟩ := tree?_eq_grow hnode
    rw [htree, NodeId.eq_of_toNat hsize.symm]
    rfl
  | unary hnode hlt _ ih | lambda hnode hlt _ ih =>
    obtain ⟨trees, hsize, htree, hbelow⟩ := tree?_eq_grow hnode
    rw [htree, NodeId.eq_of_toNat hsize.symm]
    simp [grow, hbelow _ hlt, ih]
  | binary hnode hlt hlt' _ _ ih ih' | range hnode hlt hlt' _ _ ih ih'
  | map hnode hlt hlt' _ _ ih ih' =>
    obtain ⟨trees, hsize, htree, hbelow⟩ := tree?_eq_grow hnode
    rw [htree, NodeId.eq_of_toNat hsize.symm]
    simp [grow, hbelow _ hlt, hbelow _ hlt', ih, ih']
  | reduce hnode hlt hlt' hlt'' _ _ _ ih ih' ih'' =>
    obtain ⟨trees, hsize, htree, hbelow⟩ := tree?_eq_grow hnode
    rw [htree, NodeId.eq_of_toNat hsize.symm]
    simp [grow, hbelow _ hlt, hbelow _ hlt', hbelow _ hlt'', ih, ih', ih'']

end Arena

/-! ## Statements -/

theorem StmtNode.Unfolds.extend {a b : Arena} {n : StmtNode} {s : Stmt} (h : n.Unfolds a s)
    (ha : a.Closed) (hab : a.Extends b)
    (hname : ∀ name value, n.kind = .define name value → name.toNat < a.names.size) :
    n.Unfolds b s := by
  refine ⟨h.value.extend ha hab, ?_, h.span⟩
  rw [h.target]
  cases hk : n.kind with
  | define name value => simp only [hab.name_eq (hname name value hk)]
  | print value => rfl

theorem mapM_of_forall₂ {α β : Type} {f : α → Option β} {xs : List α} {ys : List β}
    (h : List.Forall₂ (fun x y => f x = some y) xs ys) : xs.mapM f = some ys := by
  induction h with
  | nil => rfl
  | cons hxy _ ih => simp [List.mapM_cons, hxy, ih]

/-- The statements of a program are those that unfold its statement table. -/
theorem Program.resolve?_eq_some {p : Program} {stmts : List Stmt}
    (h : List.Forall₂ (StmtNode.Unfolds p.arena) p.stmts.toList stmts) :
    p.resolve? = some stmts := by
  refine mapM_of_forall₂ (h.imp fun n s hn => ?_)
  have hvalue : Arena.treeAt p.arena.trees n.kind.value = some s.value :=
    Arena.tree?_eq_some_iff.2 hn.value
  rw [StmtNode.resolve?, hvalue, Option.map_some]
  rcases s with ⟨target, value, span⟩
  rw [Option.some.injEq, Stmt.mk.injEq]
  exact ⟨hn.target.symm, rfl, hn.span.symm⟩

end SeqCalc
