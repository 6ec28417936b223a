import SeqCalc.Program.Workspace
import SeqCalc.Program.Validity

/-!
# Expression trees

What a program means does not depend on its tables: each node stands for a tree, in which
references are replaced by the trees they lead to and names by their texts.  Every tree node keeps
its site, that is the node it was grown from and its span.  A node that several parents share is
grown once and occurs in the tree of each.

Main results:

- `Arena.isSome_of_mem_trees`: in a sound program every node has a tree.
- `SoundProgram.stmts`: hence every sound program has its statements.
-/

namespace SeqCalc

/-! ## Trees -/

/-- Where a tree node comes from. -/
structure Site where
  id : NodeId
  span : Span
deriving DecidableEq, Repr, Inhabited

/-- An expression. -/
inductive Expr where
  | int (site : Site) (value : Int64)
  | float (site : Site) (bits : UInt64)
  | ident (site : Site) (name : String)
  | binary (site : Site) (op : BinaryOp) (left right : Expr)
  | unary (site : Site) (op : UnaryOp) (operand : Expr)
  | range (site : Site) (first last : Expr)
  | map (site : Site) (seq function : Expr)
  | reduce (site : Site) (seq neutral function : Expr)
  | lambda (site : Site) (params : List String) (body : Expr)
deriving DecidableEq, Repr, Inhabited

namespace Expr

def site : Expr → Site
  | .int site _ | .float site _ | .ident site _ | .binary site _ _ _ | .unary site _ _
  | .range site _ _ | .map site _ _ | .reduce site _ _ _ | .lambda site _ _ => site

def id (e : Expr) : NodeId :=
  e.site.id

def span (e : Expr) : Span :=
  e.site.span

end Expr

/-- A statement over trees. -/
structure Stmt where
  /-- The name that the value is bound to; a statement without one prints. -/
  target : Option String
  value : Expr
  span : Span
deriving DecidableEq, Repr, Inhabited

/-! ## Growing trees -/

namespace Arena

/-- The tree that stands at a position, if one has been grown. -/
def treeAt (trees : Array (Option Expr)) (id : NodeId) : Option Expr :=
  trees[id.toNat]?.join

/-- The tree of the next node, from the trees of all earlier ones. -/
def grow (a : Arena) (trees : Array (Option Expr)) (node : Node) : Option Expr :=
  let site : Site := ⟨⟨tableIndex trees.size⟩, node.span⟩
  match node.kind with
  | .int value => some (.int site value)
  | .float bits => some (.float site bits)
  | .ident name => some (.ident site (a.name name))
  | .binary op left right => do
    return .binary site op (← treeAt trees left) (← treeAt trees right)
  | .unary op operand => do
    return .unary site op (← treeAt trees operand)
  | .range first last => do
    return .range site (← treeAt trees first) (← treeAt trees last)
  | .map seq function => do
    return .map site (← treeAt trees seq) (← treeAt trees function)
  | .reduce seq neutral function => do
    return .reduce site (← treeAt trees seq) (← treeAt trees neutral) (← treeAt trees function)
  | .lambda params body => do
    return .lambda site ((a.paramNames params).map a.name) (← treeAt trees body)

/-- Grow the trees of `nodes` behind those that are there already. -/
def growAll (a : Arena) (trees : Array (Option Expr)) : List Node → Array (Option Expr)
  | [] => trees
  | node :: rest => a.growAll (trees.push (a.grow trees node)) rest

/-- The tree of every node; none where a reference leads nowhere. -/
def trees (a : Arena) : Array (Option Expr) :=
  a.growAll #[] a.nodes.toList

/-- The tree of one node. -/
def tree? (a : Arena) (id : NodeId) : Option Expr :=
  treeAt a.trees id

theorem isSome_treeAt {trees : Array (Option Expr)} (hall : ∀ t ∈ trees, t.isSome) {id : NodeId}
    (h : id.toNat < trees.size) : (treeAt trees id).isSome := by
  simp only [treeAt, Array.getElem?_eq_getElem h, Option.join_some]
  exact hall _ (Array.getElem_mem h)

theorem isSome_grow (a : Arena) {trees : Array (Option Expr)} (hall : ∀ t ∈ trees, t.isSome)
    {node : Node} (hc : ∀ c ∈ node.kind.children, c.toNat < trees.size) :
    (a.grow trees node).isSome := by
  have found : ∀ c ∈ node.kind.children, ∃ t, treeAt trees c = some t := fun c hm =>
    Option.isSome_iff_exists.1 (isSome_treeAt hall (hc c hm))
  cases hk : node.kind with
  | int | float | ident => simp [grow, hk]
  | unary op operand =>
    obtain ⟨t, ht⟩ := found operand (by simp [hk, NodeKind.children])
    simp [grow, hk, ht]
  | lambda params body =>
    obtain ⟨t, ht⟩ := found body (by simp [hk, NodeKind.children])
    simp [grow, hk, ht]
  | binary op left right =>
    obtain ⟨l, hl⟩ := found left (by simp [hk, NodeKind.children])
    obtain ⟨r, hr⟩ := found right (by simp [hk, NodeKind.children])
    simp [grow, hk, hl, hr]
  | range first last =>
    obtain ⟨f, hf⟩ := found first (by simp [hk, NodeKind.children])
    obtain ⟨l, hl⟩ := found last (by simp [hk, NodeKind.children])
    simp [grow, hk, hf, hl]
  | map seq function =>
    obtain ⟨s, hs⟩ := found seq (by simp [hk, NodeKind.children])
    obtain ⟨f, hf⟩ := found function (by simp [hk, NodeKind.children])
    simp [grow, hk, hs, hf]
  | reduce seq neutral function =>
    obtain ⟨s, hs⟩ := found seq (by simp [hk, NodeKind.children])
    obtain ⟨n, hn⟩ := found neutral (by simp [hk, NodeKind.children])
    obtain ⟨f, hf⟩ := found function (by simp [hk, NodeKind.children])
    simp [grow, hk, hs, hn, hf]

theorem size_growAll (a : Arena) (nodes : List Node) (trees : Array (Option Expr)) :
    (a.growAll trees nodes).size = trees.size + nodes.length := by
  induction nodes generalizing trees with
  | nil => rfl
  | cons node rest ih =>
    rw [growAll, ih, Array.size_push, List.length_cons]
    omega

theorem isSome_growAll (a : Arena) (nodes : List Node) {trees : Array (Option Expr)}
    (hall : ∀ t ∈ trees, t.isSome)
    (hc : ∀ i node, nodes[i]? = some node → ∀ c ∈ node.kind.children, c.toNat < trees.size + i) :
    ∀ t ∈ a.growAll trees nodes, t.isSome := by
  induction nodes generalizing trees with
  | nil => exact hall
  | cons node rest ih =>
    refine ih ?_ ?_
    · intro t ht
      rcases Array.mem_push.1 ht with h | rfl
      · exact hall t h
      · exact a.isSome_grow hall fun c hm => by simpa using hc 0 node rfl c hm
    · intro i n hn c hm
      have := hc (i + 1) n (by simpa using hn) c hm
      rw [Array.size_push]
      omega

end Arena

namespace SoundProgram

/-- Every node of a sound program has a tree. -/
theorem isSome_of_mem_trees (p : SoundProgram) : ∀ t ∈ p.program.arena.trees, t.isSome := by
  refine Arena.isSome_growAll _ _ (by simp) ?_
  intro i node hn c hm
  have := Program.children_lt_of_validate p.sound (i := i) (by simpa using hn) hm
  simpa using this

theorem isSome_tree (p : SoundProgram) {id : NodeId} (h : id.toNat < p.program.arena.nodes.size) :
    (p.program.arena.tree? id).isSome := by
  refine Arena.isSome_treeAt p.isSome_of_mem_trees ?_
  simpa [Arena.trees, Arena.size_growAll] using h

end SoundProgram

/-! ## Statements -/

/-- One statement over trees, from the trees of the arena. -/
def StmtNode.resolve? (a : Arena) (trees : Array (Option Expr)) (s : StmtNode) : Option Stmt :=
  (Arena.treeAt trees s.kind.value).map fun value =>
    { target := match s.kind with
        | .define name _ => some (a.name name)
        | .print _ => none
      value := value
      span := s.span }

/-- The statements of a program over trees, unless a statement has no tree. -/
def Program.resolve? (p : Program) : Option (List Stmt) :=
  let trees := p.arena.trees
  p.stmts.toList.mapM fun s => s.resolve? p.arena trees

/-- Reading every item succeeds when reading each one does. -/
theorem isSome_mapM_of_forall {α β : Type} {f : α → Option β} {xs : List α}
    (h : ∀ x ∈ xs, (f x).isSome) : (xs.mapM f).isSome := by
  induction xs with
  | nil => rfl
  | cons x xs ih =>
    obtain ⟨y, hy⟩ := Option.isSome_iff_exists.1 (h x (by simp))
    obtain ⟨ys, hys⟩ := Option.isSome_iff_exists.1 (ih fun z hz => h z (by simp [hz]))
    simp [List.mapM_cons, hy, hys]

namespace SoundProgram

theorem isSome_resolve? (p : SoundProgram) : p.program.resolve?.isSome := by
  refine isSome_mapM_of_forall fun s hs => ?_
  obtain ⟨i, hi⟩ := List.mem_iff_getElem?.1 hs
  have hv := Program.value_lt_of_validate p.sound (i := i) (by simpa using hi)
  simpa [StmtNode.resolve?, Arena.tree?] using p.isSome_tree hv

/-- The statements of a sound program over trees. -/
def stmts (p : SoundProgram) : List Stmt :=
  p.program.resolve?.get p.isSome_resolve?

end SoundProgram
end SeqCalc
