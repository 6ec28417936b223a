import Mathlib.Data.List.Forall2
import Mathlib.Tactic.ByContra
import SeqCalc.Program.Expr

/-!
# Trees unfold tables

A tree unfolds a node table from one of its nodes: at the root it has what the table has there, and
below it unfolds the table from the children.  Children stand below their parents, so a walk that
follows the references of the table goes through such a tree and comes to an end.

Main results:

- `Arena.unfolds_of_tree?`: the tree of a node unfolds the table from that node.
- `SoundProgram.unfolds_stmts`: so do the trees of the statements of a sound program.
-/

namespace SeqCalc
namespace Arena

/-! ## Unfolding -/

/-- The tree that the table unfolds to from a node, with children at lower positions. -/
inductive Unfolds (a : Arena) : NodeId → Expr → Prop
  | int {id : NodeId} {span : Span} {value : Int64} :
      a.nodes[id.toNat]? = some ⟨.int value, span⟩ → Unfolds a id (.int ⟨id, span⟩ value)
  | float {id : NodeId} {span : Span} {bits : UInt64} :
      a.nodes[id.toNat]? = some ⟨.float bits, span⟩ → Unfolds a id (.float ⟨id, span⟩ bits)
  | ident {id : NodeId} {span : Span} {name : NameId} :
      a.nodes[id.toNat]? = some ⟨.ident name, span⟩ →
      Unfolds a id (.ident ⟨id, span⟩ (a.name name))
  | unary {id operand : NodeId} {span : Span} {op : UnaryOp} {e : Expr} :
      a.nodes[id.toNat]? = some ⟨.unary op operand, span⟩ →
      operand.toNat < id.toNat → Unfolds a operand e →
      Unfolds a id (.unary ⟨id, span⟩ op e)
  | binary {id left right : NodeId} {span : Span} {op : BinaryOp} {l r : Expr} :
      a.nodes[id.toNat]? = some ⟨.binary op left right, span⟩ →
      left.toNat < id.toNat → right.toNat < id.toNat → Unfolds a left l → Unfolds a right r →
      Unfolds a id (.binary ⟨id, span⟩ op l r)
  | range {id first last : NodeId} {span : Span} {f l : Expr} :
      a.nodes[id.toNat]? = some ⟨.range first last, span⟩ →
      first.toNat < id.toNat → last.toNat < id.toNat → Unfolds a first f → Unfolds a last l →
      Unfolds a id (.range ⟨id, span⟩ f l)
  | map {id seq function : NodeId} {span : Span} {s f : Expr} :
      a.nodes[id.toNat]? = some ⟨.map seq function, span⟩ →
      seq.toNat < id.toNat → function.toNat < id.toNat → Unfolds a seq s → Unfolds a function f →
      Unfolds a id (.map ⟨id, span⟩ s f)
  | reduce {id seq neutral function : NodeId} {span : Span} {s n f : Expr} :
      a.nodes[id.toNat]? = some ⟨.reduce seq neutral function, span⟩ →
      seq.toNat < id.toNat → neutral.toNat < id.toNat → function.toNat < id.toNat →
      Unfolds a seq s → Unfolds a neutral n → Unfolds a function f →
      Unfolds a id (.reduce ⟨id, span⟩ s n f)
  | lambda {id body : NodeId} {span : Span} {params : ParamRange} {e : Expr} :
      a.nodes[id.toNat]? = some ⟨.lambda params body, span⟩ →
      body.toNat < id.toNat → Unfolds a body e →
      Unfolds a id (.lambda ⟨id, span⟩ ((a.paramNames params).map a.name) e)

theorem Unfolds.id_eq {a : Arena} {id : NodeId} {e : Expr} (h : a.Unfolds id e) : e.id = id := by
  cases h <;> rfl

/-- The root of an unfolded tree stands in the table, with the span of the tree. -/
theorem Unfolds.root {a : Arena} {id : NodeId} {e : Expr} (h : a.Unfolds id e) :
    ∃ node, a.nodes[id.toNat]? = some node ∧ node.span = e.span := by
  cases h <;> exact ⟨_, ‹_›, rfl⟩

theorem Unfolds.lt_size {a : Arena} {id : NodeId} {e : Expr} (h : a.Unfolds id e) :
    id.toNat < a.nodes.size := by
  rcases h.root with ⟨node, hnode, -⟩
  exact (Array.getElem?_eq_some_iff.1 hnode).1

/-! ## Grown trees -/

theorem treeAt_push (trees : Array (Option Expr)) (t : Option Expr) (id : NodeId) :
    treeAt (trees.push t) id =
      if id.toNat = trees.size then t else treeAt trees id := by
  unfold treeAt
  rw [Array.getElem?_push]
  by_cases h : id.toNat = trees.size
  · simp [h]
  · simp [h]

theorem toNat_tableIndex {n : Nat} (h : n < UInt32.size) : (tableIndex n).toNat = n := by
  have hmin : min n (UInt32.size - 1) = n := by
    unfold UInt32.size at h ⊢
    omega
  rw [tableIndex, hmin]
  exact UInt32.toNat_ofNat_of_lt h

theorem NodeId.eq_of_toNat {id : NodeId} {n : Nat} (h : id.toNat = n) : id = ⟨tableIndex n⟩ := by
  have hlt : n < UInt32.size := h ▸ id.index.toNat_lt
  cases id
  rw [NodeId.mk.injEq, ← UInt32.toNat_inj, toNat_tableIndex hlt]
  exact h

theorem lt_size_of_treeAt {trees : Array (Option Expr)} {id : NodeId} {e : Expr}
    (h : treeAt trees id = some e) : id.toNat < trees.size := by
  by_contra hge
  rw [treeAt, Array.getElem?_eq_none (Nat.not_lt.1 hge)] at h
  contradiction

/-- A tree grown on top of trees that unfold the table unfolds it too. -/
theorem unfolds_of_grow {a : Arena} {trees : Array (Option Expr)} {node : Node} {id : NodeId}
    {e : Expr} (hid : id.toNat = trees.size) (hnode : a.nodes[id.toNat]? = some node)
    (hbelow : ∀ c t, treeAt trees c = some t → a.Unfolds c t)
    (h : a.grow trees node = some e) : a.Unfolds id e := by
  have hsite : (⟨tableIndex trees.size⟩ : NodeId) = id := (NodeId.eq_of_toNat hid).symm
  have hlt : ∀ {c t}, treeAt trees c = some t → c.toNat < id.toNat := by
    intro c t ht
    rw [hid]
    exact lt_size_of_treeAt ht
  rcases node with ⟨kind, span⟩
  unfold grow at h
  rw [hsite] at h
  cases kind with
  | int value =>
    cases h
    exact .int hnode
  | float bits =>
    cases h
    exact .float hnode
  | ident name =>
    cases h
    exact .ident hnode
  | unary op operand =>
    simp only [Option.bind_eq_bind, Option.bind_eq_some_iff, Option.pure_def,
      Option.some.injEq] at h
    rcases h with ⟨o, ho, rfl⟩
    exact .unary hnode (hlt ho) (hbelow _ _ ho)
  | binary op left right =>
    simp only [Option.bind_eq_bind, Option.bind_eq_some_iff, Option.pure_def,
      Option.some.injEq] at h
    rcases h with ⟨l, hl, r, hr, rfl⟩
    exact .binary hnode (hlt hl) (hlt hr) (hbelow _ _ hl) (hbelow _ _ hr)
  | range first last =>
    simp only [Option.bind_eq_bind, Option.bind_eq_some_iff, Option.pure_def,
      Option.some.injEq] at h
    rcases h with ⟨f, hf, l, hl, rfl⟩
    exact .range hnode (hlt hf) (hlt hl) (hbelow _ _ hf) (hbelow _ _ hl)
  | map seq function =>
    simp only [Option.bind_eq_bind, Option.bind_eq_some_iff, Option.pure_def,
      Option.some.injEq] at h
    rcases h with ⟨s, hs, f, hf, rfl⟩
    exact .map hnode (hlt hs) (hlt hf) (hbelow _ _ hs) (hbelow _ _ hf)
  | reduce seq neutral function =>
    simp only [Option.bind_eq_bind, Option.bind_eq_some_iff, Option.pure_def,
      Option.some.injEq] at h
    rcases h with ⟨s, hs, n, hn, f, hf, rfl⟩
    exact .reduce hnode (hlt hs) (hlt hn) (hlt hf) (hbelow _ _ hs) (hbelow _ _ hn) (hbelow _ _ hf)
  | lambda params body =>
    simp only [Option.bind_eq_bind, Option.bind_eq_some_iff, Option.pure_def,
      Option.some.injEq] at h
    rcases h with ⟨b, hb, rfl⟩
    exact .lambda hnode (hlt hb) (hbelow _ _ hb)

theorem unfolds_of_growAll {a : Arena} (nodes : List Node) {trees : Array (Option Expr)}
    (hnodes : ∀ i node, nodes[i]? = some node → a.nodes[trees.size + i]? = some node)
    (hbelow : ∀ c t, treeAt trees c = some t → a.Unfolds c t) :
    ∀ id e, treeAt (a.growAll trees nodes) id = some e → a.Unfolds id e := by
  induction nodes generalizing trees with
  | nil => exact hbelow
  | cons node rest ih =>
    apply ih
    · intro i n hn
      have := hnodes (i + 1) n (by simpa using hn)
      rw [Array.size_push]
      rwa [Nat.add_assoc, Nat.add_comm 1 i]
    · intro id e h
      rw [treeAt_push] at h
      by_cases hid : id.toNat = trees.size
      · rw [if_pos hid] at h
        refine unfolds_of_grow hid ?_ hbelow h
        rw [hid]
        exact hnodes 0 node rfl
      · rw [if_neg hid] at h
        exact hbelow id e h

/-- The tree of a node unfolds the table from that node. -/
theorem unfolds_of_tree? {a : Arena} {id : NodeId} {e : Expr} (h : a.tree? id = some e) :
    a.Unfolds id e := by
  refine unfolds_of_growAll a.nodes.toList ?_ ?_ id e h
  · intro i node hnode
    simpa using hnode
  · intro c t ht
    simp [treeAt] at ht

end Arena

/-! ## Statements -/

theorem forall₂_of_mapM {α β : Type} {f : α → Option β} {xs : List α} {ys : List β}
    (h : xs.mapM f = some ys) : List.Forall₂ (fun x y => f x = some y) xs ys := by
  induction xs generalizing ys with
  | nil =>
    simp only [List.mapM_nil, Option.pure_def, Option.some.injEq] at h
    subst h
    exact .nil
  | cons x xs ih =>
    simp only [List.mapM_cons, Option.bind_eq_bind, Option.bind_eq_some_iff, Option.pure_def,
      Option.some.injEq] at h
    rcases h with ⟨y, hy, rest, hrest, rfl⟩
    exact .cons hy (ih hrest)

/-- A statement over trees that unfolds one of a program over the given table. -/
structure StmtNode.Unfolds (a : Arena) (n : StmtNode) (s : Stmt) : Prop where
  value : a.Unfolds n.kind.value s.value
  target : s.target = match n.kind with
    | .define name _ => some (a.name name)
    | .print _ => none
  span : s.span = n.span

theorem SoundProgram.unfolds_stmts (p : SoundProgram) :
    List.Forall₂ (StmtNode.Unfolds p.program.arena) p.program.stmts.toList p.stmts := by
  have hstmts : List.Forall₂
      (fun (n : StmtNode) s => n.resolve? p.program.arena p.program.arena.trees = some s)
      p.program.stmts.toList p.stmts :=
    forall₂_of_mapM (Option.some_get p.isSome_resolve?).symm
  apply hstmts.imp
  intro n s h
  rcases Option.map_eq_some_iff.1 h with ⟨value, hvalue, rfl⟩
  exact ⟨Arena.unfolds_of_tree? hvalue, rfl, rfl⟩

theorem SoundProgram.exists_unfolds (p : SoundProgram) {s : Stmt} (h : s ∈ p.stmts) :
    ∃ n : StmtNode, n.Unfolds p.program.arena s := by
  have hstmts := p.unfolds_stmts
  rcases List.mem_iff_getElem.1 h with ⟨i, hi, rfl⟩
  exact ⟨_, hstmts.get (hstmts.length_eq ▸ hi) hi⟩

end SeqCalc
