import Std.Data.HashMap
import SeqCalc.Program.Arena

/-!
# Growing an arena

A workspace is an arena with an index of its names, so that a text is stored once.  The index is
not part of a stored arena: after loading it is empty, and the first call that interns a text
builds it from the names, where of equal names the last one counts.

Main results:

- `Workspace.alloc_nodes`, `Workspace.allocParams_params`: what an allocation does to the tables.
-/

namespace SeqCalc

/-- The reference to position `n` of a table; tables end at the largest reference. -/
def tableIndex (n : Nat) : UInt32 :=
  UInt32.ofNat (min n (UInt32.size - 1))

/-- An arena under construction, with the index of its names. -/
structure Workspace where
  arena : Arena
  index : Std.HashMap String NameId
deriving Inhabited

namespace Workspace

def empty : Workspace :=
  ⟨.empty, ∅⟩

/-- A stored arena, with an index still to be built. -/
def ofArena (a : Arena) : Workspace :=
  ⟨a, ∅⟩

/-- The index of a list of names that starts at position `start`. -/
def indexFrom (start : Nat) (names : List String) (index : Std.HashMap String NameId) :
    Std.HashMap String NameId :=
  match names with
  | [] => index
  | name :: rest => indexFrom (start + 1) rest (index.insert name ⟨tableIndex start⟩)

/-- The workspace with its index built, if there is anything to build it from. -/
def indexed (w : Workspace) : Workspace :=
  if w.index.isEmpty && !w.arena.names.isEmpty then
    { w with index := indexFrom 0 w.arena.names.toList w.index }
  else
    w

/-- The name of a text; a text that is new goes to the end of the table. -/
def intern (w : Workspace) (text : String) : NameId × Workspace :=
  let w := w.indexed
  match w.index[text]? with
  | some name => (name, w)
  | none =>
    let name : NameId := ⟨tableIndex w.arena.names.size⟩
    (name,
      { arena := { w.arena with names := w.arena.names.push text }
        index := w.index.insert text name })

/-- The names of several texts, from left to right. -/
def internAll (w : Workspace) : List String → List NameId × Workspace
  | [] => ([], w)
  | text :: rest =>
    let (name, w) := w.intern text
    let (names, w) := w.internAll rest
    (name :: names, w)

/-- Append a node. -/
def alloc (w : Workspace) (node : Node) : NodeId × Workspace :=
  (⟨tableIndex w.arena.nodes.size⟩,
    { w with arena := { w.arena with nodes := w.arena.nodes.push node } })

/-- Append a parameter list; a range counts at most 65535 of its entries. -/
def allocParams (w : Workspace) (names : List NameId) : ParamRange × Workspace :=
  (⟨tableIndex w.arena.params.size, UInt16.ofNat (min names.length (UInt16.size - 1))⟩,
    { w with arena := { w.arena with params := w.arena.params ++ names.toArray } })

@[simp]
theorem alloc_nodes (w : Workspace) (node : Node) :
    (w.alloc node).2.arena.nodes = w.arena.nodes.push node :=
  rfl

@[simp]
theorem allocParams_params (w : Workspace) (names : List NameId) :
    (w.allocParams names).2.arena.params = w.arena.params ++ names.toArray :=
  rfl

end Workspace
end SeqCalc
