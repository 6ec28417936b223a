import SeqCalc.Text.Quoted
import SeqCalc.Typing.Variable
import SeqCalc.Value.Fault
import SeqCalc.Value.Text

/-!
# Memory

The bindings of one run.  A binding is kept under its variable, that is under name and type
together, and is never changed.

Main results:

- `Memory.get_bind`: binding a variable adds its value and leaves every other binding alone.
- `Memory.bind_eq_error_iff`: binding fails exactly for a variable that has a value.
-/

namespace SeqCalc

/-- Bindings in the order in which they were made; no variable is bound twice. -/
structure Memory where
  bindings : List (Variable × Value)
deriving Inhabited

namespace Memory

def empty : Memory :=
  ⟨[]⟩

/-- The value of a variable, if it is bound. -/
def find? (m : Memory) (v : Variable) : Option Value :=
  (m.bindings.find? fun b => b.1 == v).map Prod.snd

/-- The value of a variable. -/
def get (m : Memory) (v : Variable) : Except Fault Value :=
  match m.find? v with
  | some value => .ok value
  | none => .error (.unbound v.name)

/-- Bind a variable that is not bound yet. -/
def bind (m : Memory) (v : Variable) (value : Value) : Except Fault Memory :=
  match m.find? v with
  | some _ => .error (.alreadyBound v.name)
  | none => .ok ⟨m.bindings ++ [(v, value)]⟩

/-- The value bound to some variable of the given name. -/
def lookup? (m : Memory) (name : String) : Option Value :=
  (m.bindings.find? fun b => b.1.name == name).map Prod.snd

def size (m : Memory) : Nat :=
  m.bindings.length

def isEmpty (m : Memory) : Bool :=
  m.bindings.isEmpty

/-- The names and values of a memory, for a developer. -/
def inspect (m : Memory) : String :=
  let items := m.bindings.map fun b => Quoted.text b.1.name ++ ": " ++ b.2.inspect
  "\x7b" ++ ", ".intercalate items ++ "\x7d"

theorem find?_bind {m m' : Memory} {v : Variable} {value : Value} (h : m.bind v value = .ok m')
    (u : Variable) : m'.find? u = if v = u then some value else m.find? u := by
  unfold bind at h
  split at h
  · simp at h
  · rename_i hnone
    cases h
    by_cases hu : v = u
    · subst hu
      have : m.bindings.find? (fun b => b.1 == v) = none := by simpa [find?] using hnone
      simp [find?, List.find?_append, this]
    · simp [find?, List.find?_append, hu]

theorem get_bind {m m' : Memory} {v : Variable} {value : Value} (h : m.bind v value = .ok m')
    (u : Variable) : m'.get u = if v = u then .ok value else m.get u := by
  by_cases hu : v = u <;> simp [get, find?_bind h u, hu]

theorem bind_eq_error_iff {m : Memory} {v : Variable} {value : Value} {e : Fault} :
    m.bind v value = .error e ↔ (m.find? v).isSome ∧ e = .alreadyBound v.name := by
  cases hf : m.find? v with
  | none => simp [bind, hf]
  | some old =>
    simp only [bind, hf, Except.error.injEq, Option.isSome_some, true_and]
    exact eq_comm

end Memory
end SeqCalc
