import SeqCalc.Text.Quoted
import SeqCalc.Typing.Ty

/-!
# Variables and scopes

A variable is a name with its type.  A scope maps names to variables and never changes what it
has: defining a name twice is a clash.  Scopes do not chain.

Main results:

- `Scope.lookup?_define`: a definition adds its own name and leaves every other name alone.
-/

namespace SeqCalc

/-! ## Variables -/

structure Variable where
  name : String
  ty : Ty
deriving DecidableEq, Repr, Inhabited

namespace Variable

/-- What the names of print markers start with. -/
def markerStem : String :=
  "$print"

/-- The variable that a print statement writes; its name carries the statement's position. -/
def printMarker (index : Nat) (ty : Ty) : Variable :=
  ⟨markerStem ++ toString index, ty⟩

/-- Whether a value written to this variable is printed: a matter of its name alone. -/
def isPrintMarker (v : Variable) : Bool :=
  markerStem.toList.isPrefixOf v.name.toList

def text (v : Variable) : String :=
  v.name ++ ": " ++ v.ty.text

/-- The fields of a variable, for a developer. -/
def inspect (v : Variable) : String :=
  "Variable \x7b name: " ++ Quoted.text v.name ++ ", ty: " ++ v.ty.inspect ++ " \x7d"

@[simp]
theorem isPrintMarker_printMarker (index : Nat) (ty : Ty) :
    (printMarker index ty).isPrintMarker = true := by
  simp only [isPrintMarker, printMarker, String.toList_append, List.isPrefixOf_iff_prefix]
  exact List.prefix_append _ _

end Variable

/-! ## Scopes -/

/-- Variables in the order of their definition; no two have the same name. -/
structure Scope where
  vars : List Variable
deriving DecidableEq, Repr, Inhabited

namespace Scope

def empty : Scope :=
  ⟨[]⟩

/-- The variable of a name. -/
def lookup? (s : Scope) (name : String) : Option Variable :=
  s.vars.find? fun v => v.name == name

/-- Add a variable; a variable that has the name already is a clash. -/
def define (s : Scope) (v : Variable) : Except Variable Scope :=
  match s.lookup? v.name with
  | some existing => .error existing
  | none => .ok ⟨s.vars ++ [v]⟩

def size (s : Scope) : Nat :=
  s.vars.length

theorem lookup?_define {s t : Scope} {v : Variable} (h : s.define v = .ok t) (name : String) :
    t.lookup? name = if v.name = name then some v else s.lookup? name := by
  unfold define at h
  split at h
  · simp at h
  · rename_i hnone
    cases h
    by_cases hn : v.name = name
    · subst hn
      have : s.vars.find? (fun u => u.name == v.name) = none := hnone
      simp [lookup?, List.find?_append, this]
    · simp [lookup?, List.find?_append, hn]

end Scope
end SeqCalc
