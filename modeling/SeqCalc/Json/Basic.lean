/-!
# JSON values

The data that interchange text stands for.  Only whole numbers carry their value, because the
format has no use for others; a string with an unpaired surrogate escape names no text and is kept
apart, since it is harmless where nobody looks at it.
-/

namespace SeqCalc

/-- A JSON value.  Object members keep their order, and a key may occur twice. -/
inductive Json where
  | null
  | bool (value : Bool)
  /-- A whole number written without point or exponent; `-0` is not one. -/
  | int (value : Int)
  /-- Any other number. -/
  | fraction
  /-- A string, or `none` when an escape in it is half a surrogate pair. -/
  | text (value : Option String)
  | array (items : List Json)
  | object (members : List (Option String × Json))
deriving Inhabited, Repr

namespace Json

/-! ## Building -/

/-- The string `s`. -/
def str (s : String) : Json :=
  text (some s)

/-- An object from its members. -/
def ofMembers (members : List (String × Json)) : Json :=
  object (members.map fun m => (some m.1, m.2))

/-- A natural number. -/
def nat (n : Nat) : Json :=
  int n

/-! ## Looking inside -/

/-- The whole number, if it is one. -/
def int? : Json → Option Int
  | int i => some i
  | _ => none

/-- A natural number below `bound`. -/
def natBelow? (bound : Nat) : Json → Option Nat
  | int (.ofNat n) => if n < bound then some n else none
  | _ => none

def uint16? (j : Json) : Option UInt16 :=
  (j.natBelow? UInt16.size).map UInt16.ofNat

def uint32? (j : Json) : Option UInt32 :=
  (j.natBelow? UInt32.size).map UInt32.ofNat

def uint64? (j : Json) : Option UInt64 :=
  (j.natBelow? UInt64.size).map UInt64.ofNat

/-- A signed word. -/
def int64? (j : Json) : Option Int64 :=
  j.int?.bind fun i =>
    if Int64.minValue.toInt ≤ i ∧ i ≤ Int64.maxValue.toInt then some (Int64.ofInt i) else none

def str? : Json → Option String
  | text s => s
  | _ => none

def items? : Json → Option (List Json)
  | array items => some items
  | _ => none

/-- Every item of an array, read by `f`. -/
def list? {α : Type} (f : Json → Option α) (j : Json) : Option (List α) :=
  j.items?.bind fun items => items.mapM f

/-- The values of all members called `name`. -/
def valuesOf (name : String) (members : List (Option String × Json)) : List Json :=
  (members.filter fun m => m.1 == some name).map Prod.snd

/-- The only member called `name`. -/
def only? (name : String) (members : List (Option String × Json)) : Option Json :=
  match valuesOf name members with
  | [value] => some value
  | _ => none

/-- First member called `name`. -/
def member? (name : String) : Json → Option Json
  | object members => (valuesOf name members).head?
  | _ => none

/--
The fields of a record, in the order of `names`.  A record is an object that has each of them
exactly once, among any others, or an array of exactly the fields in order.
-/
def record? (names : List String) : Json → Option (List Json)
  | array items => if items.length = names.length then some items else none
  | object members =>
    if members.all fun m => m.1.isSome then names.mapM fun name => only? name members else none
  | _ => none

/-- A tagged choice: an object with a single member, whose key is the tag. -/
def tagged? : Json → Option (String × Json)
  | object [(some tag, payload)] => some (tag, payload)
  | _ => none

/-- A bare tag: the tag itself, or the tag with `null`. -/
def tag? : Json → Option String
  | text tag => tag
  | object [(some tag, null)] => some tag
  | _ => none

end Json
end SeqCalc
