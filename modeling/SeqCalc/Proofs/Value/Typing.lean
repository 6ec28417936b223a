import SeqCalc.Code.Native
import SeqCalc.Proofs.Typing.Rules
import SeqCalc.Proofs.Value.Computation

/-!
# Values of a type

A value has a type if it is stored in the one way in which values of the type are stored: a
sequence of integers or floats as bare words, every other sequence as values, and both also when
the sequence is empty.

Main results:

- `Value.hasType_sequenceOf_iff`: a sequence is typed by its kind and by its elements.
- `Sequence.mapM_eq_collect`: a map with typed results stores all of them as they are.
-/

namespace SeqCalc

/-! ## Kinds -/

/-- The kind in which results of a type are stored. -/
def Ty.storedKind (t : Ty) : Kind :=
  t.kind?.getD .object

theorem Ty.kind?_eq_storedKind {t : Ty} (h : t.IsProper) : t.kind? = some t.storedKind := by
  cases t with
  | scalar p => cases p <;> first | rfl | exact Bool.noConfusion h
  | seq element depth => rfl

/-! ## Values -/

namespace Value

/-- The integer of an integer, and zero for all other values. -/
def toInt : Value → Int64
  | .int n => n
  | _ => 0

/-- The float of a float, and zero for all other values. -/
def toFloat : Value → Binary64
  | .float x => x
  | _ => .zero

/-- Values of a type in the representation that the type has. -/
inductive HasType : Value → Ty → Prop
  | int (n : Int64) : HasType (.int n) .int
  | float (x : Binary64) : HasType (.float x) .float
  | ints (xs : List Int64) : HasType (.seq (.ints xs)) (.seq .int 1)
  | floats (xs : List Binary64) : HasType (.seq (.floats xs)) (.seq .float 1)
  | objects {xs : List Value} {element : Scalar} {depth : Nat} :
      element.isNumeric = true → (∀ v ∈ xs, HasType v (.seq element (depth + 1))) →
      HasType (.seq (.objects xs)) (.seq element (depth + 2))

theorem HasType.isProper {v : Value} {t : Ty} (h : v.HasType t) : t.IsProper := by
  cases h with
  | int => exact Ty.isProper_int
  | float => exact Ty.isProper_float
  | ints => exact Ty.isProper_int.sequenceOf
  | floats => exact Ty.isProper_float.sequenceOf
  | objects hnum _ => exact ⟨hnum, Nat.succ_pos _⟩

/-- The type of a value tells how it is stored. -/
theorem HasType.storedKind_eq {v : Value} {t : Ty} (h : v.HasType t) : t.storedKind = v.kind := by
  cases h <;> rfl

theorem hasType_int_iff {v : Value} : v.HasType .int ↔ ∃ n, v = .int n := by
  constructor
  · intro h
    cases h
    exact ⟨_, rfl⟩
  · rintro ⟨n, rfl⟩
    exact .int n

theorem hasType_float_iff {v : Value} : v.HasType .float ↔ ∃ x, v = .float x := by
  constructor
  · intro h
    cases h
    exact ⟨_, rfl⟩
  · rintro ⟨x, rfl⟩
    exact .float x

theorem HasType.asInt_eq {v : Value} (h : v.HasType .int) : v.asInt = .ok v.toInt := by
  rcases hasType_int_iff.1 h with ⟨n, rfl⟩
  rfl

theorem HasType.asFloat_eq {v : Value} (h : v.HasType .float) : v.asFloat = .ok v.toFloat := by
  rcases hasType_float_iff.1 h with ⟨x, rfl⟩
  rfl

/-- A sequence has a type if it is stored for elements of the element type and has only such. -/
theorem hasType_sequenceOf_iff {s : Sequence} {t : Ty} (ht : t.IsProper) :
    (Value.seq s).HasType t.sequenceOf ↔
      t.kind? = some s.kind ∧ ∀ v ∈ s.elements, v.HasType t := by
  constructor
  · intro h
    cases t with
    | scalar p =>
      cases h with
      | ints xs =>
        refine ⟨rfl, ?_⟩
        intro v hv
        rcases List.mem_map.1 hv with ⟨n, -, rfl⟩
        exact .int n
      | floats xs =>
        refine ⟨rfl, ?_⟩
        intro v hv
        rcases List.mem_map.1 hv with ⟨x, -, rfl⟩
        exact .float x
    | seq element depth =>
      obtain ⟨n, rfl⟩ : ∃ n, depth = n + 1 := ⟨depth - 1, by have := ht.2; omega⟩
      cases h with
      | objects _ hall => exact ⟨rfl, hall⟩
  · rintro ⟨hkind, hall⟩
    cases t with
    | scalar p =>
      cases p with
      | int =>
        cases s with
        | ints xs => exact .ints xs
        | floats | objects => simp [Ty.kind?, Sequence.kind] at hkind
      | float =>
        cases s with
        | floats xs => exact .floats xs
        | ints | objects => simp [Ty.kind?, Sequence.kind] at hkind
      | unknown => simp [Ty.kind?] at hkind
    | seq element depth =>
      obtain ⟨n, rfl⟩ : ∃ n, depth = n + 1 := ⟨depth - 1, by have := ht.2; omega⟩
      cases s with
      | objects xs => exact .objects ht.1 hall
      | ints | floats => simp [Ty.kind?, Sequence.kind] at hkind

/-- Every value of a sequence type is a sequence. -/
theorem HasType.exists_seq {v : Value} {t : Ty} (h : v.HasType t.sequenceOf) :
    ∃ s, v = .seq s := by
  cases v with
  | seq s => exact ⟨s, rfl⟩
  | int n => cases t <;> cases h
  | float x => cases t <;> cases h

/-- Values of a numeric scalar type are integers or floats. -/
theorem HasType.int_or_float {v : Value} {p : Scalar} (h : v.HasType (.scalar p)) :
    (p = .int ∧ ∃ n, v = .int n) ∨ (p = .float ∧ ∃ x, v = .float x) := by
  cases h with
  | int n => exact .inl ⟨rfl, n, rfl⟩
  | float x => exact .inr ⟨rfl, x, rfl⟩

end Value

/-! ## Traversing sequences -/

namespace Sequence

theorem kind_collect (kind : Kind) (vs : List Value) : (Native.collect kind vs).kind = kind := by
  cases kind <;> rfl

/-- Storing typed values loses nothing. -/
theorem elements_collect {vs : List Value} {t : Ty} (h : ∀ v ∈ vs, v.HasType t) :
    (Native.collect t.storedKind vs).elements = vs := by
  cases t with
  | seq element depth => rfl
  | scalar p =>
    cases p with
    | unknown => rfl
    | int =>
      have hid : ∀ v ∈ vs, (Value.int ∘ Value.toInt) v = id v := by
        intro v hv
        rcases Value.hasType_int_iff.1 (h v hv) with ⟨n, rfl⟩
        rfl
      calc (vs.map Value.toInt).map Value.int
          = vs.map id := by rw [List.map_map, List.map_congr_left hid]
        _ = vs := List.map_id vs
    | float =>
      have hid : ∀ v ∈ vs, (Value.float ∘ Value.toFloat) v = id v := by
        intro v hv
        rcases Value.hasType_float_iff.1 (h v hv) with ⟨x, rfl⟩
        rfl
      calc (vs.map Value.toFloat).map Value.float
          = vs.map id := by rw [List.map_map, List.map_congr_left hid]
        _ = vs := List.map_id vs

/-- Storing typed values gives a typed sequence. -/
theorem hasType_collect {vs : List Value} {t : Ty} (ht : t.IsProper) (h : ∀ v ∈ vs, v.HasType t) :
    (Value.seq (Native.collect t.storedKind vs)).HasType t.sequenceOf := by
  rw [Value.hasType_sequenceOf_iff ht, kind_collect, elements_collect h]
  exact ⟨Ty.kind?_eq_storedKind ht, h⟩

/-- A map with typed results applies the function to all elements and then stores the results. -/
theorem mapM_eq_collect {s : Sequence} {t : Ty} {f : Value → Except Fault Value} (mode : Mode)
    (h : ∀ v ∈ s.elements, Yields (fun r => r.HasType t) (f v)) :
    s.mapM mode t.storedKind f = Native.collect t.storedKind <$> s.elements.mapM f := by
  cases t with
  | seq element depth => rfl
  | scalar p =>
    cases p with
    | unknown => rfl
    | int =>
      change ints <$> s.elements.mapM (fun v => f v >>= Value.asInt) = _
      rw [Yields.mapM_bind h fun v hv => hv.asInt_eq]
      cases s.elements.mapM f <;> rfl
    | float =>
      change floats <$> s.elements.mapM (fun v => f v >>= Value.asFloat) = _
      rw [Yields.mapM_bind h fun v hv => hv.asFloat_eq]
      cases s.elements.mapM f <;> rfl

theorem yields_mapM {s : Sequence} {t : Ty} {f : Value → Except Fault Value} (mode : Mode)
    (ht : t.IsProper) (h : ∀ v ∈ s.elements, Yields (fun r => r.HasType t) (f v)) :
    Yields (fun r => (Value.seq r).HasType t.sequenceOf) (s.mapM mode t.storedKind f) := by
  rw [mapM_eq_collect mode h]
  exact (Yields.mapM h).map fun vs hvs => hasType_collect ht hvs

/-- The elements of a sequence of numbers, as values of the type that they are folded into. -/
theorem hasType_elementsAs {s : Sequence} {p r : Scalar} (hr : r.isNumeric = true)
    (hpr : p = .float → r = .float) (hs : (Value.seq s).HasType (Ty.scalar p).sequenceOf) :
    ∀ v ∈ s.elementsAs (Ty.scalar r).storedKind, v.HasType (.scalar r) := by
  intro v hv
  cases hs with
  | ints xs =>
    cases r with
    | int =>
      rcases List.mem_map.1 hv with ⟨n, -, rfl⟩
      exact .int n
    | float =>
      rcases List.mem_map.1 hv with ⟨n, -, rfl⟩
      exact .float (.ofInt64 n)
    | unknown => exact Bool.noConfusion hr
  | floats xs =>
    rcases hpr rfl with rfl
    rcases List.mem_map.1 hv with ⟨x, -, rfl⟩
    exact .float x

end Sequence
end SeqCalc
