import SeqCalc.Json.Printer
import SeqCalc.Json.Reader
import SeqCalc.Proofs.Text.Numeral

/-!
# Reading what was printed

The compact text of a JSON value reads as that value.  This holds of every value whose numbers are
whole and whose strings name texts; the others are printed as `null`.  What follows the text may be
anything that a number cannot go on with, so that the values inside of an array or an object read
as they do alone.

Main results:

- `stringBody?_escape`: each escaped character reads as that character.
- `Plain.reads`: a printed value reads in front of any text that it may stand before.
- `Plain.parse?_eq_some`: the compact text of a value reads as that value.
-/

namespace SeqCalc

namespace Json

/-! ## Strings -/

/-- The characters below the blank are escaped by a number that reads back. -/
theorem readHex?_hex_of_lt {n : Nat} (h : n < 32) :
    ∃ a b c d, Numeral.hex 4 n = [a, b, c, d] ∧ Numeral.readHex? [a, b, c, d] = some n := by
  have hall : ∀ n < 32, (Numeral.hex 4 n).length = 4 ∧
      Numeral.readHex? (Numeral.hex 4 n) = some n := by
    decide
  rcases hall n h with ⟨hlength, hread⟩
  match hhex : Numeral.hex 4 n, hlength with
  | [a, b, c, d], _ => exact ⟨a, b, c, d, rfl, hhex ▸ hread⟩

/-- The number of a character below the blank is that character. -/
theorem pushUnit_toNat (s : Spelling) {c : Char} (h : c.toNat < 32) :
    s.pushUnit c.toNat = s.push c := by
  unfold Spelling.pushUnit
  rw [if_neg (by omega), if_neg (by omega), Char.ofNat_toNat]

/-- Each escaped character reads as that character. -/
theorem stringBody?_escape (s : Spelling) (c : Char) (rest : List Char) :
    stringBody? s (escape c ++ rest) = stringBody? (s.push c) rest := by
  unfold escape
  split
  case h_8 hquote hbackslash _ _ _ _ _ =>
    split
    · rename_i hcontrol
      rcases readHex?_hex_of_lt hcontrol with ⟨a, b, d, e, hhex, hread⟩
      rw [hhex]
      simp only [List.cons_append, List.nil_append]
      rw [stringBody?, hread]
      exact congrArg (stringBody? · rest) (pushUnit_toNat s hcontrol)
    · rename_i hprintable
      have hplain : ¬ (c.toNat < 32 ∨ c = '\\') := not_or.2 ⟨hprintable, hbackslash⟩
      rw [List.cons_append, List.nil_append,
        stringBody?.eq_5 s c rest hquote (fun _ _ _ _ _ h _ => hbackslash h)
          (fun _ _ h _ => hbackslash h), if_neg hplain]
  all_goals rfl

/-- A string literal reads as its characters, after those that were read before. -/
theorem stringBody?_flatMap_escape (s : Spelling) (hlead : s.lead = none)
    (hbroken : s.broken = false) (cs rest : List Char) :
    stringBody? s (cs.flatMap escape ++ '"' :: rest) =
      some (some (String.ofList (s.chars.reverse ++ cs)), rest) := by
  induction cs generalizing s with
  | nil => simp [stringBody?, Spelling.text?, hlead, hbroken]
  | cons c cs ih =>
    rw [List.flatMap_cons, List.append_assoc, stringBody?_escape,
      ih (s.push c) rfl (by simp [Spelling.push, hlead, hbroken])]
    simp [Spelling.push]

theorem quote_append (s : String) (rest : List Char) :
    quote s ++ rest = '"' :: (s.toList.flatMap escape ++ '"' :: rest) := by
  simp [quote]

theorem stringBody?_quote (s : String) (rest : List Char) :
    stringBody? .empty (s.toList.flatMap escape ++ '"' :: rest) = some (some s, rest) := by
  rw [stringBody?_flatMap_escape .empty rfl rfl]
  simp [Spelling.empty]

/-! ## Numbers -/

/-- A text that a number in front of it cannot go on with. -/
def Stops (rest : List Char) : Prop :=
  ∀ c ∈ rest.head?, c.isDigit = false ∧ c ≠ '.' ∧ c ≠ 'e' ∧ c ≠ 'E'

theorem stops_nil : Stops [] := by
  simp [Stops]

theorem stops_cons {c : Char} {rest : List Char}
    (h : c.isDigit = false ∧ c ≠ '.' ∧ c ≠ 'e' ∧ c ≠ 'E') : Stops (c :: rest) := by
  simpa [Stops] using h

theorem spanDigits_append {digits rest : List Char} (hdigits : ∀ c ∈ digits, c.isDigit = true)
    (hrest : Stops rest) : spanDigits (digits ++ rest) = (digits, rest) := by
  unfold spanDigits
  rw [List.takeWhile_append_of_pos hdigits, List.dropWhile_append_of_pos hdigits]
  cases rest with
  | nil => simp
  | cons c rest =>
    have hc := (hrest c rfl).1
    rw [List.takeWhile_cons_of_neg (by simp [hc]), List.dropWhile_cons_of_neg (by simp [hc]),
      List.append_nil]

theorem fractionPart?_of_stops {rest : List Char} (h : Stops rest) :
    fractionPart? rest = some (false, rest) := by
  unfold fractionPart?
  split
  · exact absurd rfl (h '.' rfl).2.1
  · rfl

theorem exponentPart?_of_stops {rest : List Char} (h : Stops rest) :
    exponentPart? rest = some (false, rest) := by
  cases rest with
  | nil => rfl
  | cons c rest =>
    have hc := h c rfl
    simp [exponentPart?, hc.2.2.1, hc.2.2.2]

/-- A written natural reads as that number, and after a minus sign as its opposite. -/
theorem unsigned?_ofNat (negative : Bool) {n : Nat} (hzero : negative = true → n ≠ 0)
    {rest : List Char} (h : Stops rest) :
    unsigned? negative (Numeral.ofNat n ++ rest) =
      some (int (if negative then -(n : Int) else n), rest) := by
  have hspan : spanDigits (Numeral.ofNat n ++ rest) = (Numeral.ofNat n, rest) :=
    spanDigits_append (fun _ hc => Numeral.isDigit_of_mem_ofNat hc) h
  unfold unsigned?
  rw [hspan]
  split
  · rename_i heq
    exact absurd (congrArg Prod.fst heq) (Numeral.ofNat_ne_nil n)
  · rename_i c digits rest' heq
    have hdigits : Numeral.ofNat n = '0' :: c :: digits := congrArg Prod.fst heq
    have hn : n = 0 := Numeral.eq_zero_of_head?_ofNat (by rw [hdigits]; rfl)
    rw [hn, show Numeral.ofNat 0 = ['0'] from rfl] at hdigits
    simp at hdigits
  · rename_i heq
    cases heq
    have hvalue : Nat.ofDigitChars 10 (Numeral.ofNat n) 0 = n := Nat.ofDigitChars_ten_toDigits
    have hsign : (negative && n == 0) = false := by
      cases negative with
      | false => rfl
      | true => simpa using hzero rfl
    simp [fractionPart?_of_stops h, exponentPart?_of_stops h, hvalue, hsign]

theorem number?_ofInt (i : Int) {rest : List Char} (h : Stops rest) :
    number? (Numeral.ofInt i ++ rest) = some (int i, rest) := by
  cases i with
  | negSucc n =>
    have := unsigned?_ofNat true (n := n + 1) (by simp) h
    simpa [number?, Numeral.ofInt, Int.negSucc_eq] using this
  | ofNat n =>
    rcases Numeral.exists_ofNat_eq_cons n with ⟨c, digits, hn, hc⟩
    have hread := unsigned?_ofNat false (n := n) (by simp) h
    have hsign : c ≠ '-' := by
      rintro rfl
      contradiction
    rw [hn, List.cons_append] at hread
    rw [Numeral.ofInt, hn, List.cons_append, number?, hread]
    · rfl
    · simpa using hsign

/-! ## Values -/

/-- A JSON value with a text of its own: its numbers are whole and its strings name texts. -/
inductive Plain : Json → Prop
  | null : Plain null
  | bool (value : Bool) : Plain (bool value)
  | int (value : Int) : Plain (int value)
  | str (s : String) : Plain (str s)
  | array {items : List Json} : (∀ j ∈ items, Plain j) → Plain (array items)
  | object {members : List (String × Json)} :
      (∀ m ∈ members, Plain m.2) → Plain (ofMembers members)

/-- A character that can stand in front of a value. -/
def Opens (c : Char) : Prop :=
  isBlank c = false ∧ c ≠ ']'

instance (c : Char) : Decidable (Opens c) :=
  inferInstanceAs (Decidable (_ ∧ _))

theorem opens_of_isDigit {c : Char} (h : c.isDigit = true) : Opens c := by
  constructor
  · cases hc : isBlank c with
    | false => rfl
    | true =>
      simp only [isBlank, Bool.or_eq_true, beq_iff_eq] at hc
      rcases hc with ((rfl | rfl) | rfl) | rfl <;> contradiction
  · rintro rfl
    contradiction

/-- The text of a value begins with a character that opens a value. -/
theorem Plain.exists_render_eq_cons {j : Json} (h : Plain j) :
    ∃ c text, j.render = c :: text ∧ Opens c := by
  cases h with
  | null => exact ⟨'n', _, rfl, by decide⟩
  | bool value => cases value <;> exact ⟨_, _, rfl, by decide⟩
  | int value =>
    cases value with
    | ofNat n =>
      rcases Numeral.exists_ofNat_eq_cons n with ⟨c, digits, hn, hc⟩
      exact ⟨c, digits, hn, opens_of_isDigit hc⟩
    | negSucc n => exact ⟨'-', _, rfl, by decide⟩
  | str s => exact ⟨'"', _, rfl, by decide⟩
  | array _ => exact ⟨'[', _, rfl, by decide⟩
  | object _ => exact ⟨'{', _, rfl, by decide⟩

theorem skipBlanks_cons {c : Char} (h : isBlank c = false) (rest : List Char) :
    skipBlanks (c :: rest) = c :: rest :=
  List.dropWhile_cons_of_neg (by simp [h])

theorem value?_cons_of_digit (fuel : Nat) {c : Char} (h : c = '-' ∨ c.isDigit = true)
    (rest : List Char) : value? (fuel + 1) (c :: rest) = number? (c :: rest) := by
  have hblank : isBlank c = false := by
    rcases h with rfl | h
    · rfl
    · exact (opens_of_isDigit h).1
  rw [value?, skipBlanks_cons hblank]
  split <;> simp_all

/-- Reads in front of any text that it may stand before, in as many steps as its text is long. -/
def Reads (j : Json) : Prop :=
  ∀ fuel rest, j.render.length < fuel → Stops rest → value? fuel (j.render ++ rest) = some (j, rest)

theorem renderItems_cons (item : Json) {items : List Json} (hne : items ≠ []) :
    renderItems (item :: items) = item.render ++ ',' :: renderItems items := by
  cases items with
  | nil => contradiction
  | cons _ _ => rfl

theorem arrayTail?_renderItems {items : List Json} (hne : items ≠ [])
    (hreads : ∀ j ∈ items, j.Reads) (rest : List Char) {fuel : Nat}
    (hfuel : (renderItems items).length < fuel) :
    arrayTail? fuel (renderItems items ++ rest) = some (items, rest) := by
  induction items generalizing fuel with
  | nil => contradiction
  | cons item items ih =>
    obtain ⟨fuel, rfl⟩ : ∃ n, fuel = n + 1 := ⟨fuel - 1, by omega⟩
    have hitem := hreads item List.mem_cons_self
    by_cases hlast : items = []
    · subst hlast
      simp only [renderItems, List.length_append, List.length_cons, List.length_nil] at hfuel
      have hread := hitem fuel (']' :: rest) (by omega) (stops_cons (by decide))
      simp [renderItems, arrayTail?, hread, skipBlanks_cons (c := ']') rfl]
    · rw [renderItems_cons item hlast] at hfuel ⊢
      rw [List.length_append, List.length_cons] at hfuel
      have hread := hitem fuel (',' :: (renderItems items ++ rest)) (by omega)
        (stops_cons (by decide))
      have htail : arrayTail? fuel (renderItems items ++ rest) = some (items, rest) :=
        ih hlast (fun j hj => hreads j (List.mem_cons_of_mem item hj)) (by omega)
      simp [arrayTail?, hread, skipBlanks_cons (c := ',') rfl, htail]

/-- Members with keys that name texts. -/
def keyed (members : List (String × Json)) : List (Option String × Json) :=
  members.map fun m => (some m.1, m.2)

theorem renderMembers_singleton (key : String) (value : Json) :
    renderMembers (keyed [(key, value)]) = quote key ++ ':' :: value.render ++ ['}'] :=
  rfl

theorem renderMembers_cons (key : String) (value : Json) {members : List (String × Json)}
    (hne : members ≠ []) :
    renderMembers (keyed ((key, value) :: members)) =
      quote key ++ ':' :: value.render ++ ',' :: renderMembers (keyed members) := by
  cases members with
  | nil => contradiction
  | cons _ _ => rfl

theorem objectTail?_renderMembers {members : List (String × Json)} (hne : members ≠ [])
    (hreads : ∀ m ∈ members, m.2.Reads) (rest : List Char) {fuel : Nat}
    (hfuel : (renderMembers (keyed members)).length < fuel) :
    objectTail? fuel (renderMembers (keyed members) ++ rest) = some (keyed members, rest) := by
  induction members generalizing fuel with
  | nil => contradiction
  | cons m members ih =>
    obtain ⟨fuel, rfl⟩ : ∃ n, fuel = n + 1 := ⟨fuel - 1, by omega⟩
    rcases m with ⟨key, value⟩
    have hvalue : value.Reads := hreads (key, value) List.mem_cons_self
    by_cases hlast : members = []
    · subst hlast
      rw [renderMembers_singleton] at hfuel ⊢
      simp only [List.length_append, List.length_cons] at hfuel
      have hread := hvalue fuel ('}' :: rest) (by omega) (stops_cons (by decide))
      simp [quote_append, objectTail?, skipBlanks_cons (c := '"') rfl,
        skipBlanks_cons (c := ':') rfl, skipBlanks_cons (c := '}') rfl, stringBody?_quote, hread,
        keyed]
    · rw [renderMembers_cons key value hlast] at hfuel ⊢
      simp only [List.length_append, List.length_cons] at hfuel
      have hread := hvalue fuel (',' :: (renderMembers (keyed members) ++ rest)) (by omega)
        (stops_cons (by decide))
      have htail : objectTail? fuel (renderMembers (keyed members) ++ rest) =
          some (keyed members, rest) :=
        ih hlast (fun j hj => hreads j (List.mem_cons_of_mem (key, value) hj)) (by omega)
      simp [quote_append, objectTail?, skipBlanks_cons (c := '"') rfl,
        skipBlanks_cons (c := ':') rfl, skipBlanks_cons (c := ',') rfl, stringBody?_quote, hread,
        htail]
      rfl

theorem reads_int (i : Int) : (int i).Reads := by
  intro fuel rest hfuel hrest
  obtain ⟨fuel, rfl⟩ : ∃ n, fuel = n + 1 := ⟨fuel - 1, by omega⟩
  rw [render, ← number?_ofInt i hrest]
  cases i with
  | negSucc n => exact value?_cons_of_digit fuel (.inl rfl) _
  | ofNat n =>
    rcases Numeral.exists_ofNat_eq_cons n with ⟨c, digits, hn, hc⟩
    rw [Numeral.ofInt, hn]
    exact value?_cons_of_digit fuel (.inr hc) _

theorem reads_array {items : List Json} (hplain : ∀ j ∈ items, j.Plain)
    (hreads : ∀ j ∈ items, j.Reads) : (array items).Reads := by
  intro fuel rest hfuel _
  obtain ⟨fuel, rfl⟩ : ∃ n, fuel = n + 1 := ⟨fuel - 1, by omega⟩
  rw [render, List.length_cons] at hfuel
  rw [render, List.cons_append, value?, skipBlanks_cons rfl]
  cases items with
  | nil => simp [renderItems, skipBlanks_cons (c := ']') rfl]
  | cons item items =>
    have htail := arrayTail?_renderItems (by simp) hreads rest (Nat.lt_of_succ_lt_succ hfuel)
    -- the bracket is not closed at once, for a value begins there
    rcases (hplain item List.mem_cons_self).exists_render_eq_cons with ⟨c, text, hc, hopens⟩
    obtain ⟨tail, hitems⟩ : ∃ tail, renderItems (item :: items) = c :: tail := by
      cases items <;> simp [renderItems, hc]
    rw [hitems, List.cons_append] at htail ⊢
    simp only [skipBlanks_cons hopens.1]
    split
    · rename_i heq
      exact absurd (List.cons.inj heq).1 hopens.2
    · simp [htail]

theorem reads_object {members : List (String × Json)} (hreads : ∀ m ∈ members, m.2.Reads) :
    (ofMembers members).Reads := by
  intro fuel rest hfuel _
  obtain ⟨fuel, rfl⟩ : ∃ n, fuel = n + 1 := ⟨fuel - 1, by omega⟩
  change (renderMembers (keyed members)).length + 1 < fuel + 1 at hfuel
  change value? (fuel + 1) ('{' :: (renderMembers (keyed members) ++ rest)) = _
  rw [value?, skipBlanks_cons rfl]
  cases members with
  | nil => rfl
  | cons m members =>
    have htail := objectTail?_renderMembers (by simp) hreads rest (Nat.lt_of_succ_lt_succ hfuel)
    -- the brace is not closed at once, for a key begins there
    obtain ⟨tail, hmembers⟩ : ∃ tail, renderMembers (keyed (m :: members)) = '"' :: tail := by
      cases members <;> exact ⟨_, rfl⟩
    rw [hmembers, List.cons_append] at htail ⊢
    simp [skipBlanks_cons (c := '"') rfl, htail, ofMembers, keyed]

/-- A printed value reads in front of any text that it may stand before. -/
theorem Plain.reads {j : Json} (h : j.Plain) : j.Reads := by
  induction h with
  | null =>
    intro fuel rest hfuel _
    obtain ⟨fuel, rfl⟩ : ∃ n, fuel = n + 1 := ⟨fuel - 1, by omega⟩
    rfl
  | bool value =>
    intro fuel rest hfuel _
    obtain ⟨fuel, rfl⟩ : ∃ n, fuel = n + 1 := ⟨fuel - 1, by omega⟩
    cases value <;> rfl
  | int i => exact reads_int i
  | str s =>
    intro fuel rest hfuel _
    obtain ⟨fuel, rfl⟩ : ∃ n, fuel = n + 1 := ⟨fuel - 1, by omega⟩
    change value? (fuel + 1) (quote s ++ rest) = some (text (some s), rest)
    rw [quote_append, value?, skipBlanks_cons rfl]
    simp [stringBody?_quote]
  | array hitems ih => exact reads_array hitems ih
  | object _ ih => exact reads_object ih

/-- The compact text of a value reads as that value. -/
theorem Plain.parse?_eq_some {j : Json} (h : j.Plain) : Json.parse? j.print = some j := by
  have hread := h.reads (j.render.length + 1) [] (Nat.lt_succ_self _) stops_nil
  rw [List.append_nil] at hread
  simp [Json.parse?, print, parseChars?, hread, skipBlanks]

end Json
end SeqCalc
