import Mathlib.Data.List.Forall2
import SeqCalc.Proofs.Decimal.FloatText
import SeqCalc.Proofs.Text.Items
import SeqCalc.Value.Text

/-!
# What the text of a value says

The texts of the elements that a sequence shows can be cut out of its text again.  A sequence that
leaves elements out has an item between them that is the text of no value and gives their number,
so that the text tells how long the sequence is as well.  How it is stored is not told.

Main results:

- `Value.isItem_text`: the text of a value is an item, whatever it contains.
- `sequenceText_inj`: the text of a sequence gives its length and the shown texts.
- `Value.text_determines`: two texts agree exactly if all that they show agrees.
-/

namespace SeqCalc

/-! ## Shown elements -/

/-- The elements that the text of a sequence shows: all twenty or fewer, else five at each end. -/
def Sequence.shown (s : Sequence) : List Value :=
  if s.length ≤ 20 then s.elements
  else s.elements.take 5 ++ s.elements.drop (s.length - 5)

theorem isShown_iff {length i : Nat} :
    isShown length i = true ↔ length ≤ 20 ∨ i < 5 ∨ length ≤ i + 5 := by
  rw [isShown, Bool.or_eq_true, Bool.or_eq_true, decide_eq_true_iff, decide_eq_true_iff,
    decide_eq_true_iff, or_assoc]
  rfl

theorem shownFrom_of_le {α : Type} {length : Nat} (h : length ≤ 20) (i : Nat) (xs : List α) :
    shownFrom length i xs = xs := by
  induction xs generalizing i with
  | nil => rfl
  | cons x xs ih => rw [shownFrom, if_pos (isShown_iff.2 (.inl h)), ih]

/-- From position `i` on, what the first five and the last five of all have left is shown. -/
theorem shownFrom_of_lt {α : Type} {length : Nat} (h : 20 < length) {i : Nat} {xs : List α}
    (hlen : i + xs.length = length) :
    shownFrom length i xs = xs.take (5 - i) ++ xs.drop (length - 5 - i) := by
  induction xs generalizing i with
  | nil => simp [shownFrom]
  | cons x xs ih =>
    rw [List.length_cons] at hlen
    have hrest := ih (i := i + 1) (by omega)
    have hskip : i + 5 < length →
        (x :: xs).drop (length - 5 - i) = xs.drop (length - 5 - (i + 1)) := by
      intro hlt
      obtain ⟨k, hk⟩ : ∃ k, length = i + 6 + k := Nat.exists_eq_add_of_le (by omega)
      rw [show length - 5 - i = k + 1 by omega, show length - 5 - (i + 1) = k by omega,
        List.drop_succ_cons]
    rw [shownFrom, hrest]
    by_cases hfront : i < 5
    · rw [if_pos (isShown_iff.2 (.inr (.inl hfront))), hskip (by omega),
        show 5 - i = 5 - (i + 1) + 1 by omega, List.take_succ_cons, List.cons_append]
    · rw [Nat.sub_eq_zero_of_le (not_lt.1 hfront), Nat.sub_eq_zero_of_le (by omega : 5 ≤ i + 1),
        List.take_zero, List.take_zero, List.nil_append, List.nil_append]
      by_cases hback : length ≤ i + 5
      · have hdrop : length - 5 - i = 0 ∧ length - 5 - (i + 1) = 0 := by omega
        rw [if_pos (isShown_iff.2 (.inr (.inr hback))), hdrop.1, hdrop.2, List.drop_zero,
          List.drop_zero]
      · have hhidden : ¬ isShown length i = true := by
          rw [isShown_iff]
          omega
        rw [if_neg hhidden, hskip (not_le.1 hback)]

theorem shownFrom_map {α β : Type} (f : α → β) (length i : Nat) (xs : List α) :
    shownFrom length i (xs.map f) = (shownFrom length i xs).map f := by
  induction xs generalizing i with
  | nil => rfl
  | cons x xs ih =>
    simp only [List.map_cons, shownFrom]
    split <;> simp [ih]

theorem Sequence.shown_eq (s : Sequence) : s.shown = shownFrom s.length 0 s.elements := by
  unfold shown
  split
  · rename_i hle
    rw [shownFrom_of_le hle]
  · rename_i hlt
    rw [shownFrom_of_lt (not_le.1 hlt) (by rw [length_elements, Nat.zero_add])]
    simp

/-- The text of a sequence is made of the texts of its shown elements, however it is stored. -/
theorem Sequence.text_eq (s : Sequence) :
    s.text = sequenceText s.length (s.shown.map Value.text) := by
  rw [shown_eq]
  cases s with
  | ints xs =>
    rw [elements, shownFrom_map, List.map_map]
    rfl
  | floats xs =>
    rw [elements, shownFrom_map, List.map_map]
    rfl
  | objects xs => rw [Sequence.text, Value.shownTexts_eq_map, elements, length]

theorem Sequence.length_shown (s : Sequence) :
    s.shown.length = if s.length ≤ 20 then s.length else 10 := by
  unfold shown
  split
  · exact s.length_elements
  · rw [List.length_append, List.length_take, List.length_drop, length_elements]
    omega

theorem Sequence.mem_of_mem_shown {s : Sequence} {v : Value} (h : v ∈ s.shown) :
    v ∈ s.elements := by
  unfold shown at h
  split at h
  · exact h
  · rcases List.mem_append.1 h with h | h
    · exact List.mem_of_mem_take h
    · exact List.mem_of_mem_drop h

/-! ## The text of a sequence -/

/-- The item for elements that are left out. -/
def hiddenText (count : Nat) : String :=
  s!"... ({count} more) ..."

/-- The items between the brackets. -/
def items (length : Nat) (texts : List String) : List String :=
  if length ≤ 20 then texts
  else texts.take 5 ++ hiddenText (length - 10) :: texts.drop 5

theorem toList_sequenceText (length : Nat) (texts : List String) :
    (sequenceText length texts).toList =
      '[' :: separator.intercalate ((items length texts).map String.toList) ++ [']'] := by
  have hjoined :
      sequenceText length texts = "[" ++ ", ".intercalate (items length texts) ++ "]" :=
    rfl
  rw [hjoined, String.toList_append, String.toList_append, String.toList_intercalate]
  rfl

theorem toList_hiddenText (count : Nat) :
    (hiddenText count).toList =
      "... (".toList ++ (Numeral.ofNat count ++ " more) ...".toList) := by
  have htext : hiddenText count = "... (" ++ String.ofList (Numeral.ofNat count) ++ " more) ..." :=
    rfl
  have hcount : (String.ofList (Numeral.ofNat count)).toList = Numeral.ofNat count :=
    String.toList_ofList
  rw [htext, String.toList_append, String.toList_append, hcount, List.append_assoc]

/-- The number of elements left out can be read. -/
theorem hiddenText_inj {m n : Nat} (h : hiddenText m = hiddenText n) : m = n := by
  have hlist := congrArg String.toList h
  rw [toList_hiddenText, toList_hiddenText, List.append_cancel_left_eq,
    List.append_cancel_right_eq] at hlist
  exact Numeral.ofNat_inj hlist

theorem isPlain_of_isDigit {c : Char} (h : c.isDigit = true) : IsPlain c ∧ c ≠ ' ' := by
  refine ⟨⟨?_, ?_, ?_⟩, ?_⟩
  all_goals
    rintro rfl
    exact absurd h (by decide)

/-- The text can be an element of a sequence. -/
structure IsItem (text : String) : Prop where
  passes : Passes 0 text.toList
  ne_nil : text.toList ≠ []
  ne_hidden : ∀ count, text ≠ hiddenText count

theorem passes_hiddenText (count : Nat) : Passes 0 (hiddenText count).toList := by
  rw [toList_hiddenText]
  apply passes_of_plain
  have hfront : ∀ c ∈ "... (".toList, IsPlain c := by simp [IsPlain]
  have hback : ∀ c ∈ " more) ...".toList, IsPlain c := by simp [IsPlain]
  have hcount : ∀ c ∈ Numeral.ofNat count, IsPlain c :=
    fun c hc => (isPlain_of_isDigit (Numeral.isDigit_of_mem_ofNat hc)).1
  exact List.forall_mem_append.2 ⟨hfront, List.forall_mem_append.2 ⟨hcount, hback⟩⟩

theorem passes_of_mem_items {length : Nat} {texts : List String}
    (h : ∀ text ∈ texts, IsItem text) {item : String} (hitem : item ∈ items length texts) :
    Passes 0 item.toList ∧ item.toList ≠ [] := by
  have htexts : ∀ text ∈ texts, Passes 0 text.toList ∧ text.toList ≠ [] :=
    fun text htext => ⟨(h text htext).passes, (h text htext).ne_nil⟩
  unfold items at hitem
  split at hitem
  · exact htexts item hitem
  · rcases List.mem_append.1 hitem with hitem | hitem
    · exact htexts item (List.mem_of_mem_take hitem)
    · rcases List.mem_cons.1 hitem with rfl | hitem
      · refine ⟨passes_hiddenText _, ?_⟩
        rw [toList_hiddenText]
        simp
      · exact htexts item (List.mem_of_mem_drop hitem)

/-- All items of a sequence that shows them all are different from the one for those left out. -/
theorem items_inj {m n : Nat} {xs ys : List String} (hx : ∀ x ∈ xs, IsItem x)
    (hy : ∀ y ∈ ys, IsItem y) (hm : xs.length = if m ≤ 20 then m else 10)
    (hn : ys.length = if n ≤ 20 then n else 10) (h : items m xs = items n ys) :
    m = n ∧ xs = ys := by
  have hhidden : ∀ {count : Nat} {front back texts : List String}, (∀ x ∈ texts, IsItem x) →
      texts ≠ front ++ hiddenText count :: back := by
    intro count front back texts htexts heq
    have hmem : hiddenText count ∈ texts := by
      rw [heq]
      exact List.mem_append_right _ List.mem_cons_self
    exact (htexts _ hmem).ne_hidden count rfl
  unfold items at h
  by_cases hms : m ≤ 20
  · rw [if_pos hms] at hm h
    by_cases hns : n ≤ 20
    · rw [if_pos hns] at hn h
      exact ⟨by rw [← hm, ← hn, h], h⟩
    · rw [if_neg hns] at h
      exact absurd h (hhidden hx)
  · rw [if_neg hms] at hm h
    by_cases hns : n ≤ 20
    · rw [if_pos hns] at h
      exact absurd h.symm (hhidden hy)
    · rw [if_neg hns] at hn h
      have hfront : (xs.take 5).length = (ys.take 5).length := by
        rw [List.length_take, List.length_take, hm, hn]
      rcases List.append_inj h hfront with ⟨htake, hrest⟩
      rcases List.cons.inj hrest with ⟨hcount, hdrop⟩
      have hlen := hiddenText_inj hcount
      exact ⟨by omega, by rw [← List.take_append_drop 5 xs, htake, hdrop, List.take_append_drop]⟩

/-- The text of a sequence gives its length and the shown texts. -/
theorem sequenceText_inj {m n : Nat} {xs ys : List String} (hx : ∀ x ∈ xs, IsItem x)
    (hy : ∀ y ∈ ys, IsItem y) (hm : xs.length = if m ≤ 20 then m else 10)
    (hn : ys.length = if n ≤ 20 then n else 10) (h : sequenceText m xs = sequenceText n ys) :
    m = n ∧ xs = ys := by
  have hlist := congrArg String.toList h
  rw [toList_sequenceText, toList_sequenceText, List.append_cancel_right_eq, List.cons.injEq]
    at hlist
  have hpasses : ∀ {length : Nat} {texts : List String}, (∀ text ∈ texts, IsItem text) →
      ∀ item ∈ (items length texts).map String.toList, Passes 0 item ∧ item ≠ [] := by
    intro length texts htexts item hitem
    obtain ⟨text, htext, rfl⟩ := List.mem_map.1 hitem
    exact passes_of_mem_items htexts htext
  have hitems := intercalate_inj (hpasses hx) (hpasses hy) hlist.2
  exact items_inj hx hy hm hn (List.map_injective_iff.2 (fun _ _ => String.toList_inj.1) hitems)

/-! ## Values inside of values -/

/-- The elements of a value, none if it is no sequence. -/
def Value.parts : Value → List Value
  | .seq s => s.elements
  | _ => []

/-- What holds of a value if it holds of its elements holds of every value. -/
theorem Value.induct {motive : Value → Prop}
    (h : ∀ v : Value, (∀ w ∈ v.parts, motive w) → motive v) (v : Value) : motive v := by
  have hscalar : ∀ v : Value, v.parts = [] → motive v := fun v hparts => h v (by simp [hparts])
  refine @Value.rec motive (fun s => ∀ w ∈ s.elements, motive w) (fun xs => ∀ w ∈ xs, motive w)
    ?int ?float ?seq ?ints ?floats ?objects ?nil ?cons v
  case int => exact fun n => hscalar (.int n) rfl
  case float => exact fun x => hscalar (.float x) rfl
  case seq => exact fun s hs => h (.seq s) hs
  case ints =>
    intro xs w hw
    obtain ⟨n, -, rfl⟩ := List.mem_map.1 hw
    exact hscalar (.int n) rfl
  case floats =>
    intro xs w hw
    obtain ⟨x, -, rfl⟩ := List.mem_map.1 hw
    exact hscalar (.float x) rfl
  case objects => exact fun xs hxs => hxs
  case nil => simp
  case cons => exact fun x xs hx hxs => List.forall_mem_cons.2 ⟨hx, hxs⟩

/-- A value has the property, and so has every value in it, at any depth. -/
inductive Value.Everywhere (P : Value → Prop) : Value → Prop
  | intro {v : Value} (here : P v) (inside : ∀ w ∈ v.parts, Everywhere P w) : Everywhere P v

theorem Value.Everywhere.here {P : Value → Prop} {v : Value} (h : v.Everywhere P) : P v := by
  cases h with
  | intro here _ => exact here

theorem Value.Everywhere.inside {P : Value → Prop} {v : Value} (h : v.Everywhere P) :
    ∀ w ∈ v.parts, w.Everywhere P := by
  cases h with
  | intro _ inside => exact inside

theorem Value.everywhere_iff {P : Value → Prop} {v : Value} :
    v.Everywhere P ↔ P v ∧ ∀ w ∈ v.parts, w.Everywhere P :=
  ⟨fun h => ⟨h.here, h.inside⟩, fun h => .intro h.1 h.2⟩

/-- No float of the value is a NaN. -/
def Value.NaNFree : Value → Prop :=
  Everywhere fun v => ∀ x, v = .float x → x.isNaN = false

/-- No sequence of the value has more than twenty elements. -/
def Value.Short : Value → Prop :=
  Everywhere fun v => v.parts.length ≤ 20

/-! ## The texts of values -/

theorem isPlain_of_numeric {text : List Char} (h : FloatText.IsNumeric text) :
    ∀ c ∈ text, IsPlain c ∧ c ≠ ' ' := by
  intro c hc
  rcases h c hc with hdigit | hmark
  · exact isPlain_of_isDigit hdigit
  · clear hc h
    simp only [FloatText.marks, List.mem_cons, List.not_mem_nil, or_false] at hmark
    rcases hmark with rfl | rfl | rfl | rfl | rfl | rfl | rfl | rfl
    all_goals simp [IsPlain]

theorem isItem_of_numeric {text : List Char} (h : FloatText.IsNumeric text) (hne : text ≠ []) :
    IsItem (String.ofList text) := by
  have hplain := isPlain_of_numeric h
  constructor
  · rw [String.toList_ofList]
    exact passes_of_plain fun c hc => (hplain c hc).1
  · rwa [String.toList_ofList]
  · intro count hhidden
    have hlist := congrArg String.toList hhidden
    rw [String.toList_ofList, toList_hiddenText] at hlist
    have hspace : ' ' ∈ text := by
      rw [hlist]
      exact List.mem_append_left _ (by decide)
    exact (hplain ' ' hspace).2 rfl

theorem isItem_sequenceText {length : Nat} {texts : List String}
    (h : ∀ text ∈ texts, IsItem text) : IsItem (sequenceText length texts) := by
  constructor
  · rw [toList_sequenceText]
    refine (passes_intercalate fun item hitem => ?_).bracket
    obtain ⟨text, htext, rfl⟩ := List.mem_map.1 hitem
    exact (passes_of_mem_items h htext).1
  · rw [toList_sequenceText]
    simp
  · intro count hhidden
    have hlist := congrArg String.toList hhidden
    rw [toList_sequenceText, toList_hiddenText] at hlist
    have hhead := (List.cons.inj hlist).1
    exact absurd hhead (by decide)

/-- The text of a value is an item, whatever it contains. -/
theorem Value.isItem_text (v : Value) : IsItem v.text := by
  induction v using Value.induct with
  | h v ih =>
    cases v with
    | int n => exact isItem_of_numeric (FloatText.isNumeric_ofInt _) (Numeral.ofInt_ne_nil _)
    | float x =>
      rcases (FloatText.Fields.ofBits x.bits).exists_mem_text with ⟨c, hc, -⟩
      exact isItem_of_numeric (FloatText.Fields.isNumeric_text _) (List.ne_nil_of_mem hc)
    | seq s =>
      rw [Value.text, s.text_eq]
      apply isItem_sequenceText
      intro text htext
      obtain ⟨w, hw, rfl⟩ := List.mem_map.1 htext
      exact ih w (Sequence.mem_of_mem_shown hw)

/-- Nothing that is shown tells the values apart. -/
inductive Value.LooksLike : Value → Value → Prop
  | int (n : Int64) : LooksLike (.int n) (.int n)
  | float (x : Binary64) : LooksLike (.float x) (.float x)
  | seq {s t : Sequence} (length : s.length = t.length)
      (shown : List.Forall₂ (fun v w => v.text = w.text) s.shown t.shown) :
      LooksLike (.seq s) (.seq t)

theorem forall₂_text_iff {xs ys : List Value} :
    List.Forall₂ (fun v w => v.text = w.text) xs ys ↔ xs.map Value.text = ys.map Value.text := by
  rw [← List.forall₂_eq_eq_eq, List.forall₂_map_left_iff, List.forall₂_map_right_iff]

/-- Sequences have the same text exactly if they look alike. -/
theorem Sequence.text_eq_text_iff {s t : Sequence} :
    s.text = t.text ↔
      s.length = t.length ∧ List.Forall₂ (fun v w => v.text = w.text) s.shown t.shown := by
  rw [forall₂_text_iff]
  constructor
  · intro h
    rw [s.text_eq, t.text_eq] at h
    have hitems : ∀ u : Sequence, ∀ text ∈ u.shown.map Value.text, IsItem text := by
      intro u text htext
      obtain ⟨v, -, rfl⟩ := List.mem_map.1 htext
      exact v.isItem_text
    refine sequenceText_inj (hitems s) (hitems t) ?_ ?_ h
    · rw [List.length_map, s.length_shown]
    · rw [List.length_map, t.length_shown]
  · rintro ⟨hlength, hshown⟩
    rw [s.text_eq, t.text_eq, hlength, hshown]

/-- The text of a number is not that of a sequence. -/
theorem Sequence.text_ne_of_numeric (s : Sequence) {text : List Char}
    (h : FloatText.IsNumeric text) : s.text ≠ String.ofList text := by
  intro heq
  have hlist := congrArg String.toList heq
  rw [s.text_eq, toList_sequenceText, String.toList_ofList] at hlist
  have hopen : '[' ∈ text := hlist ▸ List.mem_cons_self
  exact (isPlain_of_numeric h '[' hopen).1.1 rfl

/-- Without NaNs, values have the same text exactly if they look alike. -/
theorem Value.text_eq_iff_looksLike {v w : Value} (hv : v.NaNFree) (hw : w.NaNFree) :
    v.text = w.text ↔ v.LooksLike w := by
  constructor
  · intro h
    cases v with
    | int n =>
      cases w with
      | int m =>
        cases Int64.toInt_inj.1 (Numeral.text_inj h)
        exact .int n
      | float y => exact absurd h.symm (floatText_ne_numeral y _)
      | seq t => exact absurd h.symm (t.text_ne_of_numeric (FloatText.isNumeric_ofInt _))
    | float x =>
      cases w with
      | int m => exact absurd h (floatText_ne_numeral x _)
      | float y =>
        cases floatText_inj (hv.here x rfl) (hw.here y rfl) h
        exact .float x
      | seq t => exact absurd h.symm (t.text_ne_of_numeric (FloatText.Fields.isNumeric_text _))
    | seq s =>
      cases w with
      | int m => exact absurd h (s.text_ne_of_numeric (FloatText.isNumeric_ofInt _))
      | float y => exact absurd h (s.text_ne_of_numeric (FloatText.Fields.isNumeric_text _))
      | seq t =>
        rcases Sequence.text_eq_text_iff.1 h with ⟨hlength, hshown⟩
        exact .seq hlength hshown
  · intro h
    cases h with
    | int n => rfl
    | float x => rfl
    | seq hlength hshown => exact Sequence.text_eq_text_iff.2 ⟨hlength, hshown⟩

/-! ## Texts and values -/

theorem sameAll_iff {xs ys : List Value} :
    sameAll xs ys = true ↔ List.Forall₂ (fun v w => v.same w = true) xs ys := by
  induction xs generalizing ys with
  | nil => cases ys <;> simp [sameAll]
  | cons x xs ih => cases ys <;> simp [sameAll, ih]

/-- Sequences are the same if their elements are, however they are stored. -/
theorem Sequence.sameElements_iff {s : Sequence} {ys : List Value} :
    s.sameElements ys = true ↔ List.Forall₂ (fun v w => v.same w = true) s.elements ys := by
  cases s with
  | ints xs =>
    rw [elements, List.forall₂_map_left_iff, List.forall₂_iff_zip, sameElements, Bool.and_eq_true,
      beq_iff_eq, List.all_eq_true, Prod.forall]
    refine and_congr_right fun _ => forall₂_congr fun n w => imp_congr_right fun _ => ?_
    cases w <;> simp [Value.same]
  | floats xs =>
    rw [elements, List.forall₂_map_left_iff, List.forall₂_iff_zip, sameElements, Bool.and_eq_true,
      beq_iff_eq, List.all_eq_true, Prod.forall]
    refine and_congr_right fun _ => forall₂_congr fun n w => imp_congr_right fun _ => ?_
    cases w <;> simp [Value.same]
  | objects xs => exact sameAll_iff

theorem forall₂_congr_of_mem {R S : Value → Value → Prop} {xs ys : List Value}
    (h : ∀ v ∈ xs, ∀ w ∈ ys, (R v w ↔ S v w)) : List.Forall₂ R xs ys ↔ List.Forall₂ S xs ys := by
  rw [List.forall₂_iff_zip, List.forall₂_iff_zip]
  refine and_congr_right fun _ => forall₂_congr fun v w => ?_
  constructor
  · exact fun hR hmem => (h v (List.of_mem_zip hmem).1 w (List.of_mem_zip hmem).2).1 (hR hmem)
  · exact fun hS hmem => (h v (List.of_mem_zip hmem).1 w (List.of_mem_zip hmem).2).2 (hS hmem)

theorem Sequence.shown_eq_elements {s : Sequence} (h : s.elements.length ≤ 20) :
    s.shown = s.elements := by
  rw [length_elements] at h
  rw [shown, if_pos h]

/-- Where nothing is left out, the text is the value. -/
theorem Value.text_eq_iff_same {v w : Value} (hv : v.NaNFree) (hw : w.NaNFree)
    (hvs : v.Short) (hws : w.Short) : v.text = w.text ↔ v.same w = true := by
  induction v using Value.induct generalizing w with
  | h v ih =>
    rw [text_eq_iff_looksLike hv hw]
    constructor
    · intro h
      cases h with
      | int n => exact beq_self_eq_true n
      | float x => exact beq_self_eq_true x
      | @seq s t hlength hshown =>
        rw [Sequence.shown_eq_elements hvs.here, Sequence.shown_eq_elements hws.here] at hshown
        refine Sequence.sameElements_iff.2 ((forall₂_congr_of_mem fun x hx y hy => ?_).1 hshown)
        exact ih x hx (hv.inside x hx) (hw.inside y hy) (hvs.inside x hx) (hws.inside y hy)
    · intro h
      cases v with
      | int n =>
        cases w with
        | int m =>
          cases eq_of_beq h
          exact .int n
        | float y => exact absurd h Bool.false_ne_true
        | seq t => exact absurd h Bool.false_ne_true
      | float x =>
        cases w with
        | int m => exact absurd h Bool.false_ne_true
        | float y =>
          cases eq_of_beq h
          exact .float x
        | seq t => exact absurd h Bool.false_ne_true
      | seq s =>
        cases w with
        | int m => exact absurd h Bool.false_ne_true
        | float y => exact absurd h Bool.false_ne_true
        | seq t =>
          have hsame := Sequence.sameElements_iff.1 h
          have hlength := hsame.length_eq
          rw [Sequence.length_elements, Sequence.length_elements] at hlength
          refine .seq hlength ?_
          rw [Sequence.shown_eq_elements hvs.here, Sequence.shown_eq_elements hws.here]
          refine (forall₂_congr_of_mem fun x hx y hy => ?_).2 hsame
          exact ih x hx (hv.inside x hx) (hw.inside y hy) (hvs.inside x hx) (hws.inside y hy)

/-- The text of a value determines all of it that is shown: two values without NaNs have the same
text exactly if they are the same integer, the same float, bit by bit, or sequences of the same
length with the same texts of the elements that are shown.  If no sequence in them is so long that
elements are left out, that makes them the same value. -/
theorem Value.text_determines {a b : Value} (ha : a.NaNFree) (hb : b.NaNFree) :
    (a.text = b.text ↔ a.LooksLike b) ∧
      (a.Short → b.Short → (a.text = b.text ↔ a.same b = true)) :=
  ⟨text_eq_iff_looksLike ha hb, text_eq_iff_same ha hb⟩

/-- The integers one and two have the same text as bare words and as values.  So have two rows of
twenty-one infinities that differ in the middle. -/
theorem Value.text_determines_rows :
    let inf : Value := .float ⟨0x7FF0000000000000⟩
    let row (middle : Value) : Value :=
      .seq (.objects (.replicate 10 inf ++ middle :: .replicate 10 inf))
    let words : Value := .seq (.ints [1, 2])
    let values : Value := .seq (.objects [.int 1, .int 2])
    ((row words).NaNFree ∧ (row (.int 3)).NaNFree ∧ (row words).LooksLike (row (.int 3)) ∧
      (row words).text = (row (.int 3)).text) ∧
    (words.NaNFree ∧ values.NaNFree ∧ words.Short ∧ values.Short ∧ words.same values = true ∧
      words.text = values.text) := by
  intro inf row words values
  have hinf : inf.NaNFree := by
    refine everywhere_iff.2 ⟨fun x hx => ?_, by simp [inf, parts]⟩
    obtain rfl := Value.float.inj hx
    decide
  have hint : ∀ n, (Value.int n).NaNFree := fun n => everywhere_iff.2 (by simp [parts])
  have hwords : words.NaNFree := everywhere_iff.2 (by
    simpa [words, parts, Sequence.elements] using ⟨hint 1, hint 2⟩)
  have hvalues : values.NaNFree := everywhere_iff.2 (by
    simpa [values, parts, Sequence.elements] using ⟨hint 1, hint 2⟩)
  have hrow : ∀ v : Value, v.NaNFree → (row v).NaNFree := by
    intro v hv
    refine everywhere_iff.2 ⟨by simp [row], fun w hw => ?_⟩
    simp only [row, parts, Sequence.elements, List.mem_append, List.mem_cons,
      List.mem_replicate] at hw
    rcases hw with ⟨-, rfl⟩ | rfl | ⟨-, rfl⟩
    · exact hinf
    · exact hv
    · exact hinf
  have hshort : words.Short ∧ values.Short := by
    have hone : ∀ n, (Value.int n).Short := fun n => everywhere_iff.2 (by simp [parts])
    constructor
    · exact everywhere_iff.2 (by simpa [words, parts, Sequence.elements] using ⟨hone 1, hone 2⟩)
    · exact everywhere_iff.2 (by simpa [values, parts, Sequence.elements] using ⟨hone 1, hone 2⟩)
  have halike : (row words).LooksLike (row (.int 3)) :=
    .seq rfl (List.forall₂_same.2 fun _ _ => rfl)
  exact ⟨⟨hrow _ hwords, hrow _ (hint 3), halike,
      (text_determines (hrow _ hwords) (hrow _ (hint 3))).1.2 halike⟩,
    ⟨hwords, hvalues, hshort.1, hshort.2, by decide,
      ((text_determines hwords hvalues).2 hshort.1 hshort.2).2 (by decide)⟩⟩

end SeqCalc
