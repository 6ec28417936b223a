import SeqCalc.Proofs.Value.Traversal

/-!
# What parallel traversals can come to

The answer of a parallel traversal is not determined: a fold may put its brackets in any way that
keeps the items in order, and where several items fail, any of their failures may be the answer.  So
a computation is described by all answers that it can give.  It follows a computation in order if
the success of the latter leaves it no other answer.

Main results:

- `Outcomes.Follows.bind`: following, for computations one after the other.
- `Mode.follows_mapOutcomes`: a map follows the map in order.
- `Bracketing.exists_follows`: what the brackets of a fold can come to.
- `Mode.follows_reduceOutcomes`: a fold by an associative operation follows the fold in order.
-/

namespace SeqCalc

/-- A computation by the answers that it can give. -/
structure Outcomes (α : Type) where
  Admits : Except Fault α → Prop

namespace Outcomes

variable {α β : Type}

/-- A computation that has no choice. -/
def exactly (x : Except Fault α) : Outcomes α :=
  ⟨fun r => r = x⟩

instance : Monad Outcomes where
  pure a := exactly (.ok a)
  bind X f :=
    ⟨fun r => (∃ a, X.Admits (.ok a) ∧ (f a).Admits r) ∨ ∃ e, X.Admits (.error e) ∧ r = .error e⟩

instance : MonadLift (Except Fault) Outcomes where
  monadLift := exactly

theorem admits_exactly (x : Except Fault α) : (exactly x).Admits x :=
  rfl

/-- An answer of one computation and then one of the next. -/
theorem admits_bind {X : Outcomes α} {x : Except Fault α} {f : α → Outcomes β}
    {g : α → Except Fault β} (hx : X.Admits x) (hf : ∀ a, (f a).Admits (g a)) :
    (X >>= f).Admits (x >>= g) := by
  cases x with
  | ok a => exact .inl ⟨a, hx, hf a⟩
  | error e => exact .inr ⟨e, hx, rfl⟩

theorem admits_map {X : Outcomes α} {x : Except Fault α} (k : α → β) (hx : X.Admits x) :
    (k <$> X).Admits (k <$> x) := by
  cases x with
  | ok a => exact .inl ⟨a, hx, rfl⟩
  | error e => exact .inr ⟨e, hx, rfl⟩

/-- If a computation in order succeeds, its value is the only answer. -/
def Follows (X : Outcomes α) (x : Except Fault α) : Prop :=
  ∀ a, x = .ok a → ∀ r, X.Admits r → r = .ok a

namespace Follows

theorem exactly (x : Except Fault α) : (Outcomes.exactly x).Follows x := by
  intro a hx r hr
  exact Eq.trans hr hx

theorem bind {X : Outcomes α} {x : Except Fault α} {f : α → Outcomes β} {g : α → Except Fault β}
    (hX : X.Follows x) (hf : ∀ a, x = .ok a → (f a).Follows (g a)) :
    (X >>= f).Follows (x >>= g) := by
  intro b hb r hr
  cases hx : x with
  | error e =>
    rw [hx] at hb
    contradiction
  | ok a =>
    rw [hx] at hb
    rcases hr with ⟨a', ha', hr⟩ | ⟨e, he, -⟩
    · have hsame := hX a hx _ ha'
      rw [Except.ok.injEq] at hsame
      subst hsame
      exact hf a' hx b hb r hr
    · have := hX a hx _ he
      contradiction

theorem map {X : Outcomes α} {x : Except Fault α} (hX : X.Follows x) (k : α → β) :
    (k <$> X).Follows (k <$> x) := by
  have hpure : (X >>= fun a => pure (k a)).Follows (x >>= fun a => pure (k a)) :=
    hX.bind fun a _ => .exactly (.ok (k a))
  have hmap : k <$> x = x >>= fun a => pure (k a) := by
    cases x <;> rfl
  rw [hmap]
  exact hpure

end Follows

end Outcomes

/-! ## Maps -/

namespace Mode

variable {α β : Type}

/-- What a map can answer with: an answer for each item, collected as the mode has it. -/
def mapOutcomes (mode : Mode) (f : α → Outcomes β) (xs : List α) : Outcomes (List β) :=
  ⟨fun r => ∃ results, List.Forall₂ (fun x result => (f x).Admits result) xs results ∧
    mode.Maps id results r⟩

theorem admits_mapOutcomes (mode : Mode) {f : α → Outcomes β} {g : α → Except Fault β}
    (h : ∀ x, (f x).Admits (g x)) (xs : List α) :
    (mode.mapOutcomes f xs).Admits (mode.mapM g xs) := by
  refine ⟨xs.map g, ?_, ?_⟩
  · rw [List.forall₂_map_right_iff]
    exact List.forall₂_same.2 fun x _ => h x
  · have hmaps := mode.maps_mapM id (xs.map g)
    rwa [Mode.mapM, List.mapM_map] at hmaps

/-- If all items succeed, each has its value for an answer, and there is nothing else to collect. -/
theorem follows_mapOutcomes (mode : Mode) {f : α → Outcomes β} {g : α → Except Fault β}
    {xs : List α} (h : ∀ x ∈ xs, (f x).Follows (g x)) :
    (mode.mapOutcomes f xs).Follows (xs.mapM g) := by
  rintro ys hys r ⟨results, hresults, hmaps⟩
  have hsame : results.mapM id = .ok ys := by
    rw [mapM_eq_ok_iff] at hys ⊢
    clear hmaps
    induction hresults generalizing ys with
    | nil =>
      cases hys
      exact .nil
    | @cons x result xs results hresult _ ih =>
      cases hys with
      | cons hy hys =>
        exact .cons (h x List.mem_cons_self _ hy _ hresult)
          (ih (fun a ha => h a (List.mem_cons_of_mem x ha)) _ hys)
  exact hmaps.collects.eq_ok_iff.2 hsame

end Mode

/-! ## Folds -/

section Folds

variable {α : Type}

/-- An operation on certain values that never fails and does not mind brackets. -/
structure AssociativeOn (P : α → Prop) (op : α → α → Except Fault α) : Prop where
  total : ∀ a b, P a → P b → ∃ c, op a b = .ok c
  assoc : ∀ a b c, P a → P b → P c →
    (do op (← op a b) c) = (do op a (← op b c))

namespace Bracketing

/--
What combining the items of a bracketing can answer with.  The parts of a pair are worked on at the
same time, so that the failure of either may come first.
-/
def outcomes (op : α → α → Outcomes α) : Bracketing α → Outcomes α
  | item a => .exactly (.ok a)
  | pair left right =>
    ⟨fun r =>
      (∃ a b, (left.outcomes op).Admits (.ok a) ∧ (right.outcomes op).Admits (.ok b) ∧
        (op a b).Admits r) ∨
      ∃ e, ((left.outcomes op).Admits (.error e) ∨ (right.outcomes op).Admits (.error e)) ∧
        r = .error e⟩

theorem admits_outcomes {op : α → α → Outcomes α} {g : α → α → Except Fault α}
    (h : ∀ a b, (op a b).Admits (g a b)) (t : Bracketing α) :
    (t.outcomes op).Admits (t.combine g) := by
  induction t with
  | item a => exact rfl
  | pair left right ihl ihr =>
    rw [combine]
    cases hl : left.combine g with
    | error e =>
      rw [hl] at ihl
      exact .inr ⟨e, .inl ihl, rfl⟩
    | ok a =>
      rw [hl] at ihl
      cases hr : right.combine g with
      | error e =>
        rw [hr] at ihr
        exact .inr ⟨e, .inr ihr, rfl⟩
      | ok b =>
        rw [hr] at ihr
        exact .inl ⟨a, b, ihl, ihr, h a b⟩

/--
Combining by an associative operation can come to one value only.  To take it in at once is to take
in the items one by one; the start value is generalized over for the right part of a pair.
-/
theorem exists_follows {P : α → Prop} {op : α → α → Except Fault α} {op' : α → α → Outcomes α}
    (hassoc : AssociativeOn P op) (hclosed : ∀ a b, P a → P b → Yields P (op a b))
    (hop : ∀ a b, P a → P b → (op' a b).Follows (op a b)) (t : Bracketing α)
    (ht : ∀ a ∈ t.leaves, P a) :
    ∃ v, P v ∧ (t.outcomes op').Follows (.ok v) ∧
      ∀ start, P start → op start v = t.leaves.foldlM op start := by
  induction t with
  | item a =>
    refine ⟨a, ht a (List.mem_singleton.2 rfl), .exactly _, ?_⟩
    intro start _
    rw [leaves, List.foldlM_cons]
    exact (bind_pure _).symm
  | pair left right ihl ihr =>
    rcases ihl fun a ha => ht a (List.mem_append_left _ ha) with ⟨a, ha, hleft, hfoldl⟩
    rcases ihr fun a ha => ht a (List.mem_append_right _ ha) with ⟨b, hb, hright, hfoldr⟩
    rcases hassoc.total a b ha hb with ⟨v, hv⟩
    have hclosedv := hclosed a b ha hb
    rw [hv] at hclosedv
    refine ⟨v, hclosedv, ?_, ?_⟩
    · rintro _ ⟨⟩ r (⟨a', b', ha', hb', hr⟩ | ⟨e, he | he, -⟩)
      · have hsamea := hleft a rfl _ ha'
        have hsameb := hright b rfl _ hb'
        rw [Except.ok.injEq] at hsamea hsameb
        subst hsamea
        subst hsameb
        exact hop a' b' ha hb v hv r hr
      · have := hleft a rfl _ he
        contradiction
      · have := hright b rfl _ he
        contradiction
    · intro start hstart
      rcases hassoc.total start a hstart ha with ⟨c, hc⟩
      have hPc := hclosed start a hstart ha
      rw [hc] at hPc
      calc
        op start v = (do op start (← op a b)) := by rw [hv]; rfl
        _ = (do op (← op start a) b) := (hassoc.assoc start a b hstart ha hb).symm
        _ = op c b := by rw [hc]; rfl
        _ = right.leaves.foldlM op c := hfoldr c hPc
        _ = (do right.leaves.foldlM op (← left.leaves.foldlM op start)) := by
          rw [← hfoldl start hstart, hc]; rfl
        _ = (left.leaves ++ right.leaves).foldlM op start := List.foldlM_append.symm

end Bracketing

namespace Mode

/-- What a fold can answer with: in parallel, whatever some bracketing of the items can come to. -/
def reduceOutcomes (mode : Mode) (op : α → α → Outcomes α) (neutral : α) (xs : List α) :
    Outcomes α :=
  if mode.isParallelFor xs.length then
    ⟨fun r => ∃ brackets, Bracketing.Around xs brackets ∧
      match brackets with
      | none => r = .ok neutral
      | some t => (do op neutral (← t.outcomes op) : Outcomes α).Admits r⟩
  else
    xs.foldlM op neutral

theorem admits_foldlM {op : α → α → Outcomes α} {g : α → α → Except Fault α}
    (h : ∀ a b, (op a b).Admits (g a b)) (xs : List α) (neutral : α) :
    (xs.foldlM op neutral : Outcomes α).Admits (xs.foldlM g neutral) := by
  induction xs generalizing neutral with
  | nil => exact rfl
  | cons x xs ih =>
    rw [List.foldlM_cons, List.foldlM_cons]
    exact Outcomes.admits_bind (h neutral x) ih

theorem admits_reduceOutcomes (mode : Mode) {op : α → α → Outcomes α}
    {g : α → α → Except Fault α} (h : ∀ a b, (op a b).Admits (g a b)) (neutral : α)
    (xs : List α) : (mode.reduceOutcomes op neutral xs).Admits (mode.reduceM g neutral xs) := by
  unfold reduceOutcomes reduceM
  by_cases hparallel : mode.isParallelFor xs.length = true
  · rw [if_pos hparallel, if_pos hparallel]
    cases xs with
    | nil => exact ⟨none, rfl, rfl⟩
    | cons a rest =>
      refine ⟨some (.balanced a rest), Bracketing.leaves_balanced a rest, ?_⟩
      exact Outcomes.admits_bind (Bracketing.admits_outcomes h _) fun partly => h neutral partly
  · rw [if_neg hparallel, if_neg hparallel]
    exact admits_foldlM h xs neutral

/-- A fold by an associative operation follows the fold in order, whatever its brackets are. -/
theorem follows_reduceOutcomes (mode : Mode) {P : α → Prop} {op : α → α → Except Fault α}
    {op' : α → α → Outcomes α} (hassoc : AssociativeOn P op)
    (hclosed : ∀ a b, P a → P b → Yields P (op a b))
    (hop : ∀ a b, P a → P b → (op' a b).Follows (op a b)) {neutral : α} (hn : P neutral)
    {xs : List α} (hxs : ∀ a ∈ xs, P a) :
    (mode.reduceOutcomes op' neutral xs).Follows (xs.foldlM op neutral) := by
  unfold reduceOutcomes
  by_cases hparallel : mode.isParallelFor xs.length = true
  · rw [if_pos hparallel]
    rintro w hw r ⟨brackets, haround, hr⟩
    cases brackets with
    | none =>
      have hnil : xs = [] := haround
      subst hnil
      exact Eq.trans hr hw
    | some t =>
      have hleaves : t.leaves = xs := haround
      obtain ⟨v, hv, hcombine, hfold⟩ :=
        Bracketing.exists_follows hassoc hclosed hop t (hleaves ▸ hxs)
      have hfollows : (do op' neutral (← t.outcomes op') : Outcomes α).Follows
          (do op neutral (← .ok v)) := by
        apply hcombine.bind
        intro partly hpartly
        cases hpartly
        exact hop neutral v hn hv
      refine hfollows w ?_ r hr
      rw [ok_bind, hfold neutral hn, hleaves, hw]
  · rw [if_neg hparallel]
    clear hparallel
    induction xs generalizing neutral with
    | nil => exact .exactly _
    | cons x xs ih =>
      rw [List.foldlM_cons, List.foldlM_cons]
      apply (hop neutral x hn (hxs x List.mem_cons_self)).bind
      intro c hc
      have hPc := hclosed neutral x hn (hxs x List.mem_cons_self)
      rw [hc] at hPc
      exact ih hPc fun a ha => hxs a (List.mem_cons_of_mem x ha)

end Mode

end Folds

/-! ## Sequences -/

namespace Sequence

/-- What a map over a sequence can answer with. -/
def mapOutcomes (mode : Mode) (kind : Kind) (f : Value → Outcomes Value) (s : Sequence) :
    Outcomes Sequence :=
  match kind with
  | .int => .ints <$> mode.mapOutcomes (fun v => do .exactly (← f v).asInt) s.elements
  | .float => .floats <$> mode.mapOutcomes (fun v => do .exactly (← f v).asFloat) s.elements
  | .object => .objects <$> mode.mapOutcomes f s.elements

/-- What a fold of a sequence can answer with. -/
def reduceOutcomes (mode : Mode) (op : Value → Value → Outcomes Value) (neutral : Value)
    (s : Sequence) : Outcomes Value :=
  mode.reduceOutcomes op neutral (s.elementsAs neutral.kind)

theorem admits_mapOutcomes (mode : Mode) {f : Value → Outcomes Value}
    {g : Value → Except Fault Value} (h : ∀ v, (f v).Admits (g v)) (kind : Kind) (s : Sequence) :
    (s.mapOutcomes mode kind f).Admits (s.mapM mode kind g) := by
  cases kind with
  | int =>
    apply Outcomes.admits_map
    exact mode.admits_mapOutcomes
      (fun v => Outcomes.admits_bind (h v) fun w => Outcomes.admits_exactly w.asInt) s.elements
  | float =>
    apply Outcomes.admits_map
    exact mode.admits_mapOutcomes
      (fun v => Outcomes.admits_bind (h v) fun w => Outcomes.admits_exactly w.asFloat) s.elements
  | object =>
    apply Outcomes.admits_map
    exact mode.admits_mapOutcomes h s.elements

theorem follows_mapOutcomes (mode : Mode) {f : Value → Outcomes Value}
    {g : Value → Except Fault Value} {s : Sequence} (h : ∀ v ∈ s.elements, (f v).Follows (g v))
    (kind : Kind) : (s.mapOutcomes mode kind f).Follows (s.mapM .sequential kind g) := by
  cases kind with
  | int =>
    apply Outcomes.Follows.map
    exact mode.follows_mapOutcomes fun v hv => (h v hv).bind fun w _ => .exactly _
  | float =>
    apply Outcomes.Follows.map
    exact mode.follows_mapOutcomes fun v hv => (h v hv).bind fun w _ => .exactly _
  | object =>
    apply Outcomes.Follows.map
    exact mode.follows_mapOutcomes h

end Sequence
end SeqCalc
