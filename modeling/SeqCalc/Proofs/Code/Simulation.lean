import SeqCalc.Code.Native
import SeqCalc.Proofs.Value.Computation

/-!
# Computations that go on after a fault

The native machine does not stop at a fault: it records the first one and goes on.  Two facts make
up for that.  Once a fault is recorded, every computation leaves the record as it is, whatever it
computes on; and from a clear record a computation either does what an evaluation that stops would
do, or it records the fault at which that one stops.  Inside a traversal the record is looked at
after each step, so there a computation stops as well.

Main results:

- `Native.Computes.bind`: computations one after the other, as their evaluations.
- `Native.Stops.bind`, `Native.Stops.mapM`, `Native.Stops.reduceM`: the same inside a traversal.
- `Native.Computes.settle`: the result of a traversal.
-/

namespace SeqCalc

namespace FaultRecord

/-- The record after a first fault. -/
def of (e : Fault) : FaultRecord :=
  ⟨true, some e⟩

@[simp]
theorem fail_clear (e : Fault) : clear.fail e = of e :=
  rfl

@[simp]
theorem fail_of (e e' : Fault) : (of e).fail e' = of e :=
  rfl

end FaultRecord

namespace Bracketing

variable {α β : Type}

/-- The same brackets around other items. -/
def map (f : α → β) : Bracketing α → Bracketing β
  | item a => item (f a)
  | pair left right => pair (left.map f) (right.map f)

/-- How a list is halved is a matter of its length alone. -/
theorem map_balanced (f : α → β) (a : α) (xs : List α) :
    (balanced a xs).map f = balanced (f a) (xs.map f) := by
  fun_induction balanced a xs with
  | case1 a xs hx =>
    rw [balanced]
    split
    · rfl
    · rename_i b ys hy
      rw [List.length_map, ← List.map_drop, hx] at hy
      contradiction
  | case2 a xs b ys hx ihl ihr =>
    rw [map, ihl, ihr, List.map_take, balanced.eq_def (f a) (xs.map f)]
    split
    · rename_i hy
      rw [List.length_map, ← List.map_drop, hx] at hy
      contradiction
    · rename_i c zs hy
      rw [List.length_map, ← List.map_drop, hx, List.map_cons, List.cons.injEq] at hy
      rw [← hy.1, ← hy.2, List.length_map]

end Bracketing

namespace Native

variable {α β γ : Type}

theorem run_bind (y : Native α) (f : α → Native β) (r : FaultRecord) :
    (y >>= f).run r = (f (y.run r).1).run (y.run r).2 :=
  rfl

/-! ## After a fault -/

/-- Once a fault is recorded, the record stays as it is. -/
def Sticky (y : Native α) : Prop :=
  ∀ e, (y.run (.of e)).2 = .of e

namespace Sticky

theorem pure (a : α) : Sticky (Pure.pure a : Native α) := by
  intro e
  rfl

theorem bind {y : Native α} {f : α → Native β} (hy : Sticky y) (hf : ∀ a, Sticky (f a)) :
    Sticky (y >>= f) := by
  intro e
  change ((f (y.run (.of e)).1).run (y.run (.of e)).2).2 = .of e
  rw [hy e]
  exact hf _ e

theorem fail (e : Fault) : Sticky (Native.fail e) := by
  intro e'
  rfl

theorem checked (r : Except Fault Int64) : Sticky (Native.checked r) := by
  cases r with
  | ok n => exact .pure n
  | error e => exact .bind (.fail e) fun _ => .pure 0

/-- After a fault no sequence is made. -/
theorem newRange (elements : Except Fault (List Int64)) : Sticky (Native.newRange elements) := by
  intro e
  rfl

/-- After a fault no sequence is traversed. -/
theorem mapLanes (mode : Mode) (source target : Kind) (f : Register → Native Register)
    (seq : Option Sequence) : Sticky (Native.mapLanes mode source target f seq) := by
  intro e
  cases seq <;> rfl

theorem reduceLanes (mode : Mode) (acc : Kind) (f : Register → Register → Native Register)
    (neutral : Register) (seq : Option Sequence) :
    Sticky (Native.reduceLanes mode acc f neutral seq) := by
  intro e
  cases seq <;> rfl

end Sticky

/-- Code of any kind, well-typed or not, leaves a recorded fault alone. -/
theorem sticky_execute (mode : Mode) (code : Code) :
    ∀ args, Sticky (code.execute mode args) := by
  induction code with
  | param slot => exact fun args => .pure _
  | int n => exact fun args => .pure _
  | float x => exact fun args => .pure _
  | neg kind operand ih =>
    intro args
    refine .bind (ih args) fun r => ?_
    cases kind <;> exact .pure _
  | arith kind op left right ihl ihr =>
    intro args
    refine .bind (ihl args) fun r => .bind (ihr args) fun s => ?_
    cases kind with
    | float => exact .pure _
    | int | unknown => exact .bind (.checked _) fun n => .pure _
  | cast source target operand ih =>
    intro args
    refine .bind (ih args) fun r => ?_
    split
    · exact .pure _
    · split <;> exact .pure _
  | range closed first last ihf ihl =>
    intro args
    refine .bind (ihf args) fun r => .bind (ihl args) fun s => ?_
    split
    · exact .bind (.newRange _) fun xs => .pure _
    · exact .bind (.newRange _) fun xs => .pure _
  | map seq profile body source target ihs ihb =>
    intro args
    exact .bind (ihs args) fun r => .mapLanes _ _ _ _ _
  | reduce seq neutral profile body element acc ihs ihn ihb =>
    intro args
    exact .bind (ihs args) fun r => .bind (ihn args) fun s => .reduceLanes _ _ _ _ _

/-! ## From a clear record -/

/--
From a clear record a native computation does what an evaluation does: it gives the representation
of the value and keeps the record clear, or it records the fault.
-/
def Computes (rep : α → β) (y : Native β) : Except Fault α → Prop
  | .ok a => y.run .clear = (rep a, .clear)
  | .error e => (y.run .clear).2 = .of e

namespace Computes

theorem pure {rep : α → β} (a : α) : Computes rep (Pure.pure (rep a)) (.ok a) :=
  rfl

/--
Two computations in a row.  If the first evaluation stops, the second computation still runs, on
whatever the first one left, and does not touch the record.
-/
theorem bind {δ : Type} {rep : α → β} {rep' : γ → δ} {y : Native β} {x : Except Fault α}
    {f : β → Native δ} {g : α → Except Fault γ} {P : α → Prop} (hy : Computes rep y x)
    (hx : Yields P x) (hf : ∀ a, P a → Computes rep' (f (rep a)) (g a))
    (hs : ∀ b, Sticky (f b)) : Computes rep' (y >>= f) (x >>= g) := by
  cases x with
  | ok a =>
    have hrun : (y >>= f).run .clear = (f (rep a)).run .clear := by
      change (f (y.run .clear).1).run (y.run .clear).2 = _
      rw [show y.run .clear = (rep a, .clear) from hy]
    have hnext := hf a hx
    rw [ok_bind]
    cases hg : g a with
    | ok c =>
      rw [hg] at hnext
      exact hrun.trans hnext
    | error e =>
      rw [hg] at hnext
      exact (congrArg Prod.snd hrun).trans hnext
  | error e =>
    -- nothing is known about the value that `f` goes on with
    change ((f (y.run .clear).1).run (y.run .clear).2).2 = .of e
    rw [show (y.run .clear).2 = .of e from hy]
    exact hs _ e

/-- Only the run from a clear record matters. -/
theorem congr {rep : α → β} {y y' : Native β} {x : Except Fault α}
    (h : y.run .clear = y'.run .clear) (hy : Computes rep y' x) : Computes rep y x := by
  cases x with
  | ok a => exact h.trans hy
  | error e => exact (congrArg Prod.snd h).trans hy

theorem map_right {rep : γ → β} {y : Native β} {x : Except Fault α} {k : α → γ}
    (hy : Computes (fun a => rep (k a)) y x) : Computes rep y (k <$> x) := by
  cases x <;> exact hy

theorem checked (r : Except Fault Int64) : Computes id (Native.checked r) r := by
  cases r <;> rfl

theorem newRange (elements : Except Fault (List Int64)) :
    Computes (fun xs => some (.ints xs)) (Native.newRange elements) elements := by
  cases elements <;> rfl

end Computes

/-! ## Inside a traversal -/

/-- From a clear record, a step of a traversal stops with the fault of the evaluation. -/
def Stops (rep : α → β) (y : ExceptT Fault Native β) : Except Fault α → Prop
  | .ok a => y.run.run .clear = (.ok (rep a), .clear)
  | .error e => y.run.run .clear = (.error e, .of e)

namespace Stops

theorem pure {rep : α → β} (a : α) : Stops rep (Pure.pure (rep a)) (.ok a) :=
  rfl

/-- A guarded step stops, since it looks at the record when it has been done. -/
theorem guarded {δ : Type} {rep : α → β} {rep' : α → δ} {y : Native β} {x : Except Fault α}
    {element : β → Except Fault δ} {P : α → Prop} (hy : Computes rep y x) (hx : Yields P x)
    (helement : ∀ a, P a → element (rep a) = .ok (rep' a)) :
    Stops rep' (Native.guarded do return element (← y)) x := by
  have hstep : (do return element (← y) : Native (Except Fault δ)).run .clear =
      (element (y.run .clear).1, (y.run .clear).2) := rfl
  cases x with
  | ok a =>
    have hrun : y.run .clear = (rep a, .clear) := hy
    have helem : element (rep a) = .ok (rep' a) := helement a hx
    rw [Stops, Native.guarded, ExceptT.run_mk, run_bind, hstep, hrun, helem]
    rfl
  | error e =>
    have hrun : (y.run .clear).2 = .of e := hy
    rw [Stops, Native.guarded, ExceptT.run_mk, run_bind, hstep, hrun]
    rfl

theorem bind {δ : Type} {rep : α → β} {rep' : γ → δ} {y : ExceptT Fault Native β}
    {x : Except Fault α} {f : β → ExceptT Fault Native δ} {g : α → Except Fault γ}
    (hy : Stops rep y x) (hf : ∀ a, x = .ok a → Stops rep' (f (rep a)) (g a)) :
    Stops rep' (y >>= f) (x >>= g) := by
  cases x with
  | ok a =>
    have hrun : (y >>= f).run.run .clear = (f (rep a)).run.run .clear := by
      rw [ExceptT.run_bind, StateT.run_bind, show y.run.run .clear = (.ok (rep a), .clear) from hy]
      rfl
    have hnext := hf a rfl
    rw [ok_bind]
    cases hg : g a with
    | ok c =>
      rw [hg] at hnext
      exact hrun.trans hnext
    | error e =>
      rw [hg] at hnext
      exact hrun.trans hnext
  | error e =>
    change (y >>= f).run.run .clear = _
    rw [ExceptT.run_bind, StateT.run_bind, show y.run.run .clear = (.error e, .of e) from hy]
    rfl

/-- A traversal whose result is wrapped up at the end. -/
theorem map {δ : Type} {rep : α → β} {y : ExceptT Fault Native β} {x : Except Fault α} (k : β → δ)
    (hy : Stops rep y x) :
    Stops (fun a => k (rep a)) (ExceptT.mk do return (← y.run).map k) x := by
  have hstep : (ExceptT.mk do return (← y.run).map k : ExceptT Fault Native δ).run.run .clear =
      ((y.run.run .clear).1.map k, (y.run.run .clear).2) := rfl
  cases x with
  | ok a =>
    have hrun : y.run.run .clear = (.ok (rep a), .clear) := hy
    rw [hrun] at hstep
    exact hstep
  | error e =>
    have hrun : y.run.run .clear = (.error e, .of e) := hy
    rw [hrun] at hstep
    exact hstep

/-- A step on every item, in order. -/
theorem mapM {rep : α → β} {f : β → ExceptT Fault Native γ} {g : α → Except Fault γ}
    {xs : List α} (h : ∀ a ∈ xs, Stops id (f (rep a)) (g a)) :
    Stops id ((xs.map rep).mapM f) (xs.mapM g) := by
  induction xs with
  | nil => exact .pure []
  | cons x xs ih =>
    rw [List.map_cons, List.mapM_cons, List.mapM_cons]
    apply (h x List.mem_cons_self).bind
    intro c _
    refine (ih fun a ha => h a (List.mem_cons_of_mem x ha)).bind ?_
    intro cs _
    exact .pure (c :: cs)

/-- A step on an accumulator and every item, in order. -/
theorem foldlM {δ : Type} {rep : α → β} {rep' : γ → δ} {f : δ → β → ExceptT Fault Native δ}
    {g : γ → α → Except Fault γ} {xs : List α} {Q : γ → Prop} {c : γ} (hc : Q c)
    (hg : ∀ a ∈ xs, ∀ c, Q c → Yields Q (g c a))
    (h : ∀ a ∈ xs, ∀ c, Q c → Stops rep' (f (rep' c) (rep a)) (g c a)) :
    Stops rep' ((xs.map rep).foldlM f (rep' c)) (xs.foldlM g c) := by
  induction xs generalizing c with
  | nil => exact .pure c
  | cons x xs ih =>
    rw [List.map_cons, List.foldlM_cons, List.foldlM_cons]
    apply (h x List.mem_cons_self c hc).bind
    intro d hd
    have hnext := hg x List.mem_cons_self c hc
    rw [hd] at hnext
    exact ih hnext (fun a ha => hg a (List.mem_cons_of_mem x ha))
      fun a ha => h a (List.mem_cons_of_mem x ha)

/-- The combined items of a bracketing. -/
theorem combine {rep : α → β} {f : β → β → ExceptT Fault Native β} {g : α → α → Except Fault α}
    {Q : α → Prop} (hg : ∀ a b, Q a → Q b → Yields Q (g a b))
    (h : ∀ a b, Q a → Q b → Stops rep (f (rep a) (rep b)) (g a b)) (t : Bracketing α)
    (ht : ∀ a ∈ t.leaves, Q a) : Stops rep ((t.map rep).combine f) (t.combine g) := by
  induction t with
  | item a => exact .pure a
  | pair left right ihl ihr =>
    have hleft : ∀ a ∈ left.leaves, Q a := fun a ha => ht a (List.mem_append_left _ ha)
    have hright : ∀ a ∈ right.leaves, Q a := fun a ha => ht a (List.mem_append_right _ ha)
    apply (ihl hleft).bind
    intro a ha
    apply (ihr hright).bind
    intro b hb
    have hya := Bracketing.yields_combine hg left hleft
    have hyb := Bracketing.yields_combine hg right hright
    rw [ha] at hya
    rw [hb] at hyb
    exact h a b hya hyb

/-- A fold in any mode. -/
theorem reduceM {rep : α → β} {f : β → β → ExceptT Fault Native β} {g : α → α → Except Fault α}
    {xs : List α} {Q : α → Prop} {c : α} (mode : Mode) (hc : Q c) (hxs : ∀ a ∈ xs, Q a)
    (hg : ∀ a b, Q a → Q b → Yields Q (g a b))
    (h : ∀ a b, Q a → Q b → Stops rep (f (rep a) (rep b)) (g a b)) :
    Stops rep (mode.reduceM f (rep c) (xs.map rep)) (mode.reduceM g c xs) := by
  unfold Mode.reduceM
  rw [List.length_map]
  split
  · cases xs with
    | nil => exact .pure c
    | cons a rest =>
      have hleaves : ∀ b ∈ (Bracketing.balanced a rest).leaves, Q b := by
        rw [Bracketing.leaves_balanced]
        exact hxs
      have hcombine := combine hg h _ hleaves
      rw [Bracketing.map_balanced] at hcombine
      apply hcombine.bind
      intro b hb
      have hyields := Bracketing.yields_combine hg _ hleaves
      rw [hb] at hyields
      exact h c b hc hyields
  · exact .foldlM hc (fun a ha b hb => hg b a hb (hxs a ha)) fun a ha b hb => h b a hb (hxs a ha)

end Stops

/-- The result of a traversal: its fault is recorded already when it is settled. -/
theorem Computes.settle {rep : α → Register} {kind : Kind} {y : Native (Except Fault Register)}
    {x : Except Fault α} (hy : Stops rep (ExceptT.mk y) x) :
    Computes rep (Native.settle kind y) x := by
  unfold Native.settle
  cases x with
  | ok a =>
    have hrun : y.run .clear = (.ok (rep a), .clear) := hy
    rw [Computes, run_bind, hrun]
    rfl
  | error e =>
    have hrun : y.run .clear = (.error e, .of e) := hy
    rw [Computes, run_bind, hrun]
    rfl

end Native
end SeqCalc
