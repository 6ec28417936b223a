import SeqCalc.Diagnostic.Emitter

/-!
# Collection frames

What the frames of an emitter hold after some reports, and what closing the innermost one answers.

Main results:

- `Frame.foldl_push`: a frame counts every report and keeps as many as the limit allows.
- `Emitter.closeFrame_of_recorded`: a closed frame answers for what was reported into it.
- `Emitter.collect_eq`: a collection of reports changes nothing but the counter.
-/

namespace SeqCalc

/-! ## Reports into a frame -/

/-- As many diagnostics as the limit allows. -/
def limited (limit : Option Nat) (ds : List Diagnostic) : List Diagnostic :=
  match limit with
  | none => ds
  | some n => ds.take n

/-- What a collection answers for the reports that are its own. -/
def answerFor (limit : Option Nat) (ds : List Diagnostic) : Option (List Diagnostic) :=
  if ds = [] then none else some (limited limit ds)

/-- The frame into which some diagnostics were reported. -/
def Frame.holding (limit : Option Nat) (ds : List Diagnostic) : Frame :=
  ⟨limited limit ds, ds.length⟩

/-- Frames after reports into the innermost of them. -/
def recorded (limit : Option Nat) (ds : List Diagnostic) : List Frame → List Frame
  | [] => []
  | frame :: outer => ds.foldl (·.push limit ·) frame :: outer

theorem limited_concat (limit : Option Nat) (ds : List Diagnostic) (d : Diagnostic) :
    limited limit (ds ++ [d]) =
      if limit.any (· < ds.length + 1) then limited limit ds else limited limit ds ++ [d] := by
  cases limit with
  | none => rfl
  | some n =>
    by_cases hfull : n < ds.length + 1
    · rw [if_pos (by simpa using hfull)]
      exact List.take_append_of_le_length (by omega)
    · have hall : (ds ++ [d]).take n = ds ++ [d] := by
        apply List.take_of_length_le
        rw [List.length_append, List.length_singleton]
        omega
      rw [if_neg (by simpa using hfull)]
      change (ds ++ [d]).take n = ds.take n ++ [d]
      rw [hall, List.take_of_length_le (by omega)]

theorem Frame.push_holding (limit : Option Nat) (ds : List Diagnostic) (d : Diagnostic) :
    (holding limit ds).push limit d = holding limit (ds ++ [d]) := by
  unfold holding push
  rw [limited_concat, List.length_append, List.length_singleton]
  dsimp only
  cases hfull : limit.any (· < ds.length + 1) with
  | true => rw [if_pos rfl, if_pos rfl]
  | false => rw [if_neg (by simp), if_neg (by simp)]

theorem Frame.foldl_push (limit : Option Nat) (ds more : List Diagnostic) :
    more.foldl (·.push limit ·) (holding limit ds) = holding limit (ds ++ more) := by
  induction more generalizing ds with
  | nil => simp
  | cons d more ih =>
    rw [List.foldl_cons, push_holding, ih]
    simp

@[simp]
theorem recorded_nil (limit : Option Nat) (frames : List Frame) :
    recorded limit [] frames = frames := by
  cases frames <;> rfl

theorem recorded_append (limit : Option Nat) (ds more : List Diagnostic) (frames : List Frame) :
    recorded limit (ds ++ more) frames = recorded limit more (recorded limit ds frames) := by
  cases frames with
  | nil => rfl
  | cons frame outer => simp [recorded]

/-- A collection answers for what was reported into its frame, and takes the frame away. -/
theorem Emitter.closeFrame_of_recorded {e : Emitter} {limit : Option Nat} {ds : List Diagnostic}
    {outer : List Frame} (h : e.frames = recorded limit ds (Frame.empty :: outer)) :
    e.closeFrame = (answerFor limit ds, { e with frames := outer }) := by
  have hempty : Frame.empty = Frame.holding limit [] := by
    cases limit <;> simp [Frame.empty, Frame.holding, limited]
  rw [hempty, recorded, Frame.foldl_push, List.nil_append] at h
  unfold closeFrame
  rw [h]
  simp [Frame.holding, answerFor]

/-! ## Collections of reports -/

/-- Reports count, and go into the frame that is open. -/
theorem Emitter.reportAll_eq (e : Emitter) (ds : List Diagnostic) :
    e.reportAll ds =
      { e with
        frames := recorded e.limit ds e.frames
        errorCount := e.errorCount + ds.length } := by
  induction ds generalizing e with
  | nil => simp [reportAll]
  | cons d ds ih =>
    have hreport : (e.report d).2 =
        { e with frames := recorded e.limit [d] e.frames, errorCount := e.errorCount + 1 } := by
      cases hframes : e.frames <;> simp [report, recorded, hframes]
    change (e.report d).2.reportAll ds = _
    rw [ih, hreport]
    simp only [← recorded_append, List.singleton_append, List.length_cons]
    rw [Nat.add_assoc, Nat.add_comm 1]

theorem Emitter.collect_eq (e : Emitter) (ds : List Diagnostic) :
    e.collect ds = (answerFor e.limit ds, { e with errorCount := e.errorCount + ds.length }) := by
  have hframes : (e.openFrame.reportAll ds).frames = recorded e.limit ds (.empty :: e.frames) := by
    rw [reportAll_eq]
    rfl
  rw [collect, closeFrame_of_recorded hframes, reportAll_eq]
  rfl

end SeqCalc
