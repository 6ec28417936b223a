import SeqCalc.Execution.Worker
import SeqCalc.Proofs.Execution.Atomicity

/-!
# The stages of a worker

The flag, the queue and the job that is being run are apart, and the worker and its submitters
change them one by one.  Still a worker is only ever at one of a few stages: free, reserved by a
submitter that has not sent its job yet, with that job in its queue, with that job running, or
stopped.  A stage holds at most one job; the reply to the job before may still wait to be sent.

Main results:

- `Stage.Step.of_act`: every action leads from a stage to a stage, and what it does on the way.
- `Stage.Step.stepsTo_le`: a worker that serves a job comes closer to its reply, and nobody else
  takes it farther away.
- `Stage.exists_serving`: as long as the reply has not been sent, somebody can serve the job.
-/

namespace SeqCalc

@[simp]
theorem Run.stepsLeft_cancel (r : Run) : r.cancel.stepsLeft = r.stepsLeft :=
  rfl

/-- The run of a job before its first move. -/
def Job.run (job : Job) : Run :=
  .start job.mode job.program job.sink false

/-! ## Stages -/

/-- Where the job stands that holds the flag, if any, and the reply that waits to be sent. -/
inductive Stage where
  | free (outgoing : Option (Nat × Reply)) (closed : Bool)
  | reserved (job : Job) (outgoing : Option (Nat × Reply))
  | queued (job : Job) (outgoing : Option (Nat × Reply)) (closed : Bool)
  | running (job : Job) (run : Run) (closed : Bool)
  | stopped

namespace Stage

/-- The worker at a stage, with replies that were sent and requests to stop. -/
def worker (replies : List (Nat × Reply)) (cancelled : List Nat) : Stage → Worker
  | free outgoing closed => ⟨false, [], [], none, outgoing, replies, cancelled, closed, false⟩
  | reserved job outgoing => ⟨true, [job], [], none, outgoing, replies, cancelled, false, false⟩
  | queued job outgoing closed =>
    ⟨true, [], [job], none, outgoing, replies, cancelled, closed, false⟩
  | running job run closed =>
    ⟨true, [], [], some (job, run), none, replies, cancelled, closed, false⟩
  | stopped => ⟨false, [], [], none, none, replies, cancelled, true, true⟩

/-- The job that holds the flag. -/
def job? : Stage → Option Job
  | reserved job _ | queued job _ _ | running job _ _ => some job
  | free _ _ | stopped => none

/-- The job that holds the flag and has not been received. -/
def waiting? : Stage → Option Job
  | reserved job _ | queued job _ _ => some job
  | free _ _ | running _ _ _ | stopped => none

def running? : Stage → Option (Job × Run)
  | running job run _ => some (job, run)
  | free _ _ | reserved _ _ | queued _ _ _ | stopped => none

def outgoing? : Stage → Option (Nat × Reply)
  | free outgoing _ | reserved _ outgoing | queued _ outgoing _ => outgoing
  | running _ _ _ | stopped => none

/-- The stage once the reply has been sent. -/
def sent : Stage → Stage
  | free _ closed => free none closed
  | reserved job _ => reserved job none
  | queued job _ closed => queued job none closed
  | s => s

/-- The stage once a job was asked to stop. -/
def cancel (id : Nat) : Stage → Stage
  | running job run closed => running job (if job.id = id then run.cancel else run) closed
  | s => s

/-- The stage once nobody is left to submit; a submitter that holds the flag is still there. -/
def close? : Stage → Option Stage
  | free outgoing false => some (free outgoing true)
  | queued job outgoing false => some (queued job outgoing true)
  | running job run false => some (running job run true)
  | _ => none

end Stage

namespace Worker

/-- The jobs that were accepted and for which the flag is still set. -/
def inFlight (w : Worker) : List Job :=
  w.reserved ++ w.queue ++ w.active.toList.map Prod.fst

end Worker

namespace Stage

variable {replies : List (Nat × Reply)} {cancelled : List Nat} {s : Stage}

@[simp]
theorem replies_worker : (s.worker replies cancelled).replies = replies := by
  cases s <;> rfl

@[simp]
theorem cancelled_worker : (s.worker replies cancelled).cancelled = cancelled := by
  cases s <;> rfl

@[simp]
theorem outgoing_worker : (s.worker replies cancelled).outgoing = s.outgoing? := by
  cases s <;> rfl

@[simp]
theorem inFlight_worker : (s.worker replies cancelled).inFlight = s.job?.toList := by
  cases s <;> rfl

@[simp]
theorem busy_worker : (s.worker replies cancelled).busy = s.job?.isSome := by
  cases s <;> rfl

@[simp]
theorem job?_sent : s.sent.job? = s.job? := by
  cases s <;> rfl

@[simp]
theorem waiting?_sent : s.sent.waiting? = s.waiting? := by
  cases s <;> rfl

@[simp]
theorem outgoing?_sent : s.sent.outgoing? = none := by
  cases s <;> rfl

@[simp]
theorem running?_sent : s.sent.running? = s.running? := by
  cases s <;> rfl

@[simp]
theorem job?_cancel (id : Nat) : (s.cancel id).job? = s.job? := by
  cases s <;> rfl

@[simp]
theorem waiting?_cancel (id : Nat) : (s.cancel id).waiting? = s.waiting? := by
  cases s <;> rfl

@[simp]
theorem outgoing?_cancel (id : Nat) : (s.cancel id).outgoing? = s.outgoing? := by
  cases s <;> rfl

/-- Closing changes nothing but that nobody can submit any more. -/
theorem eq_of_close? {s' : Stage} (h : s.close? = some s') :
    s'.job? = s.job? ∧ s'.waiting? = s.waiting? ∧ s'.outgoing? = s.outgoing? ∧
      s'.running? = s.running? := by
  unfold close? at h
  split at h
  all_goals cases h
  all_goals exact ⟨rfl, rfl, rfl, rfl⟩

/-! ## Steps -/

/-- What an action makes of a worker at a stage: the stage, the replies and the requests to stop. -/
inductive Step (replies : List (Nat × Reply)) (cancelled : List Nat) :
    Stage → Action → Stage → List (Nat × Reply) → List Nat → Prop
  | reserve (job : Job) (outgoing : Option (Nat × Reply)) :
      Step replies cancelled (free outgoing false) (.reserve job) (reserved job outgoing) replies
        cancelled
  | send (job : Job) (outgoing : Option (Nat × Reply)) :
      Step replies cancelled (reserved job outgoing) (.send job.id) (queued job outgoing false)
        replies cancelled
  | receive (job : Job) (closed : Bool) :
      Step replies cancelled (queued job none closed) .receive
        (running job (.start job.mode job.program job.sink (cancelled.contains job.id)) closed)
        replies cancelled
  | advance (job : Job) (run : Run) (closed : Bool) (hgoing : run.result? = none) :
      Step replies cancelled (running job run closed) .advance (running job run.advance closed)
        replies cancelled
  | clear (job : Job) (run : Run) (closed : Bool) (reply : Reply)
      (hended : Worker.replyOf run = some reply) :
      Step replies cancelled (running job run closed) .clear (free (some (job.id, reply)) closed)
        replies cancelled
  | reply {s : Stage} (answer : Nat × Reply) (hwaits : s.outgoing? = some answer) :
      Step replies cancelled s .reply s.sent (replies ++ [answer]) cancelled
  | wait {s : Stage} (id : Nat) (hsent : replies.any (·.1 == id) = true) :
      Step replies cancelled s (.wait id) s (replies.filter (·.1 != id)) cancelled
  | cancel {s : Stage} (id : Nat) :
      Step replies cancelled s (.cancel id) (s.cancel id) replies (id :: cancelled)
  | close {s s' : Stage} (hclose : s.close? = some s') :
      Step replies cancelled s .close s' replies cancelled
  | stop : Step replies cancelled (free none true) .stop stopped replies cancelled

/-- Every action leads a worker from a stage to a stage. -/
theorem Step.of_act {a : Action} {w : Worker} (h : (s.worker replies cancelled).act a = some w) :
    ∃ s' replies' cancelled', Step replies cancelled s a s' replies' cancelled' ∧
      w = s'.worker replies' cancelled' := by
  cases a with
  | reserve job =>
    cases s with
    | free outgoing closed =>
      cases closed with
      | false => exact ⟨_, _, _, .reserve job outgoing, by simpa [Worker.act, worker] using h.symm⟩
      | true => simp [Worker.act, worker] at h
    | reserved | queued | running | stopped => simp [Worker.act, worker] at h
  | send id =>
    cases s with
    | reserved job outgoing =>
      by_cases hid : job.id = id
      · subst hid
        exact ⟨_, _, _, .send job outgoing, by simpa [Worker.act, worker] using h.symm⟩
      · simp [Worker.act, worker, hid] at h
    | free | queued | running | stopped => simp [Worker.act, worker] at h
  | receive =>
    cases s with
    | queued job outgoing closed =>
      cases outgoing with
      | none => exact ⟨_, _, _, .receive job closed, by simpa [Worker.act, worker] using h.symm⟩
      | some answer => simp [Worker.act, worker] at h
    | free outgoing | reserved _ outgoing => cases outgoing <;> simp [Worker.act, worker] at h
    | running | stopped => simp [Worker.act, worker] at h
  | advance =>
    cases s with
    | running job run closed =>
      cases hgoing : run.result? with
      | none =>
        exact ⟨_, _, _, .advance job run closed hgoing,
          by simpa [Worker.act, worker, hgoing] using h.symm⟩
      | some result => simp [Worker.act, worker, hgoing] at h
    | free | reserved | queued | stopped => simp [Worker.act, worker] at h
  | clear =>
    cases s with
    | running job run closed =>
      cases hended : Worker.replyOf run with
      | none => simp [Worker.act, worker, hended] at h
      | some reply =>
        exact ⟨_, _, _, .clear job run closed reply hended,
          by simpa [Worker.act, worker, hended] using h.symm⟩
    | free | reserved | queued | stopped => simp [Worker.act, worker] at h
  | reply =>
    cases hwaits : s.outgoing? with
    | none => simp [Worker.act, hwaits] at h
    | some answer =>
      refine ⟨_, _, _, .reply answer hwaits, ?_⟩
      cases s <;> cases hwaits
      all_goals simpa [Worker.act, worker, sent] using h.symm
  | wait id =>
    cases hsent : replies.any (·.1 == id) with
    | false => simp [Worker.act, hsent] at h
    | true =>
      refine ⟨_, _, _, .wait id hsent, ?_⟩
      cases s <;> simpa [Worker.act, worker, hsent] using h.symm
  | cancel id =>
    refine ⟨_, _, _, .cancel id, ?_⟩
    cases s with
    | running job run closed =>
      by_cases hid : job.id = id <;> simpa [Worker.act, worker, Stage.cancel, hid] using h.symm
    | free | reserved | queued | stopped =>
      simpa [Worker.act, worker, Stage.cancel] using h.symm
  | close =>
    cases s with
    | free _ closed | queued _ _ closed | running _ _ closed =>
      cases closed with
      | false => exact ⟨_, _, _, .close rfl, by simpa [Worker.act, worker] using h.symm⟩
      | true => simp [Worker.act, worker] at h
    | reserved | stopped => simp [Worker.act, worker] at h
  | stop =>
    cases s with
    | free outgoing closed =>
      cases outgoing with
      | some answer => simp [Worker.act, worker] at h
      | none =>
        cases closed with
        | true => exact ⟨_, _, _, .stop, by simpa [Worker.act, worker] using h.symm⟩
        | false => simp [Worker.act, worker] at h
    | reserved _ outgoing | queued _ outgoing => cases outgoing <;> simp [Worker.act, worker] at h
    | running | stopped => simp [Worker.act, worker] at h

/-- The steps are actions. -/
theorem Step.act {a : Action} {s' : Stage} {replies' : List (Nat × Reply)} {cancelled' : List Nat}
    (h : Step replies cancelled s a s' replies' cancelled') :
    (s.worker replies cancelled).act a = some (s'.worker replies' cancelled') := by
  cases h with
  | reserve job outgoing => simp [Worker.act, worker]
  | send job outgoing => simp [Worker.act, worker]
  | receive job closed => simp [Worker.act, worker]
  | advance job run closed hgoing => simp [Worker.act, worker, hgoing]
  | clear job run closed reply hended => simp [Worker.act, worker, hended]
  | reply answer hwaits =>
    cases s <;> cases hwaits
    all_goals simp [Worker.act, worker, sent]
  | wait id hsent => cases s <;> simp [Worker.act, worker, hsent]
  | cancel id =>
    cases s with
    | running job run closed =>
      by_cases hid : job.id = id <;> simp [Worker.act, worker, Stage.cancel, hid]
    | free | reserved | queued | stopped => simp [Worker.act, worker, Stage.cancel]
  | close hclose =>
    cases s with
    | free _ closed | queued _ _ closed | running _ _ closed =>
      cases closed <;> cases hclose
      simp [Worker.act, worker]
    | reserved | stopped => cases hclose
  | stop => simp [Worker.act, worker]

end Stage

/-! ## Service -/

namespace Action

/-- The steps that bring a job closer to its reply: its submitter's, and the worker's own. -/
def serves (id : Nat) : Action → Bool
  | send sent => sent == id
  | receive | advance | clear | reply => true
  | reserve _ | wait _ | cancel _ | close | stop => false

end Action

namespace Stage

variable {replies : List (Nat × Reply)} {cancelled : List Nat} {s : Stage}

/-- The step that is left if the reply to a job waits to be sent. -/
def owes (id : Nat) (outgoing : Option (Nat × Reply)) : Nat :=
  if outgoing.any (·.1 == id) then 1 else 0

/-- How many steps it takes at most until the reply to a job has been sent. -/
def stepsTo (id : Nat) : Stage → Nat
  | free outgoing _ => owes id outgoing
  | reserved job outgoing =>
    if job.id = id then Run.stepsFor job.program + 4 + outgoing.toList.length else owes id outgoing
  | queued job outgoing _ =>
    if job.id = id then Run.stepsFor job.program + 3 + outgoing.toList.length else owes id outgoing
  | running job run _ => if job.id = id then run.stepsLeft + 2 else 0
  | stopped => 0

/-- No job takes longer than its own steps, those around them, and the reply of the job before. -/
theorem stepsTo_le {job : Job}
    (hjob : ∀ other, s.job? = some other → other.id = job.id → other = job)
    (hrun : ∀ other run, s.running? = some (other, run) →
      run.stepsLeft ≤ Run.stepsFor other.program) :
    s.stepsTo job.id ≤ Run.stepsFor job.program + 5 := by
  have howes (outgoing : Option (Nat × Reply)) : owes job.id outgoing ≤ 1 := by
    unfold owes
    split <;> omega
  have hpending (outgoing : Option (Nat × Reply)) : outgoing.toList.length ≤ 1 := by
    cases outgoing <;> simp
  cases s with
  | free outgoing closed =>
    have := howes outgoing
    simp only [stepsTo]
    omega
  | reserved other outgoing | queued other outgoing =>
    have := howes outgoing
    have := hpending outgoing
    simp only [stepsTo]
    split
    · rw [hjob other rfl (by assumption)]
      omega
    · omega
  | running other run closed =>
    have := hrun other run rfl
    simp only [stepsTo]
    split
    · rw [hjob other rfl (by assumption)] at this
      omega
    · omega
  | stopped => simp [stepsTo]

/-- A job without steps left neither holds the flag nor waits for its reply to be sent. -/
theorem stepsTo_eq_zero {id : Nat} (h : s.stepsTo id = 0) :
    (∀ job, s.job? = some job → job.id ≠ id) ∧
      ∀ answer, s.outgoing? = some answer → answer.1 ≠ id := by
  cases s with
  | free outgoing closed =>
    refine ⟨nofun, ?_⟩
    rintro answer ⟨rfl⟩ hid
    simp [stepsTo, owes, hid] at h
  | reserved job outgoing | queued job outgoing =>
    have hid : job.id ≠ id := by
      intro hid
      simp [stepsTo, hid] at h
    refine ⟨by rintro job ⟨rfl⟩; exact hid, ?_⟩
    rintro answer ⟨rfl⟩ hid'
    simp [stepsTo, owes, hid, hid'] at h
  | running job run closed =>
    refine ⟨?_, nofun⟩
    rintro job ⟨rfl⟩ hid
    simp [stepsTo, hid] at h
  | stopped => exact ⟨nofun, nofun⟩

/-- Serving a job brings it closer to its reply, and nothing takes it farther away. -/
theorem Step.stepsTo_le {a : Action} {s' : Stage} {replies' : List (Nat × Reply)}
    {cancelled' : List Nat} (h : Step replies cancelled s a s' replies' cancelled') {id : Nat}
    (hnew : ∀ job, a = .reserve job → job.id ≠ id) :
    s'.stepsTo id ≤ s.stepsTo id - (if a.serves id then 1 else 0) := by
  cases h with
  | reserve job outgoing => simp [stepsTo, Action.serves, hnew job rfl]
  | send job outgoing =>
    by_cases hid : job.id = id
    · simp [stepsTo, Action.serves, hid]
    · simp [stepsTo, Action.serves, hid]
  | receive job closed =>
    by_cases hid : job.id = id
    · simp [stepsTo, Action.serves, hid, Run.start, Run.stepsLeft]
    · simp [stepsTo, hid]
  | advance job run closed hgoing =>
    have hstep := run.stepsLeft_advance
    have hleft : run.stepsLeft ≠ 0 := by
      intro hzero
      rcases Run.exists_ended_of_stepsLeft_eq_zero hzero with ⟨result, hphase⟩
      simp [Run.result?, hphase] at hgoing
    by_cases hid : job.id = id
    · simp only [stepsTo, Action.serves, hid, if_true]
      omega
    · simp [stepsTo, hid]
  | clear job run closed reply hended =>
    by_cases hid : job.id = id <;> simp [stepsTo, owes, Action.serves, hid]
  | reply answer hwaits =>
    cases s with
    | free outgoing closed => 
      cases hwaits
      by_cases hid : answer.1 = id <;> simp [stepsTo, owes, sent, Action.serves, hid]
    | reserved job outgoing | queued job outgoing closed =>
      cases hwaits
      by_cases hid : job.id = id <;> simp [stepsTo, owes, sent, Action.serves, hid]
    | running | stopped => cases hwaits
  | wait id hsent => simp [Action.serves]
  | cancel id' =>
    cases s with
    | running job run closed =>
      by_cases hid : job.id = id' <;> simp [stepsTo, Stage.cancel, Action.serves, hid]
    | free | reserved | queued | stopped => simp [Stage.cancel, Action.serves]
  | close hclose =>
    cases s with
    | free _ closed | queued _ _ closed | running _ _ closed =>
      cases closed <;> cases hclose
      simp [stepsTo, Action.serves]
    | reserved | stopped => cases hclose
  | stop => simp [stepsTo, owes, Action.serves]

/-- Until its reply has been sent, somebody can serve a job. -/
theorem exists_serving {id : Nat} (h : s.stepsTo id ≠ 0) (replies : List (Nat × Reply))
    (cancelled : List Nat) :
    ∃ a s' replies' cancelled', Step replies cancelled s a s' replies' cancelled' ∧
      a.serves id = true := by
  cases s with
  | free outgoing closed =>
    cases outgoing with
    | none => simp [stepsTo, owes] at h
    | some answer => exact ⟨_, _, _, _, .reply answer rfl, rfl⟩
  | reserved job outgoing =>
    by_cases hid : job.id = id
    · exact ⟨_, _, _, _, .send job outgoing, by simp [Action.serves, hid]⟩
    · cases outgoing with
      | none => simp [stepsTo, owes, hid] at h
      | some answer => exact ⟨_, _, _, _, .reply answer rfl, rfl⟩
  | queued job outgoing closed =>
    cases outgoing with
    | none => exact ⟨_, _, _, _, .receive job closed, rfl⟩
    | some answer => exact ⟨_, _, _, _, .reply answer rfl, rfl⟩
  | running job run closed =>
    cases hresult : run.result? with
    | none => exact ⟨_, _, _, _, .advance job run closed hresult, rfl⟩
    | some result =>
      have hreply : ∃ reply, Worker.replyOf run = some reply := by simp [Worker.replyOf, hresult]
      rcases hreply with ⟨reply, hreply⟩
      exact ⟨_, _, _, _, .clear job run closed reply hreply, rfl⟩
  | stopped => simp [stepsTo] at h

end Stage
end SeqCalc
