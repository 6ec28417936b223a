import SeqCalc.Command.Commands
import SeqCalc.Proofs.Execution.Ledger

/-!
# Every job is served

What those who share a worker can rely on, whatever the others do: one job at a time, a refusal
only while there is one, and for each accepted job one reply, which is that of executing the job
alone.

Main results:

- `Ledger.Sound.serves`: what a ledger that is right says about its worker.
- `Worker.runAlone_eq`: a job that is submitted to an idle worker ends like one executed at once.
- `Ledger.serves_every_job`: every course of events, and the command that runs a program.
-/

namespace SeqCalc

/-! ## Replies -/

/-- The reply of executing a job at once, on an empty memory. -/
def Job.atOnce (job : Job) : Reply :=
  match execute job.mode (.fresh job.sink) job.program with
  | (.ok (), state) => ⟨.ok state.memory, state.sink⟩
  | (.error e, state) => ⟨.error e, state.sink⟩

theorem Job.replyOf_execute (job : Job) :
    Worker.replyOf ⟨job.mode, (execute job.mode (.fresh job.sink) job.program).2,
      .ended (execute job.mode (.fresh job.sink) job.program).1⟩ = some job.atOnce := by
  unfold atOnce
  rcases execute job.mode (.fresh job.sink) job.program with ⟨result, state⟩
  cases result <;> rfl

/-- Without a request to stop, the reply is that of executing the job at once. -/
theorem Job.reply_eq_atOnce (job : Job) {moves : List Run.Move} {reply : Reply}
    (hreply : Worker.replyOf (job.run.after moves) = some reply) (hcancel : .cancel ∉ moves) :
    reply = job.atOnce := by
  rcases hrun : job.run.after moves with ⟨mode, state, phase⟩
  rw [hrun] at hreply
  cases phase with
  | between | inside => cases hreply
  | ended result =>
    -- a run that has ended takes any further steps without a change
    let more := List.replicate (Run.stepsFor job.program) Run.Move.advance
    have hlonger : job.run.after (moves ++ more) = ⟨mode, state, .ended result⟩ := by
      rw [Run.after_append, hrun, Run.after_replicate, Run.advanceBy_ended]
    have hcount : Run.stepsFor job.program ≤ (moves ++ more).count .advance := by simp [more]
    have hnone : .cancel ∉ moves ++ more := by simp [more, hcancel]
    have hexecute := Run.after_eq_execute job.mode job.program hcount hnone (.fresh job.sink)
    rw [hlonger.symm.trans hexecute, job.replyOf_execute] at hreply
    exact (Option.some.inj hreply).symm

/-! ## What a worker promises -/

/-- What those who submit to a worker, wait for it or drop it can rely on at any moment. -/
structure Ledger.Serves (l : Ledger) : Prop where
  /-- At most one job is between its acceptance and the clearing of the flag. -/
  one_at_a_time : l.worker.inFlight.length ≤ 1
  busy_iff : l.worker.busy = true ↔ l.worker.inFlight ≠ []
  /-- A submission is refused exactly while there is such a job. -/
  refused_iff : l.worker.closed = false → ∀ job,
    (l.worker.act (.reserve job) = none ↔ l.worker.inFlight ≠ []) ∧
      (l.worker.submit job = .error .busy ↔ l.worker.inFlight ≠ [])
  handles_nodup : (l.accepted.map Job.id).Nodup
  /-- Every accepted job is in flight or has one answer. -/
  answered_once : (l.accepted.map Job.id).Perm
    (l.worker.inFlight.map Job.id ++ l.answers.map Prod.fst)
  /--
  An answer is the reply of the job's own run, with the requests to stop that were made to this job;
  without any, it is the reply of executing the job at once.
  -/
  own_answer : ∀ id reply, (id, reply) ∈ l.answers → ∃ job ∈ l.accepted, job.id = id ∧
    Worker.replyOf (job.run.after (movesOf id l.moves)) = some reply ∧
    (.cancel ∉ movesOf id l.moves → reply = job.atOnce)
  /-- Who waits for a job is handed an answer to this job. -/
  waited : ∀ id reply w, l.worker.wait? id = some (reply, w) → (id, reply) ∈ l.answers
  /-- Once the reply to the last accepted job was waited for, the next submission is accepted. -/
  free_after_wait : ∀ job, l.accepted.getLast? = some job → job.id ∈ l.received.map Prod.fst →
    l.worker.busy = false ∧
      (l.worker.closed = false → ∀ next, ∃ w, l.worker.submit next = .ok w)
  /-- However the others go on, a job has its reply once it was served often enough. -/
  answered_in_time : ∀ job ∈ l.accepted, ∀ more l', l.enterAll more = some l' →
    Run.stepsFor job.program + 5 ≤ more.countP (·.serves job.id) →
      job.id ∈ l'.delivered.map Prod.fst
  /-- Until then, somebody can serve it. -/
  never_stuck : ∀ job ∈ l.accepted, job.id ∈ l.delivered.map Prod.fst ∨
    ∃ a, a.serves job.id = true ∧ (l.enter a).isSome
  /-- A worker that nobody can submit to any more goes on until it stops. -/
  goes_on : l.worker.closed = true → l.worker.stopped = true ∨ l.worker.step?.isSome
  /-- By then every accepted job has its reply. -/
  stopped : l.worker.stopped = true → ∀ job ∈ l.accepted, job.id ∈ l.delivered.map Prod.fst

namespace Stage

variable {replies : List (Nat × Reply)} {cancelled : List Nat} {s : Stage}

/-- An open worker is reserved exactly if it is free. -/
theorem act_reserve_eq_none_iff (hopen : (s.worker replies cancelled).closed = false) (job : Job) :
    (s.worker replies cancelled).act (.reserve job) = none ↔ s.job?.toList ≠ [] := by
  rw [Worker.act_reserve_eq_none_iff hopen, busy_worker]
  cases s.job? <;> simp

theorem submit_eq (hopen : (s.worker replies cancelled).closed = false) (job : Job) :
    (s.worker replies cancelled).submit job =
      if s.job?.isSome then .error .busy
      else .ok ((queued job s.outgoing? false).worker replies cancelled) := by
  cases s with
  | free outgoing closed =>
    cases hopen
    simp [Worker.submit, Worker.act, worker, job?, outgoing?]
  | reserved | queued | running => simp [Worker.submit, Worker.act, worker, job?]
  | stopped => cases hopen

/-- A closed worker has stopped or has a step of its own. -/
theorem step?_of_closed (hclosed : (s.worker replies cancelled).closed = true) :
    (s.worker replies cancelled).stopped = true ∨ (s.worker replies cancelled).step?.isSome := by
  cases s with
  | free outgoing closed =>
    cases hclosed
    cases outgoing <;> simp [Worker.step?, Worker.act, worker]
  | reserved => cases hclosed
  | queued job outgoing closed =>
    cases outgoing <;> simp [Worker.step?, Worker.act, worker]
  | running job run closed =>
    cases hresult : run.result? <;>
      simp [Worker.step?, Worker.act, worker, Worker.replyOf, hresult]
  | stopped => exact .inl rfl

end Stage

namespace Ledger

variable {l : Ledger} {s : Stage}

theorem Sound.serves (h : l.Sound s) : l.Serves where
  one_at_a_time := by
    rw [h.inFlight_eq]
    cases s.job? <;> simp
  busy_iff := by
    rw [h.inFlight_eq, h.busy_eq]
    cases s.job? <;> simp
  refused_iff := by
    intro hopen job
    rw [h.inFlight_eq]
    rw [h.worker_eq] at hopen ⊢
    refine ⟨Stage.act_reserve_eq_none_iff hopen job, ?_⟩
    rw [Stage.submit_eq hopen]
    cases s.job? <;> simp
  handles_nodup := h.accounts.nodup
  answered_once := by
    rw [h.inFlight_eq, h.answers_eq]
    exact h.accounts.once
  own_answer := by
    intro id reply hanswer
    rw [h.answers_eq] at hanswer
    rcases h.history.own _ hanswer with ⟨job, hjob, hid, hreply⟩
    exact ⟨job, hjob, hid, hreply, job.reply_eq_atOnce hreply⟩
  waited := by
    intro id reply w hwait
    simp only [Worker.wait?, Option.bind_eq_bind, Option.bind_eq_some_iff] at hwait
    rcases hwait with ⟨⟨other, answer⟩, hfind, next, -, heq⟩
    cases heq
    have hid : other = id := by simpa using List.find?_some hfind
    exact List.mem_append_left _ (List.mem_append_right _ (hid ▸ List.mem_of_find?_eq_some hfind))
  free_after_wait := by
    intro job hlast hreceived
    have hfree : s.job? = none := by
      cases hjob : s.job? with
      | none => rfl
      | some other =>
        have heq : other = job := by
          have := h.accounts.latest other hjob
          rw [hlast] at this
          exact (Option.some.inj this).symm
        rcases List.mem_map.1 hreceived with ⟨answer, hanswer, hid⟩
        exact absurd (heq ▸ hid.symm)
          (h.accounts.not_answered hjob (List.mem_append_right _ hanswer))
    rw [h.busy_eq, hfree]
    refine ⟨rfl, ?_⟩
    intro hopen next
    rw [h.worker_eq] at hopen ⊢
    rw [Stage.submit_eq hopen, hfree]
    exact ⟨_, rfl⟩
  answered_in_time := by
    intro job hjob more l' henter hcount
    rcases h.enterAll henter with ⟨s', hs', hsubset, hsteps⟩
    have hbound := h.stepsTo_le hjob
    have hleft := hsteps job hjob
    exact hs'.delivered_of_stepsTo (hsubset hjob) (by omega)
  never_stuck := by
    intro job hjob
    by_cases hsteps : s.stepsTo job.id = 0
    · exact .inl (h.delivered_of_stepsTo hjob hsteps)
    · rcases Stage.exists_serving hsteps l.worker.replies l.worker.cancelled with
        ⟨a, s', replies', cancelled', hstep, hserves⟩
      refine .inr ⟨a, hserves, ?_⟩
      have hact := hstep.act
      rw [← h.worker_eq] at hact
      simp [Ledger.enter, hact, Action.job?_of_serves hserves]
  goes_on := by
    intro hclosed
    rw [h.worker_eq] at hclosed ⊢
    exact Stage.step?_of_closed hclosed
  stopped := by
    intro hstopped job hjob
    rw [h.worker_eq] at hstopped
    apply h.delivered_of_stepsTo hjob
    cases s with
    | stopped => rfl
    | free | reserved | queued | running => cases hstopped

end Ledger

/-! ## One job alone -/

namespace Stage

variable {replies : List (Nat × Reply)} {cancelled : List Nat}

/-- A free worker that owes no reply waits for a job. -/
theorem proceed_free (n : Nat) :
    ((free none false).worker replies cancelled).proceed n =
      (free none false).worker replies cancelled := by
  cases n <;> rfl

/-- A worker whose job has ended sends the reply. -/
theorem proceed_ended (job : Job) {run : Run} {reply : Reply}
    (hended : Worker.replyOf run = some reply) (n : Nat) :
    ((running job run false).worker replies cancelled).proceed (n + 2) =
      (free none false).worker (replies ++ [(job.id, reply)]) cancelled := by
  have hclear : ((running job run false).worker replies cancelled).step? =
      some ((free (some (job.id, reply)) false).worker replies cancelled) := by
    simp [Worker.step?, Worker.act, worker, hended]
  rw [Worker.proceed, hclear]
  exact proceed_free n

/-- A job that nobody interferes with runs to its end, and its reply is sent. -/
theorem proceed_running (job : Job) {n : Nat} {run : Run} {reply : Reply}
    (h : Worker.replyOf (Run.advanceBy n run) = some reply) :
    ((running job run false).worker replies cancelled).proceed (n + 2) =
      (free none false).worker (replies ++ [(job.id, reply)]) cancelled := by
  induction n generalizing run with
  | zero => exact proceed_ended job h 0
  | succ n ih =>
    cases hresult : run.result? with
    | none =>
      have hstep : ((running job run false).worker replies cancelled).step? =
          some ((running job run.advance false).worker replies cancelled) := by
        simp [Worker.step?, Worker.act, worker, Worker.replyOf, hresult]
      rw [Worker.proceed, hstep]
      exact ih h
    | some result =>
      rcases run with ⟨mode, state, phase⟩
      cases phase with
      | between | inside => cases hresult
      | ended result =>
        rw [Run.advanceBy_ended] at h
        exact proceed_ended job h (n + 1)

end Stage

namespace Worker

/-- A job that is submitted to an idle worker has the reply of executing it at once. -/
theorem runAlone_eq (job : Job) : runAlone job = .ok job.atOnce := by
  have hreply : replyOf (Run.advanceBy (Run.stepsFor job.program) job.run) = some job.atOnce := by
    rw [← job.replyOf_execute]
    exact congrArg replyOf (Run.iterate_advance_between job.mode (.fresh job.sink) job.program)
  have hsubmit : idle.submit job = .ok ((Stage.queued job none false).worker [] []) :=
    Stage.submit_eq (s := .free none false) rfl job
  have hproceed :
      ((Stage.queued job none false).worker [] []).proceed (Run.stepsFor job.program + 3) =
        (Stage.free none false).worker [(job.id, job.atOnce)] [] :=
    Stage.proceed_running job hreply
  rw [runAlone, hsubmit]
  simp only [ok_bind, hproceed]
  simp [wait?, act, Stage.worker]

end Worker

/-- Compile a program and execute it at once, without a worker. -/
def runAtOnce (o : Options) (p : SoundProgram) : Except RunFailure RunOutcome :=
  match p.compile o.backend o.errorLimit with
  | .error e => .error ⟨.compile e, o.sink⟩
  | .ok program =>
    match execute o.mode (.fresh o.sink) program with
    | (.error e, state) => .error ⟨.worker (.exec e), state.sink⟩
    | (.ok (), state) => .ok ⟨state.memory, state.sink⟩

theorem runProgram_eq_runAtOnce (o : Options) (p : SoundProgram) :
    runProgram o p = runAtOnce o p := by
  unfold runProgram runAtOnce
  cases p.compile o.backend o.errorLimit with
  | error e => rfl
  | ok program =>
    simp only [Worker.runAlone_eq, Job.atOnce]
    rcases execute o.mode (.fresh o.sink) program with ⟨result, state⟩
    cases result <;> rfl

namespace Ledger

/--
Whatever those who share a worker do, and in whatever order, it serves every accepted job.  So a
program that is run on a worker of its own ends like one that is executed at once.
-/
theorem serves_every_job :
    (∀ actions l, start.enterAll actions = some l → l.Serves) ∧
      ∀ o p, runProgram o p = runAtOnce o p := by
  refine ⟨?_, runProgram_eq_runAtOnce⟩
  intro actions l henter
  rcases sound_start.enterAll henter with ⟨s, hsound, -⟩
  exact hsound.serves

/-- A job that prints a number. -/
def printingJob (id n : Nat) : Job :=
  ⟨id, [Run.printing n], .sequential, .buffer []⟩

/--
A second job is accepted before the reply to the first one is sent, and stopped before it is
received; then nobody is left to submit.
-/
def twoSubmissions : List Action :=
  [.reserve (printingJob 0 1), .send 0, .receive, .advance, .advance, .advance, .clear,
    .reserve (printingJob 1 2), .cancel 1, .send 1, .reply, .wait 0, .close, .receive, .advance,
    .clear, .reply, .stop, .wait 1]

theorem serves_two_submissions :
    ∃ l, start.enterAll twoSubmissions = some l ∧ l.Serves ∧
      l.received.map (fun x => (x.1, x.2.sink)) = [(0, .buffer ["1"]), (1, .buffer [])] := by
  have hreceived : (start.enterAll twoSubmissions).map
      (fun l => l.received.map fun x => (x.1, x.2.sink)) =
        some [(0, .buffer ["1"]), (1, .buffer [])] := rfl
  rcases Option.map_eq_some_iff.1 hreceived with ⟨l, hl, hreceived⟩
  exact ⟨l, hl, serves_every_job.1 _ l hl, hreceived⟩

end Ledger

end SeqCalc
