import ScxSlam.Workload.Worker
import ScxSlam.Lib.Steps

/-!
# ScxSlam.Workload.Lifecycle

The life of one worker of `dependent_workload`: its thread enrolls, serves the
dispatcher and leaves behind `finish`, a critical section being one step.

The calls of the worker's thread succeed, and so does reading the monotonic
clock.  A publication may be refused, which is thrown in `dispatch` and kept in
`error` by `finish`.  The completion function may throw as well, when `collect`
has nothing left to change.  An error unwind is then a `finish` behind any
call, with whatever job is still outstanding.
-/

namespace ScxSlam.Workload

open Steps

variable {κ : Type}

/-! ## data -/

/-- A write to the hint slot of the worker's thread. -/
inductive Write
  | clear
  | publish (h : Hint)
  deriving DecidableEq, Repr

/-- A write, and whether the thread had a job in its hands. -/
structure Stamp where
  write : Write
  executing : Bool
  deriving DecidableEq, Repr

/-- How a publication ends; what a refused one left in the slot is not known. -/
inductive Publication
  | accepted
  | refused (written : Bool)
  deriving DecidableEq, Repr

/-- Where the thread is in `run`. -/
inductive Phase
  /-- before `ready` -/
  | enroll
  | loop
  /-- behind the `break` -/
  | leaving
  | ended
  deriving DecidableEq, Repr

/-- A job as it was offered. -/
def Job.base (j : Job κ) : Job κ := { j with assigned := 0 }

/-- A worker, the two flags that `finish` and the thread share with it, and
what has happened: the writes to the hint slot, the offers, and the jobs that
were queued, dispatched, started, stored as a result and collected. -/
structure Life (κ : Type) where
  worker : Worker κ
  phase : Phase := .enroll
  stopping : Bool := false
  error : Bool := false
  writes : List Stamp := []
  offers : List (Job κ) := []
  accepted : List (Job κ) := []
  dispatched : List (Job κ) := []
  started : List (Job κ) := []
  stored : List (Job κ) := []
  collected : List (Job κ) := []
  deriving DecidableEq, Repr

/-- The hint that `finish` leaves in the slot of an idle worker. -/
def Worker.retirement (W : Worker κ) : Hint where
  stage := W.stage
  cls := .background
  job := 0
  release := 0
  deadline := 0
  stale := 0
  budget := 0
  slice := 0
  weight := 0

namespace Life

variable (L : Life κ) (now : Nat)

/-! ## operations -/

/-- The hint slot is written. -/
def write (w : Write) : Life κ :=
  { L with writes := L.writes ++ [⟨w, L.worker.thread.job?.isSome⟩] }

/-- `freshqos_publish_job_for`, and whether it succeeded. -/
def publish (h : Hint) : Publication → Life κ × Bool
  | .accepted => (L.write (.publish h), true)
  | .refused written => (if written then L.write (.publish h) else L, false)

/-- `freshqos_clear_hint`, when there are hints. -/
def clearHint : Life κ := if L.worker.hinted then L.write .clear else L

/-- The constructor has returned, and `finish` has not been called. -/
def serving : Bool := L.phase != .enroll && !L.stopping

/-- `offer`. -/
def offer (job : Job κ) : Life κ :=
  { L with
    worker := L.worker.offer job
    offers := L.offers ++ [job.base]
    accepted := if L.worker.queue.length = Worker.capacity then L.accepted
      else L.accepted ++ [job.base] }

/-- A control release that finds the worker occupied. -/
def skip : Life κ :=
  { L with worker := { L.worker with
      offered := L.worker.offered + 1
      dropped := L.worker.dropped + 1 } }

/-- The assignment of the job whose hint has been published. -/
def assign (j : Job κ) : Life κ :=
  { L with worker := L.worker.dispatch now, dispatched := L.dispatched ++ [j.base] }

/-- `dispatch`; the lock is released by the exception when it throws. -/
def dispatch (p : Publication) : Life κ :=
  if L.error then L
  else if L.worker.busy then L
  else match L.worker.queue with
    | [] => L
    | j :: _ =>
      if L.worker.hinted then
        match L.publish (L.worker.hintOf j) p with
        | (L', true) => L'.assign now j
        | (L', false) => L'
      else L.assign now j

/-- `collect`. -/
def collect : Life κ :=
  if L.error then L
  else match L.worker.result with
    | none => L
    | some r => { L with
        worker := (L.worker.collect now).1
        collected := L.collected ++ [r.job.base] }

/-- `finish` up to `join`. -/
def finish (p : Publication) : Life κ :=
  if L.worker.hinted && !L.worker.busy && L.worker.slot.isNone && L.worker.result.isNone
      && !L.error then
    match L.publish L.worker.retirement p with
    | (L', true) => { L' with stopping := true }
    | (L', false) => { L' with error := true, stopping := true }
  else { L with stopping := true }

/-- The thread has gone one step on, to `W`. -/
def worked (W : Worker κ) : Life κ :=
  match L.worker.thread with
  | .waiting => { L with
      worker := W
      started := L.started ++ (L.worker.slot.map Job.base).toList }
  | .measured r => { L with worker := W, stored := L.stored ++ [r.job.base] }
  | _ => { L with worker := W }

/-- The next step of `run`. -/
def run (cpu : Nat) : Option (Life κ) :=
  match L.phase, L.worker.thread, L.stopping with
  | .enroll, _, _ => some { L.clearHint with phase := .loop }
  -- `stopping` is looked at first, so a job in the slot is left there
  | .loop, .waiting, true => some { L with phase := .leaving }
  | .loop, _, _ => (L.worker.advance now cpu).map L.worked
  | .leaving, _, _ => some { L.clearHint with phase := .ended }
  | .ended, _, _ => none

/-! ## runs -/

/-- A call of the dispatcher with what it reads, or a step of the thread. -/
inductive Action (κ : Type)
  | offer (job : Job κ)
  | skip
  | dispatch (now : Nat) (p : Publication)
  | collect (now : Nat)
  | finish (p : Publication)
  | thread (now cpu : Nat)
  deriving Repr

/-- One step.  `finish` joins the thread and returns at once when that is done. -/
def step (L : Life κ) : Action κ → Option (Life κ)
  | .offer job => if L.serving then some (L.offer job) else none
  | .skip => if L.serving && L.worker.pending then some L.skip else none
  | .dispatch now p => if L.serving then some (L.dispatch now p) else none
  | .collect now => if L.serving then some (L.collect now) else none
  | .finish p =>
      if L.serving then some (L.finish p)
      else if L.phase = .ended then some L
      else none
  | .thread now cpu => L.run now cpu

/-- The constructor, up to the start of the thread. -/
def boot (κ : Type) (cls : ServiceClass) (stage : Nat) (hinted tracing : Bool) : Life κ where
  worker := { cls := cls, stage := stage, hinted := hinted, tracing := tracing }

/-! ## the invariant -/

/-- The last write to the hint slot. -/
def lastWrite : Option Write := L.writes.getLast?.map Stamp.write

/-- Jobs that the thread has taken and whose results are not collected. -/
def executed : List (Job κ) :=
  L.worker.thread.job?.toList ++ (L.worker.result.map Result.job).toList

/-- Each log is what the next one has got, and what is still on its way. -/
structure Trail (L : Life κ) : Prop where
  offers : L.accepted.Sublist L.offers
  accepted : L.accepted = L.dispatched ++ L.worker.queue.map Job.base
  dispatched : L.dispatched = L.collected ++ L.worker.outstanding.map Job.base
  started : L.started = L.collected ++ L.executed.map Job.base
  stored : L.stored = L.collected ++ (L.worker.result.map (Job.base ∘ Result.job)).toList
  completed : L.worker.completed = L.collected.length

/-- The hint slot. -/
structure Hinted (L : Life κ) : Prop where
  /-- an outstanding job's hint is in the slot until the worker is stopped -/
  owned : L.worker.hinted = true → L.stopping = false →
    ∀ j ∈ L.worker.outstanding, L.lastWrite = some (.publish (L.worker.hintOf j))
  /-- nobody has written under a running job -/
  quiet : ∀ w ∈ L.writes, w.executing = false

/-- Where the thread can be. -/
structure Staged (L : Life κ) : Prop where
  parked : L.phase ≠ .loop → L.worker.thread = .waiting
  fresh : L.phase = .enroll → L.worker.busy = false
  stopped : L.stopping = false → L.phase = .enroll ∨ L.phase = .loop

structure Sound (L : Life κ) : Prop where
  worker : L.worker.Sound
  staged : L.Staged
  trail : L.Trail
  hints : L.Hinted

variable {L} {L' : Life κ} {W : Worker κ} {now cpu : Nat} {job j : Job κ} {rest : List (Job κ)}
  {p : Publication} {h : Hint} {w : Write} {ws : List Stamp} {ph : Phase} {b e : Bool}

/-! ## the hint slot -/

@[simp] theorem write_worker : (L.write w).worker = L.worker := rfl

@[simp] theorem write_writes :
    (L.write w).writes = L.writes ++ [⟨w, L.worker.thread.job?.isSome⟩] := rfl

@[simp] theorem lastWrite_write : (L.write w).lastWrite = some w := by
  simp [lastWrite]

/-- A publication that is taken has been written. -/
theorem publish_true (hp : L.publish h p = (L', true)) : L' = L.write (.publish h) := by
  cases p with
  | accepted =>
      cases hp
      rfl
  | refused written => cases hp

/-- A publication that is refused may have been written. -/
theorem publish_false (hp : L.publish h p = (L', false)) : L' = L ∨ L' = L.write (.publish h) := by
  cases p with
  | accepted => cases hp
  | refused written =>
      cases written with
      | false =>
          cases hp
          exact .inl rfl
      | true =>
          cases hp
          exact .inr rfl

/-- The flags and the hint slot are no part of the trail. -/
theorem Trail.flags (ht : L.Trail) :
    Trail { L with phase := ph, stopping := b, error := e, writes := ws } :=
  ⟨ht.offers, ht.accepted, ht.dispatched, ht.started, ht.stored, ht.completed⟩

/-- A write while the thread has no job. -/
theorem Hinted.quiet_write (hh : L.Hinted) (hthread : L.worker.thread.job? = none) :
    ∀ s ∈ (L.write w).writes, s.executing = false := by
  intro s hs
  rw [write_writes, List.mem_append, List.mem_singleton] at hs
  cases hs with
  | inl hold => exact hh.quiet s hold
  | inr hnew =>
      rw [hnew, hthread]
      rfl

/-- A write while no job is outstanding. -/
theorem Hinted.write (hh : L.Hinted) (hout : L.worker.outstanding = []) :
    (L.write w).Hinted := by
  have hthread : L.worker.thread.job? = none := by
    simp only [Worker.outstanding, List.append_eq_nil_iff, Option.toList_eq_nil_iff] at hout
    exact hout.1.2
  refine ⟨?_, hh.quiet_write hthread⟩
  intro _ _ j hj
  rw [write_worker, hout] at hj
  cases hj

/-- An idle worker owes no result. -/
theorem Sound.outstanding_nil (hL : L.Sound) (hidle : L.worker.busy = false) :
    L.worker.outstanding = [] := by
  rw [← List.length_eq_zero_iff, hL.worker.one, hidle]
  rfl

/-- An idle worker's slot may be written. -/
theorem Sound.write (hL : L.Sound) (hidle : L.worker.busy = false) : (L.write w).Sound where
  worker := hL.worker
  staged := ⟨hL.staged.parked, hL.staged.fresh, hL.staged.stopped⟩
  trail := hL.trail.flags
  hints := hL.hints.write (hL.outstanding_nil hidle)

/-! ## each operation -/

/-- While the thread is in its loop it can be anywhere. -/
theorem Staged.of_loop (hp : L.phase = .loop) : L.Staged where
  parked hne := absurd hp hne
  fresh he := by rw [hp] at he; cases he
  stopped _ := .inr hp

/-- Behind the loop of a stopped worker. -/
theorem Staged.of_stopping (hs : L.stopping = true) (hthread : L.worker.thread = .waiting)
    (he : L.phase ≠ .enroll) : L.Staged where
  parked _ := hthread
  fresh hp := absurd hp he
  stopped hf := absurd (hs.symm.trans hf) (by decide)

/-- Only in the loop is a worker served. -/
theorem Sound.loop_of_serving (hL : L.Sound) (hs : L.serving = true) :
    L.phase = .loop ∧ L.stopping = false := by
  simp only [serving, Bool.and_eq_true, bne_iff_ne, Bool.not_eq_true'] at hs
  exact ⟨(hL.staged.stopped hs.2).resolve_left hs.1, hs.2⟩

/-- Offering a job keeps the worker's account. -/
theorem Sound.offer (hL : L.Sound) (hp : L.phase = .loop) (job : Job κ) :
    (L.offer job).Sound := by
  have hworker := hL.worker.offer job
  have ht := hL.trail
  refine ⟨hworker, .of_loop hp, ?_, ?_⟩
  · by_cases hfull : L.worker.queue.length = Worker.capacity
    · rw [Life.offer, if_pos hfull, Worker.offer, if_pos hfull]
      refine ⟨ht.offers.trans (List.sublist_append_left _ _), ht.accepted, ht.dispatched,
        ht.started, ht.stored, ht.completed⟩
    · rw [Life.offer, if_neg hfull, Worker.offer, if_neg hfull]
      refine ⟨ht.offers.append (List.Sublist.refl _), ?_, ht.dispatched, ht.started,
        ht.stored, ht.completed⟩
      show L.accepted ++ [job.base] = L.dispatched ++ (L.worker.queue ++ [job]).map Job.base
      rw [List.map_append, ← List.append_assoc, ← ht.accepted]
      rfl
  · have hframe : (L.offer job).worker.outstanding = L.worker.outstanding ∧
        (L.offer job).worker.hintOf = L.worker.hintOf ∧
        (L.offer job).worker.hinted = L.worker.hinted := by
      show (L.worker.offer job).outstanding = _ ∧ (L.worker.offer job).hintOf = _ ∧
        (L.worker.offer job).hinted = _
      unfold Worker.offer
      split <;> exact ⟨rfl, rfl, rfl⟩
    obtain ⟨hout, hof, hhinted⟩ := hframe
    refine ⟨?_, hL.hints.quiet⟩
    rw [hout, hof, hhinted]
    exact hL.hints.owned

/-- Skipping a job keeps the worker's account. -/
theorem Sound.skip (hL : L.Sound) (hp : L.phase = .loop) : L.skip.Sound := by
  have hcount := hL.worker.counted
  have ht := hL.trail
  refine ⟨⟨hL.worker.one, ?_⟩, .of_loop hp, ?_, ⟨hL.hints.owned, hL.hints.quiet⟩⟩
  · show L.worker.offered + 1 = L.worker.dropped + 1 + L.worker.completed
      + L.worker.closures.length
    omega
  · exact ⟨ht.offers, ht.accepted, ht.dispatched, ht.started, ht.stored, ht.completed⟩

/-- The first queued job moves into the slot, its hint being there before. -/
theorem Sound.assign (hL : L.Sound) (hp : L.phase = .loop) (hidle : L.worker.busy = false)
    (hq : L.worker.queue = j :: rest)
    (hown : L.worker.hinted = true → L.lastWrite = some (.publish (L.worker.hintOf j))) :
    (L.assign now j).Sound := by
  obtain ⟨hslot, hthread, hresult⟩ := hL.worker.holds_none hidle
  have hnone := hL.outstanding_nil hidle
  have hworker : (L.worker.dispatch now).Sound := (hL.worker.dispatch now).1
  have ht := hL.trail
  have heq : L.worker.dispatch now = { L.worker with
      hints := if L.worker.hinted then L.worker.hints ++ [L.worker.hintOf j] else L.worker.hints
      slot := some { j with assigned := now }
      queue := rest
      busy := true } := by
    simp [Worker.dispatch, hidle, hq]
  refine ⟨hworker, .of_loop hp, ?_, ?_⟩
  · rw [Life.assign, heq]
    refine ⟨ht.offers, ?_, ?_, ht.started, ht.stored, ht.completed⟩
    · show L.accepted = L.dispatched ++ [j.base] ++ rest.map Job.base
      rw [ht.accepted, hq]
      simp
    · show L.dispatched ++ [j.base] = L.collected ++ List.map Job.base _
      rw [ht.dispatched, hnone]
      simp [Worker.outstanding, hthread, hresult, Job.base]
  · rw [Life.assign, heq]
    refine ⟨?_, hL.hints.quiet⟩
    intro hhinted _ k hk
    have hk : k = { j with assigned := now } := by
      simpa [Worker.outstanding, hthread, hresult] using hk
    rw [hk]
    exact hown hhinted

/-- Dispatching keeps the worker's account. -/
theorem Sound.dispatch (hL : L.Sound) (hp : L.phase = .loop) : (L.dispatch now p).Sound := by
  unfold Life.dispatch
  split
  · exact hL
  · split
    · exact hL
    · next hbusy =>
      have hidle : L.worker.busy = false := by simpa using hbusy
      split
      · exact hL
      · next j rest hq =>
        split
        · split
          · next heq =>
            obtain rfl := publish_true heq
            exact (hL.write hidle).assign hp hidle hq (fun _ => lastWrite_write)
          · next heq =>
            obtain rfl | rfl := publish_false heq
            · exact hL
            · exact hL.write hidle
        · next hhinted => exact hL.assign hp hidle hq (fun hh => absurd hh hhinted)

/-- Collecting keeps the worker's account. -/
theorem Sound.collect (hL : L.Sound) (hp : L.phase = .loop) : (L.collect now).Sound := by
  unfold Life.collect
  split
  · exact hL
  · split
    · exact hL
    · next r hr =>
      obtain ⟨hslot, hthread⟩ := hL.worker.of_result hr
      have hcollect : L.worker.collect now = ((L.worker.collect now).1, some r.job.complete) := by
        simp [Worker.collect, hr]
      have hworker := (hL.worker.collect hcollect).1
      have ht := hL.trail
      have hdone : L.collected ++ [r.job.base] = L.dispatched := by
        rw [ht.dispatched]
        simp [Worker.outstanding, hslot, hthread, hr]
      refine ⟨hworker, .of_loop hp, ?_, ?_⟩
      · simp only [Worker.collect, hr]
        refine ⟨ht.offers, ht.accepted, ?_, ?_, ?_, ?_⟩
        · show L.dispatched = L.collected ++ [r.job.base] ++ _
          rw [hdone]
          simp [Worker.outstanding, hslot, hthread]
        · show L.started = L.collected ++ [r.job.base] ++ _
          rw [ht.started]
          simp [executed, hthread, hr]
        · show L.stored = L.collected ++ [r.job.base] ++ []
          rw [ht.stored, hr]
          simp
        · show L.worker.completed + 1 = (L.collected ++ [r.job.base]).length
          rw [ht.completed]
          simp
      · simp only [Worker.collect, hr]
        refine ⟨?_, hL.hints.quiet⟩
        intro _ _ k hk
        simp [Worker.outstanding, hslot, hthread] at hk

/-- The loop may end at any time. -/
theorem Sound.stop (hL : L.Sound) (hp : L.phase = .loop) (err : Bool) :
    Sound { L with error := err, stopping := true } where
  worker := hL.worker
  staged := .of_loop hp
  trail := hL.trail.flags
  hints := ⟨fun _ hs => absurd hs (by simp), hL.hints.quiet⟩

/-- `finish` writes only where no job is outstanding. -/
theorem Sound.finish (hL : L.Sound) (hp : L.phase = .loop) : (L.finish p).Sound := by
  unfold Life.finish
  split
  · next hdrained =>
    have hidle : L.worker.busy = false := by
      simp only [Bool.and_eq_true, Bool.not_eq_true'] at hdrained
      exact hdrained.1.1.1.2
    split
    · next heq =>
      obtain rfl := publish_true heq
      exact (hL.write hidle).stop hp L.error
    · next heq =>
      obtain rfl | rfl := publish_false heq
      · exact hL.stop hp true
      · exact (hL.write hidle).stop hp true
  · exact hL.stop hp L.error

/-- The hints are not touched by the loop of the thread. -/
theorem Hinted.worked (hh : L.Hinted) (hL : L.worker.Sound)
    (ha : L.worker.advance now cpu = some W) : (L.worked W).Hinted := by
  have hout := hL.advance_outstanding ha
  have hsame : (L.worked W).worker = W ∧ (L.worked W).stopping = L.stopping ∧
      (L.worked W).writes = L.writes := by
    unfold Life.worked
    split <;> exact ⟨rfl, rfl, rfl⟩
  obtain ⟨hworker, hstop, hwrites⟩ := hsame
  refine ⟨?_, ?_⟩
  · rw [hworker, hstop, hout, lastWrite, hwrites, Worker.advance_frame ha]
    exact hh.owned
  · rw [hwrites]
    exact hh.quiet

/-- One step of the loop of the thread, along the logs. -/
theorem Trail.worked (ht : L.Trail) (hL : L.worker.Sound)
    (ha : L.worker.advance now cpu = some W) : (L.worked W).Trail := by
  have hout := hL.advance_outstanding ha
  have hdispatched := ht.dispatched
  rw [← hout] at hdispatched
  obtain ⟨job, hthread, hslot, rfl⟩ | ⟨job, hthread, rfl⟩ | ⟨job, start, hthread, rfl⟩ |
    ⟨r, hthread, rfl⟩ := Worker.advance_cases ha
  · have hresult := (hL.of_slot hslot).2
    have hstarted := ht.started
    rw [Life.worked, hthread]
    refine ⟨ht.offers, ht.accepted, hdispatched, ?_, ht.stored, ht.completed⟩
    show L.started ++ (L.worker.slot.map Job.base).toList = L.collected ++ List.map Job.base _
    rw [hstarted]
    simp [executed, hthread, hslot, hresult, Activity.job?]
  · rw [Life.worked, hthread]
    refine ⟨ht.offers, ht.accepted, hdispatched, ?_, ht.stored, ht.completed⟩
    rw [ht.started]
    simp [executed, hthread, Activity.job?]
  · rw [Life.worked, hthread]
    refine ⟨ht.offers, ht.accepted, hdispatched, ?_, ht.stored, ht.completed⟩
    rw [ht.started]
    simp [executed, hthread, Activity.job?]
  · have hjob : L.worker.thread.job? = some r.job := by
      rw [hthread]
      rfl
    have hresult := (hL.of_thread hjob).2
    rw [Life.worked, hthread]
    refine ⟨ht.offers, ht.accepted, hdispatched, ?_, ?_, ht.completed⟩
    · rw [ht.started]
      simp [executed, hthread, hresult, Activity.job?]
    · show L.stored ++ [r.job.base] = L.collected ++ [r.job.base]
      rw [ht.stored, hresult]
      simp

/-- Clearing writes the slot, or finds no target. -/
theorem clearHint_eq (L : Life κ) : L.clearHint = L ∨ L.clearHint = L.write .clear := by
  unfold clearHint
  split
  · exact .inr rfl
  · exact .inl rfl

/-- The thread keeps the worker's account. -/
theorem Sound.run (hL : L.Sound) (hr : L.run now cpu = some L') : L'.Sound := by
  unfold Life.run at hr
  split at hr
  case h_1 hp =>
      cases hr
      have hidle := hL.staged.fresh hp
      obtain heq | heq := L.clearHint_eq
      · rw [heq]
        exact ⟨hL.worker, .of_loop rfl, hL.trail.flags, ⟨hL.hints.owned, hL.hints.quiet⟩⟩
      · rw [heq]
        have hw := hL.write (w := .clear) hidle
        exact ⟨hw.worker, .of_loop rfl, hw.trail.flags, ⟨hw.hints.owned, hw.hints.quiet⟩⟩
  case h_2 hp hthread hstop =>
      cases hr
      exact ⟨hL.worker, .of_stopping hstop hthread Phase.noConfusion, hL.trail.flags,
        ⟨hL.hints.owned, hL.hints.quiet⟩⟩
  case h_3 hp _ =>
      obtain ⟨W, ha, rfl⟩ := Option.map_eq_some_iff.mp hr
      have hsame : (L.worked W).worker = W ∧ (L.worked W).phase = L.phase := by
        unfold Life.worked
        split <;> exact ⟨rfl, rfl⟩
      refine ⟨?_, .of_loop (hsame.2.trans hp), hL.trail.worked hL.worker ha,
        hL.hints.worked hL.worker ha⟩
      rw [hsame.1]
      exact (hL.worker.advance ha).1
  case h_4 hp =>
      cases hr
      have hthread := hL.staged.parked (by rw [hp]; decide)
      have hstop : L.stopping = true := by
        cases hs : L.stopping with
        | true => rfl
        | false =>
            have hphase := hL.staged.stopped hs
            rw [hp] at hphase
            simp at hphase
      have hstaged : ∀ ws, Staged { L with phase := .ended, writes := ws } :=
        fun ws => .of_stopping hstop hthread Phase.noConfusion
      obtain heq | heq := L.clearHint_eq
      · rw [heq]
        exact ⟨hL.worker, hstaged _, hL.trail.flags, ⟨hL.hints.owned, hL.hints.quiet⟩⟩
      · rw [heq]
        refine ⟨hL.worker, hstaged _, hL.trail.flags, ?_, ?_⟩
        · intro _ hs
          exact absurd (hstop.symm.trans hs) (by decide)
        · exact hL.hints.quiet_write (by rw [hthread]; rfl)
  case h_5 => cases hr

/-! ## runs -/

/-- Every step keeps the invariant. -/
theorem sound_step : Preserved (step (κ := κ)) Sound := by
  intro L a L' hL ha
  cases a with
  | offer job =>
      obtain ⟨hs, heq⟩ := Option.ite_none_right_eq_some.mp ha
      cases heq
      exact hL.offer (hL.loop_of_serving hs).1 job
  | skip =>
      obtain ⟨hs, heq⟩ := Option.ite_none_right_eq_some.mp ha
      cases heq
      exact hL.skip (hL.loop_of_serving (Bool.and_eq_true_iff.mp hs).1).1
  | dispatch now p =>
      obtain ⟨hs, heq⟩ := Option.ite_none_right_eq_some.mp ha
      cases heq
      exact hL.dispatch (hL.loop_of_serving hs).1
  | collect now =>
      obtain ⟨hs, heq⟩ := Option.ite_none_right_eq_some.mp ha
      cases heq
      exact hL.collect (hL.loop_of_serving hs).1
  | finish p =>
      simp only [step] at ha
      split at ha
      · next hs =>
        cases ha
        exact hL.finish (hL.loop_of_serving hs).1
      · obtain ⟨-, heq⟩ := Option.ite_none_right_eq_some.mp ha
        cases heq
        exact hL
  | thread now cpu => exact hL.run ha

/-- A worker before its thread is started. -/
theorem sound_boot (cls : ServiceClass) (stage : Nat) (hinted tracing : Bool) :
    (boot κ cls stage hinted tracing).Sound where
  worker := ⟨rfl, rfl⟩
  staged := ⟨fun _ => rfl, fun _ => rfl, fun _ => .inl rfl⟩
  trail := ⟨List.Sublist.refl _, rfl, rfl, rfl, rfl, rfl⟩
  hints := ⟨fun _ _ _ hj => absurd hj List.not_mem_nil, fun _ hs => absurd hs List.not_mem_nil⟩

/-! ## the protocol -/

/-- What holds of a worker at any time. -/
structure Protocol (L : Life κ) : Prop where
  /-- `busy` while exactly one of the slot, the thread and the result has a job -/
  busy : L.worker.slot.isSome.toNat + L.worker.thread.job?.isSome.toNat
    + L.worker.result.isSome.toNat = L.worker.busy.toNat
  queued : L.accepted.Sublist L.offers
  dispatched : L.dispatched <+: L.accepted
  started : L.started <+: L.dispatched
  stored : L.stored <+: L.started
  collected : L.collected <+: L.stored
  /-- no result is lost -/
  kept : L.stored = L.collected ++ (L.worker.result.map (Job.base ∘ Result.job)).toList
  last : ∀ r, L.worker.result = some r → L.dispatched.getLast? = some r.job.base
  counted : L.worker.offered = L.worker.dropped + L.worker.completed + L.worker.queue.length
    + L.worker.busy.toNat
  hint : L.worker.hinted = true → L.stopping = false →
    ∀ j ∈ L.worker.outstanding, L.lastWrite = some (.publish (L.worker.hintOf j))
  quiet : ∀ w ∈ L.writes, w.executing = false

/-- Jobs held in two places are held in one after the other. -/
theorem Sound.stored_prefix (hL : L.Sound) : L.stored <+: L.started := by
  rw [hL.trail.stored, hL.trail.started, executed]
  cases hr : L.worker.result with
  | none => simp
  | some r => simp [(hL.worker.of_result hr).2]

/-- Jobs are started in the order in which they were dispatched. -/
theorem Sound.started_prefix (hL : L.Sound) : L.started <+: L.dispatched := by
  rw [hL.trail.started, hL.trail.dispatched, executed, Worker.outstanding]
  cases hs : L.worker.slot with
  | none => simp
  | some j =>
      obtain ⟨hthread, hresult⟩ := hL.worker.of_slot hs
      simp [hthread, hresult]

/-- A result is that of the last job dispatched. -/
theorem Sound.last_dispatched {r : Result κ} (hL : L.Sound) (hr : L.worker.result = some r) :
    L.dispatched.getLast? = some r.job.base := by
  obtain ⟨hslot, hthread⟩ := hL.worker.of_result hr
  rw [hL.trail.dispatched]
  simp [Worker.outstanding, hslot, hthread, hr]

/-- A worker with its account in order follows the protocol. -/
theorem Sound.protocol (hL : L.Sound) : L.Protocol where
  busy := by
    rw [← hL.worker.one, Worker.outstanding]
    cases L.worker.slot <;> cases L.worker.thread.job? <;> cases L.worker.result <;> rfl
  queued := hL.trail.offers
  dispatched := by
    rw [hL.trail.accepted]
    exact List.prefix_append _ _
  started := hL.started_prefix
  stored := hL.stored_prefix
  collected := by
    rw [hL.trail.stored]
    exact List.prefix_append _ _
  kept := hL.trail.stored
  last _ := hL.last_dispatched
  counted := by
    have hcount := hL.worker.counted
    rw [Worker.closures_length, hL.worker.one] at hcount
    omega
  hint := hL.hints.owned
  quiet := hL.hints.quiet

/-- **Worker protocol**: it holds in whatever order the dispatcher calls, the
thread steps, publications are refused and `finish` comes. -/
theorem worker_protocol (cls : ServiceClass) (stage : Nat) (hinted tracing : Bool)
    (as : List (Action κ)) (h : exec step (boot κ cls stage hinted tracing) as = some L) :
    L.Protocol :=
  (sound_step.exec (sound_boot cls stage hinted tracing) h).protocol

/-- Two offers, a refused publication, and an unwind over the first job. -/
def unwound : List (Action Unit) :=
  [.thread 0 0, .offer ⟨1, 10, 20, 5, (), 0, 0, -1⟩, .offer ⟨2, 15, 25, 5, (), 0, 0, -1⟩, .skip,
    .dispatch 16 (.refused false), .dispatch 17 .accepted, .thread 18 0, .thread 19 0,
    .finish .accepted, .thread 24 5, .thread 25 0, .thread 26 0, .thread 27 0, .finish .accepted]

/-- A worker that is unwound with jobs still queued. -/
theorem worker_protocol_unwound :
    ∃ L, exec step (boot Unit .deadline 1 true false) unwound = some L ∧ L.Protocol ∧
      L.phase = .ended ∧ L.stored.map Job.id = [1] ∧ L.collected = [] ∧
      L.worker.offered = 3 ∧ L.writes.map Stamp.write =
        [.clear, .publish ⟨1, .deadline, 1, 10, 20, 0, 0, 0, 0⟩, .clear] :=
  ⟨_, rfl, worker_protocol .deadline 1 true false unwound rfl, rfl, rfl, rfl, rfl, rfl⟩

end Life

end ScxSlam.Workload
