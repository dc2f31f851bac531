import Mathlib.Tactic.Common
import ScxSlam.Lib.Word

/-!
# ScxSlam.Workload.Worker

`Worker` of `dependent_workload`: a bounded queue and counters that only the
dispatcher touches, and one thread that takes a job from `slot` and leaves a
`Result`.

Seen from the dispatcher a worker is a bounded queue of completion functions
(`Tally`): `offer` appends or drops, a `collect` that finds a result takes the
first one out, and nothing else moves any of them, because a job stays in
exactly one of the slot, the thread and the result for as long as `busy` holds.
-/

namespace ScxSlam.Workload

variable {κ : Type}

/-! ## data -/

/-- The `FRESH_CLASS_*` values the workload uses. -/
inductive ServiceClass
  | urgent
  | deadline
  | background
  deriving DecidableEq, Repr

/-- `Job`; `complete` names the completion function. -/
structure Job (κ : Type) where
  id : Nat
  release : Nat
  deadline : Nat
  work : Nat
  complete : κ
  assigned : Nat := 0
  budget : Nat := 0
  outcome : Int := -1
  deriving DecidableEq, Repr

/-- `Result`. -/
structure Result (κ : Type) where
  job : Job κ
  start : Nat
  finish : Nat
  cpu : Nat
  deriving DecidableEq, Repr

/-- `Worker::Trace`. -/
structure Trace where
  id : Nat
  release : Nat
  assigned : Nat
  start : Nat
  finish : Nat
  observed : Nat
  deadline : Nat
  cpu : Nat
  work : Nat
  budget : Nat
  outcome : Int
  deriving DecidableEq, Repr

/-- What `freshqos_publish_job_for` writes for the worker's thread. -/
structure Hint where
  stage : Nat
  cls : ServiceClass
  job : Nat
  release : Nat
  deadline : Nat
  stale : Nat
  budget : Nat
  slice : Nat
  weight : Nat
  deriving DecidableEq, Repr

/-- Where the thread is in its loop, the enrollment behind it. -/
inductive Activity (κ : Type)
  /-- in `cv.wait` -/
  | waiting
  /-- the slot is empty again and the mutex released, `start` is read next -/
  | taken (job : Job κ)
  /-- in the compute loop -/
  | compute (job : Job κ) (start : Nat)
  /-- `end` has been read, the mutex is taken next -/
  | measured (r : Result κ)
  deriving DecidableEq, Repr

/-- `Worker`; `hinted` is whether `qos` is set. -/
structure Worker (κ : Type) where
  cls : ServiceClass
  stage : Nat
  hinted : Bool := false
  tracing : Bool := false
  slot : Option (Job κ) := none
  thread : Activity κ := .waiting
  result : Option (Result κ) := none
  queue : List (Job κ) := []
  busy : Bool := false
  offered : Nat := 0
  dropped : Nat := 0
  completed : Nat := 0
  late : Nat := 0
  cpuTime : Nat := 0
  maxStart : Nat := 0
  maxAge : Nat := 0
  traces : List Trace := []
  hints : List Hint := []
  deriving DecidableEq, Repr

/-! ## operations -/

/-- The trace row of a result observed at `now`. -/
def Result.trace (r : Result κ) (now : Nat) : Trace where
  id := r.job.id
  release := r.job.release
  assigned := r.job.assigned
  start := r.start
  finish := r.finish
  observed := now
  deadline := r.job.deadline
  cpu := r.cpu
  work := r.job.work
  budget := r.job.budget
  outcome := r.job.outcome

namespace Worker

variable (W : Worker κ) (now : Nat)

/-- The capacity in `offer`. -/
def capacity : Nat := 32

/-- `offer`. -/
def offer (job : Job κ) : Worker κ :=
  if W.queue.length = capacity then
    { W with offered := W.offered + 1, dropped := W.dropped + 1 }
  else { W with offered := W.offered + 1, queue := W.queue ++ [job] }

/-- The hint `dispatch` publishes. -/
def hintOf (j : Job κ) : Hint where
  stage := W.stage
  cls := W.cls
  job := j.id
  release := j.release
  deadline := j.deadline
  stale := 0
  budget := j.budget
  slice := 0
  weight := 0

/-- `dispatch`, with `now` what it reads once it has a job. -/
def dispatch : Worker κ :=
  if W.busy then W
  else match W.queue with
    | [] => W
    | j :: rest => { W with
        hints := if W.hinted then W.hints ++ [W.hintOf j] else W.hints
        slot := some { j with assigned := now }
        queue := rest
        busy := true }

/-- `collect` up to the call of the completion function, which it returns;
`now` is what it reads for the trace. -/
def collect : Worker κ × Option κ :=
  match W.result with
  | none => (W, none)
  | some r => ({ W with
      result := none
      traces := if W.tracing then W.traces ++ [r.trace now] else W.traces
      busy := false
      completed := W.completed + 1
      cpuTime := W.cpuTime + r.cpu
      maxStart := max W.maxStart (Word.sub 64 r.start r.job.release)
      maxAge := max W.maxAge (Word.sub 64 r.finish r.job.release)
      late := W.late + (decide (r.job.deadline < r.finish)).toNat }, some r.job.complete)

/-- The thread's next step; `cpu` is what the compute loop has used when it
ends.  `none` while the thread has nothing to do, or too little CPU time. -/
def advance (cpu : Nat) : Option (Worker κ) :=
  match W.thread with
  | .waiting => W.slot.map fun job => { W with slot := none, thread := .taken job }
  | .taken job => some { W with thread := .compute job now }
  | .compute job start =>
      if job.work ≤ cpu then some { W with thread := .measured ⟨job, start, now, cpu⟩ }
      else none
  | .measured r => some { W with thread := .waiting, result := some r }

/-- What `dispatch`'s caller tests before it exits. -/
def pending : Bool := W.busy || !W.queue.isEmpty

end Worker

/-! ## the dispatcher's view -/

/-- The job in the thread's hands. -/
def Activity.job? : Activity κ → Option (Job κ)
  | .waiting => none
  | .taken job | .compute job _ => some job
  | .measured r => some r.job

/-- A worker as the dispatcher sees it: counters, and the completion functions
still to be called, in order. -/
structure Tally (κ : Type) where
  offered : Nat
  dropped : Nat
  completed : Nat
  closures : List κ

/-- An offer to a full queue. -/
def Tally.drop (T : Tally κ) : Tally κ :=
  { T with offered := T.offered + 1, dropped := T.dropped + 1 }

/-- An offer to a queue with room. -/
def Tally.push (T : Tally κ) (c : κ) : Tally κ :=
  { T with offered := T.offered + 1, closures := T.closures ++ [c] }

/-- The first completion function is called. -/
def Tally.pop (T : Tally κ) : Tally κ :=
  { T with completed := T.completed + 1, closures := T.closures.tail }

namespace Worker

variable {W W' : Worker κ} {now cpu : Nat} {job : Job κ} {c : κ}

/-- Jobs dispatched and not collected. -/
def outstanding (W : Worker κ) : List (Job κ) :=
  W.slot.toList ++ W.thread.job?.toList ++ (W.result.map Result.job).toList

/-- Completion functions in the order in which they will be called. -/
def closures (W : Worker κ) : List κ := (W.outstanding ++ W.queue).map Job.complete

def tally (W : Worker κ) : Tally κ where
  offered := W.offered
  dropped := W.dropped
  completed := W.completed
  closures := W.closures

/-- While `busy` holds one job is outstanding, and every offer is dropped,
completed or still to be completed. -/
structure Sound (W : Worker κ) : Prop where
  one : W.outstanding.length = W.busy.toNat
  counted : W.offered = W.dropped + W.completed + W.closures.length

theorem closures_length (W : Worker κ) :
    W.closures.length = W.outstanding.length + W.queue.length := by
  rw [closures, List.length_map, List.length_append]

/-- A worker is idle when no completion function waits. -/
theorem Sound.closures_eq_nil (h : W.Sound) :
    W.closures = [] ↔ W.busy = false ∧ W.queue = [] := by
  have hone := h.one
  rw [← List.length_eq_zero_iff, closures_length, hone]
  cases W.busy <;> simp

theorem Sound.pending_eq_false (h : W.Sound) : W.pending = false ↔ W.closures = [] := by
  rw [h.closures_eq_nil, pending]
  simp

/-- `offer` on a full queue drops. -/
theorem offer_full (hfull : W.queue.length = capacity) : (W.offer job).tally = W.tally.drop := by
  rw [offer, if_pos hfull]
  rfl

/-- `offer` on a queue with room appends. -/
theorem offer_room (hroom : W.queue.length ≠ capacity) :
    (W.offer job).tally = W.tally.push job.complete := by
  rw [offer, if_neg hroom]
  simp [tally, Tally.push, closures, outstanding]

theorem Sound.offer (h : W.Sound) (job : Job κ) : (W.offer job).Sound := by
  have hcount := h.counted
  by_cases hfull : W.queue.length = capacity
  · rw [Worker.offer, if_pos hfull]
    refine ⟨h.one, ?_⟩
    show W.offered + 1 = W.dropped + 1 + W.completed + W.closures.length
    omega
  · have hclosures : (W.offer job).closures = W.closures ++ [job.complete] :=
      congrArg Tally.closures (offer_room hfull)
    have hlen : (W.offer job).closures.length = W.closures.length + 1 := by
      rw [hclosures, List.length_append, List.length_singleton]
    rw [Worker.offer, if_neg hfull] at hlen ⊢
    refine ⟨h.one, ?_⟩
    show W.offered + 1 = W.dropped + W.completed + _
    omega

/-- An idle worker holds no job. -/
theorem Sound.holds_none (h : W.Sound) (hidle : W.busy = false) :
    W.slot = none ∧ W.thread.job? = none ∧ W.result = none := by
  have hnone : W.outstanding = [] := by
    rw [← List.length_eq_zero_iff, h.one, hidle]
    rfl
  simpa [outstanding, and_assoc] using hnone

theorem Sound.outstanding_length_le (h : W.Sound) : W.outstanding.length ≤ 1 := by
  rw [h.one]
  exact Bool.toNat_le W.busy

/-- A job in the slot is the only one. -/
theorem Sound.of_slot (h : W.Sound) (hs : W.slot = some job) :
    W.thread.job? = none ∧ W.result = none := by
  have hle := h.outstanding_length_le
  simp only [outstanding, hs, Option.toList_some, List.length_append,
    List.length_singleton] at hle
  have hthread : W.thread.job?.toList.length = 0 := by omega
  have hresult : (W.result.map Result.job).toList.length = 0 := by omega
  simpa using And.intro hthread hresult

/-- A job in the thread's hands is the only one. -/
theorem Sound.of_thread (h : W.Sound) (ht : W.thread.job? = some job) :
    W.slot = none ∧ W.result = none := by
  have hle := h.outstanding_length_le
  simp only [outstanding, ht, Option.toList_some, List.length_append,
    List.length_singleton] at hle
  have hslot : W.slot.toList.length = 0 := by omega
  have hresult : (W.result.map Result.job).toList.length = 0 := by omega
  simpa using And.intro hslot hresult

/-- A job whose result waits is the only one. -/
theorem Sound.of_result {r : Result κ} (h : W.Sound) (hr : W.result = some r) :
    W.slot = none ∧ W.thread.job? = none := by
  have hle := h.outstanding_length_le
  simp only [outstanding, hr, Option.map_some, Option.toList_some, List.length_append,
    List.length_singleton] at hle
  have hslot : W.slot.toList.length = 0 := by omega
  have hthread : W.thread.job?.toList.length = 0 := by omega
  simpa using And.intro hslot hthread

/-- `dispatch` moves the first queued job into the slot. -/
theorem Sound.dispatch (h : W.Sound) (now : Nat) :
    (W.dispatch now).Sound ∧ (W.dispatch now).tally = W.tally := by
  unfold Worker.dispatch
  split
  · exact ⟨h, rfl⟩
  · next hbusy =>
    split
    · exact ⟨h, rfl⟩
    · next j rest hq =>
      obtain ⟨hslot, hthread, hresult⟩ := h.holds_none (by simpa using hbusy)
      have hcount := h.counted
      have hclosures : W.closures = j.complete :: rest.map Job.complete := by
        simp [closures, outstanding, hslot, hthread, hresult, hq]
      rw [hclosures] at hcount
      refine ⟨⟨?_, ?_⟩, ?_⟩
      · simp [outstanding, hthread, hresult]
      · simpa [closures, outstanding, hthread, hresult] using hcount
      · simp [tally, closures, outstanding, hslot, hthread, hresult, hq]

/-- The four steps of the thread's loop. -/
theorem advance_cases (ha : W.advance now cpu = some W') :
    (∃ job, W.thread = .waiting ∧ W.slot = some job ∧
      W' = { W with slot := none, thread := .taken job }) ∨
    (∃ job, W.thread = .taken job ∧ W' = { W with thread := .compute job now }) ∨
    (∃ job start, W.thread = .compute job start ∧
      W' = { W with thread := .measured ⟨job, start, now, cpu⟩ }) ∨
    (∃ r, W.thread = .measured r ∧ W' = { W with thread := .waiting, result := some r }) := by
  unfold Worker.advance at ha
  split at ha
  case h_1 hthread =>
      obtain ⟨job, hslot, rfl⟩ := Option.map_eq_some_iff.mp ha
      exact .inl ⟨job, hthread, hslot, rfl⟩
  case h_2 job hthread =>
      cases ha
      exact .inr (.inl ⟨job, hthread, rfl⟩)
  case h_3 job start hthread =>
      split at ha <;> cases ha
      exact .inr (.inr (.inl ⟨job, start, hthread, rfl⟩))
  case h_4 r hthread =>
      cases ha
      exact .inr (.inr (.inr ⟨r, hthread, rfl⟩))

/-- The thread keeps its job. -/
theorem Sound.advance_outstanding (h : W.Sound) (ha : W.advance now cpu = some W') :
    W'.outstanding = W.outstanding := by
  obtain ⟨job, hthread, hslot, rfl⟩ | ⟨job, hthread, rfl⟩ | ⟨job, start, hthread, rfl⟩ |
    ⟨r, hthread, rfl⟩ := advance_cases ha
  · simp [outstanding, hthread, hslot, Activity.job?]
  · simp [outstanding, hthread, Activity.job?]
  · simp [outstanding, hthread, Activity.job?]
  · -- the thread holds the only outstanding job, so no result waits
    have hresult : W.result = none := (h.of_thread (by rw [hthread]; rfl)).2
    simp [outstanding, hthread, hresult, Activity.job?]

/-- The thread touches nothing that is the dispatcher's. -/
theorem advance_frame (ha : W.advance now cpu = some W') :
    W' = { W with slot := W'.slot, thread := W'.thread, result := W'.result } := by
  obtain ⟨job, -, -, rfl⟩ | ⟨job, -, rfl⟩ | ⟨job, start, -, rfl⟩ | ⟨r, -, rfl⟩ :=
    advance_cases ha <;> rfl

theorem Sound.advance (h : W.Sound) (ha : W.advance now cpu = some W') :
    W'.Sound ∧ W'.tally = W.tally := by
  have hout := h.advance_outstanding ha
  have hone := h.one
  have hcount := h.counted
  rw [← hout] at hone
  rw [advance_frame ha] at hout hone ⊢
  have hclosures : closures { W with slot := W'.slot, thread := W'.thread, result := W'.result }
      = W.closures := by
    rw [closures, closures, hout]
  refine ⟨⟨hone, ?_⟩, ?_⟩
  · rw [hclosures]
    exact hcount
  · rw [tally, hclosures]
    rfl

/-- `collect` without a result changes nothing. -/
theorem eq_of_collect_none (hc : W.collect now = (W', none)) : W' = W := by
  unfold collect at hc
  split at hc
  · cases hc
    rfl
  · cases hc

/-- `collect` with a result counts it, writes its row and takes it out. -/
theorem collect_some (hc : W.collect now = (W', some c)) :
    ∃ r, W.result = some r ∧ c = r.job.complete ∧ W' = { W with
      result := none
      traces := if W.tracing then W.traces ++ [r.trace now] else W.traces
      busy := false
      completed := W.completed + 1
      cpuTime := W.cpuTime + r.cpu
      maxStart := max W.maxStart (Word.sub 64 r.start r.job.release)
      maxAge := max W.maxAge (Word.sub 64 r.finish r.job.release)
      late := W.late + (decide (r.job.deadline < r.finish)).toNat } := by
  unfold collect at hc
  split at hc
  · cases hc
  · next r hr =>
    cases hc
    exact ⟨r, hr, rfl, rfl⟩

/-- It takes the first completion function out. -/
theorem Sound.collect (h : W.Sound) (hc : W.collect now = (W', some c)) : W'.Sound ∧
    W.closures = c :: W'.closures ∧ W'.tally = W.tally.pop := by
  obtain ⟨r, hr, rfl, rfl⟩ := collect_some hc
  obtain ⟨hslot, hthread⟩ := h.of_result hr
  have hclosures : W.closures = r.job.complete :: W.queue.map Job.complete := by
    simp [closures, outstanding, hslot, hthread, hr]
  have hcount := h.counted
  rw [hclosures] at hcount
  refine ⟨⟨?_, ?_⟩, ?_, ?_⟩
  · simp [outstanding, hslot, hthread]
  · simp only [closures, outstanding, hslot, hthread, List.length_cons] at hcount ⊢
    simpa [Nat.add_assoc, Nat.add_comm, Nat.add_left_comm] using hcount
  · simp [closures, outstanding, hslot, hthread, hr]
  · simp [tally, Tally.pop, closures, outstanding, hslot, hthread, hr]

end Worker

end ScxSlam.Workload
