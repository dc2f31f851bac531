import Mathlib.Data.Nat.Basic
import ScxSlam.Lib.Word

/-!
# ScxSlam.PipelineDemo.Queue

A stage of `slam_pipeline_demo`: its `BlockingQueue`, the one `stage_worker`
thread that consumes it, and the hints the two publish.

Every section under the queue's mutex is one function, and `cv_.wait` splits
`pop` in two: the section that goes to sleep, and the section that runs when
the wait returns.  The worker's own code is cut at its clock readings.  Times
and identities are `uint64_t` and are naturals here; the deadline wraps.

The functions return the hints they publish, each with the `pid_tgid` key it
is published for, in place of writing the shared map.
-/

namespace ScxSlam.PipelineDemo

/-! ## data -/

/-- `WorkItem`, without the point cloud that only the compute time reads. -/
structure WorkItem where
  seq : Nat
  tsNs : Nat
  burstId : Nat := 0
  deriving DecidableEq, Repr

/-- `StageCfg`, without the thread's name. -/
structure StageCfg where
  stageId : Nat
  classId : Nat
  deadlineRelNs : Nat
  staleNs : Nat
  budgetNs : Nat
  sliceNs : Nat
  weight : Nat
  deriving DecidableEq, Repr

structure WindowStageStats where
  started : Nat := 0
  completed : Nat := 0
  late : Nat := 0
  staleSeen : Nat := 0
  droppedStale : Nat := 0
  deriving DecidableEq, Repr

structure WindowQueueStats where
  offered : Nat := 0
  dequeued : Nat := 0
  evicted : Nat := 0
  deriving DecidableEq, Repr

structure StageStats where
  processed : Nat := 0
  late : Nat := 0
  staleSeen : Nat := 0
  droppedStale : Nat := 0
  burstProcessed : Nat := 0
  burstLatestSeq : Nat := 0
  burstLatestAgeNs : Nat := 0
  focusJob : Nat := 0
  focusReleaseNs : Nat := 0
  focusCompletionNs : Nat := 0
  window : WindowStageStats := {}
  deriving DecidableEq, Repr

/-- What `freshqos_publish_job_for` writes under a key. -/
structure Hint where
  stageId : Nat
  classId : Nat
  jobSeq : Nat
  releaseTsNs : Nat
  deadlineTsNs : Nat
  staleNs : Nat
  budgetNs : Nat
  sliceNs : Nat
  weight : Nat
  deriving DecidableEq, Repr

/-- A hint and the `pid_tgid` it is published for. -/
abbrev Publication := Nat × Hint

/-- `HintTarget`: the shared map's descriptor, the value of the consumer's
`pid_tgid` cell, and the consumer's configuration; `none` is a null pointer,
and a negative descriptor is a map that was not opened. -/
structure HintTarget where
  pub : Option Int := none
  pidTgid : Option Nat := none
  cfg : Option StageCfg := none
  deriving DecidableEq, Repr

/-- `BlockingQueue`. -/
structure BlockingQueue where
  q : List WorkItem := []
  stop : Bool := false
  waiting : Bool := false
  evictStale : Bool := false
  queueEvictedStale : Nat := 0
  window : WindowQueueStats := {}
  ht : HintTarget := {}
  deriving DecidableEq, Repr

/-- Where a `stage_worker` is.  Between two calls of `pop` it carries the item
that the last one returned. -/
inductive WorkerPc
  /-- before it stores its `pid_tgid` -/
  | start
  /-- at `running->load()` -/
  | loop (last : Option WorkItem)
  /-- in `pop`, before the lock is taken -/
  | pop
  /-- in `cv_.wait`; `woken` once a push has notified it -/
  | wait (woken : Bool)
  /-- `pop` has returned `w`, the first clock reading is next -/
  | popped (w : WorkItem)
  /-- in `compute_us_fn` and the work, the second clock reading is next -/
  | compute (w : WorkItem)
  /-- at `out->push(w)` -/
  | forward (w : WorkItem)
  | exited (last : Option WorkItem)
  deriving DecidableEq, Repr

/-- The item of the last `pop`, from its return until `pop` is called again. -/
def WorkerPc.holds? : WorkerPc → Option WorkItem
  | .loop last | .exited last => last
  | .popped w | .compute w | .forward w => some w
  | .start | .pop | .wait _ => none

/-- The arguments of `stage_worker`, the key it registers, and the cutoff of
the measurement window.  `pid_out` is the cell of its queue's hint target.  A
thread's `pid_tgid` is never zero. -/
structure StageArgs where
  cfg : StageCfg
  hasOut : Bool
  dropStale : Bool
  self : Nat
  self_pos : 0 < self := by decide
  metricsEndNs : Nat := 0
  deriving DecidableEq, Repr

/-- A queue and its consumer. -/
structure Stage where
  queue : BlockingQueue := {}
  worker : WorkerPc := .start
  stats : StageStats := {}
  deriving DecidableEq, Repr

/-! ## clocks -/

/-- `inside_window`. -/
def insideWindow (cutoff timestamp : Nat) : Bool :=
  cutoff != 0 && decide (timestamp < cutoff)

/-- `deadline_abs`. -/
def deadlineAbs (w : WorkItem) (cfg : StageCfg) : Nat :=
  if cfg.deadlineRelNs = 0 then 0 else Word.add 64 w.tsNs cfg.deadlineRelNs

/-- `is_stale`. -/
def isStale (now : Nat) (w : WorkItem) (cfg : StageCfg) : Bool :=
  if cfg.staleNs = 0 then false
  else decide (w.tsNs < now) && decide (cfg.staleNs < now - w.tsNs)

/-! ## the queue -/

/-- The hint of an item under a stage's configuration. -/
def hintOf (c : StageCfg) (v : WorkItem) : Hint where
  stageId := c.stageId
  classId := c.classId
  jobSeq := v.seq
  releaseTsNs := v.tsNs
  deadlineTsNs := deadlineAbs v c
  staleNs := c.staleNs
  budgetNs := c.budgetNs
  sliceNs := c.sliceNs
  weight := c.weight

namespace BlockingQueue

variable (Q : BlockingQueue) (cutoff now : Nat)

/-- `publish_hint`. -/
def publishHint (v : WorkItem) : List Publication :=
  match Q.ht.pub, Q.ht.pidTgid, Q.ht.cfg with
  | some fd, some key, some c => if fd < 0 ∨ key = 0 then [] else [(key, hintOf c v)]
  | _, _, _ => []

/-- The configuration `evict_stale_locked` prunes by, where it prunes. -/
def evictsBy : Option StageCfg :=
  match Q.ht.cfg with
  | some c => if Q.evictStale = true ∧ c.staleNs ≠ 0 then some c else none
  | none => none

/-- `evict_stale_locked`: its loop walks the whole deque. -/
def evictStaleLocked : BlockingQueue :=
  match Q.evictsBy with
  | none => Q
  | some c =>
      let evicted := Q.q.countP (isStale now · c)
      { Q with
        q := Q.q.filter (fun w => !isStale now w c)
        queueEvictedStale := Q.queueEvictedStale + evicted
        window := if insideWindow cutoff now then
            { Q.window with evicted := Q.window.evicted + evicted }
          else Q.window }

/-- The counter `push` bumps before it publishes. -/
def countOffered : BlockingQueue :=
  if insideWindow cutoff now then
    { Q with window := { Q.window with offered := Q.window.offered + 1 } }
  else Q

/-- `push`, without `notify_one`. -/
def push (v : WorkItem) : BlockingQueue × List Publication :=
  let Q := (Q.evictStaleLocked cutoff now).countOffered cutoff now
  ({ Q with waiting := false, q := Q.q ++ [v] }, if Q.waiting then Q.publishHint v else [])

/-- The end of `pop`, where an item is there. -/
def take (w : WorkItem) (rest : List WorkItem) : BlockingQueue × List Publication :=
  let Q := if insideWindow cutoff now then
      { Q with window := { Q.window with dequeued := Q.window.dequeued + 1 } }
    else Q
  ({ Q with q := rest }, Q.publishHint w)

end BlockingQueue

/-! ## the stage -/

/-- What a step of a stage leaves behind: the stage, the hints it published,
and the item it pushes on the next queue. -/
structure Effect where
  stage : Stage
  hints : List Publication := []
  out : Option WorkItem := none
  deriving DecidableEq, Repr

/-- `cv_.notify_one()`. -/
def WorkerPc.notify : WorkerPc → WorkerPc
  | .wait _ => .wait true
  | pc => pc

namespace Stage

variable (args : StageArgs) (now : Nat) (S : Stage)

/-- A producer's `push`. -/
def push (v : WorkItem) : Effect :=
  let pushed := S.queue.push args.metricsEndNs now v
  { stage := { S with queue := pushed.1, worker := S.worker.notify }, hints := pushed.2 }

/-- `set_stale_eviction`. -/
def setStaleEviction (enabled : Bool) : Stage :=
  { S with queue := { S.queue with evictStale := enabled } }

/-- `stop`.  The flag stands for its `notify_all` as well: nobody begins to
wait once it is set, so a thread that waits behind it has been notified. -/
def stop : Stage := { S with queue := { S.queue with stop := true } }

/-- The worker is not in `cv_.wait`, or has been notified there: by a push, or
by the `notify_all` of `stop`. -/
def notified : Bool :=
  match S.worker with
  | .wait woken => woken || S.queue.stop
  | _ => true

/-- `pop` from its loop condition on, the lock held: sleep, return false, or
return an item. -/
def pop : Effect :=
  if S.queue.stop then { stage := { S with worker := .exited none } }
  else match S.queue.q with
    | [] => { stage := { S with queue := { S.queue with waiting := true }, worker := .wait false } }
    | w :: rest =>
        let taken := S.queue.take args.metricsEndNs now w rest
        { stage := { S with queue := taken.1, worker := .popped w }, hints := taken.2 }

/-- The wait returns, notified or not. -/
def resume : Effect :=
  ({ S with queue := { S.queue with waiting := false } } : Stage).pop args now

/-- `pid_out->store(freshqos_pid_tgid_self())`. -/
def register : Stage :=
  let ht := { S.queue.ht with pidTgid := S.queue.ht.pidTgid.map fun _ => args.self }
  { S with queue := { S.queue with ht := ht }, worker := .loop none }

/-- The counters between the first clock reading and the compute. -/
def startStats (stale : Bool) : StageStats :=
  let inside := insideWindow args.metricsEndNs now
  let dropped := stale && args.dropStale
  { S.stats with
    staleSeen := S.stats.staleSeen + stale.toNat
    droppedStale := S.stats.droppedStale + dropped.toNat
    window := { S.stats.window with
      started := S.stats.window.started + inside.toNat
      staleSeen := S.stats.window.staleSeen + (inside && stale).toNat
      droppedStale := S.stats.window.droppedStale + (inside && dropped).toNat } }

/-- From the first clock reading to the stale check. -/
def begin (w : WorkItem) : Stage :=
  let stale := isStale now w args.cfg
  { S with
    stats := S.startStats args now stale
    worker := if stale && args.dropStale then .loop (some w) else .compute w }

/-- The counters after the second clock reading. -/
def finishStats (w : WorkItem) : StageStats :=
  let inside := insideWindow args.metricsEndNs now
  let dl := deadlineAbs w args.cfg
  let late := dl != 0 && decide (dl < now)
  let stats := { S.stats with
    processed := S.stats.processed + 1
    late := S.stats.late + late.toNat
    window := { S.stats.window with
      completed := S.stats.window.completed + inside.toNat
      late := S.stats.window.late + (inside && late).toNat } }
  let stats := if w.seq = 4 then
      { stats with focusJob := w.seq, focusReleaseNs := w.tsNs, focusCompletionNs := now }
    else stats
  if w.burstId = 0 then stats
  else
    { stats with
      burstProcessed := stats.burstProcessed + 1
      burstLatestSeq := w.seq
      burstLatestAgeNs := if w.tsNs < now then now - w.tsNs else 0 }

/-- From the second clock reading to `if (out)`. -/
def finish (w : WorkItem) : Stage :=
  { S with
    stats := S.finishStats args now w
    worker := if args.hasOut then .forward w else .loop (some w) }

/-- The worker's next step; `none` once it has returned. -/
def work (running : Bool) : Option Effect :=
  match S.worker with
  | .start => some { stage := S.register args }
  | .loop last => some { stage := { S with worker := if running then .pop else .exited last } }
  | .pop => some (S.pop args now)
  | .wait _ => some (S.resume args now)
  | .popped w => some { stage := S.begin args now w }
  | .compute w => some { stage := S.finish args now w }
  | .forward w => some { stage := { S with worker := .loop (some w) }, out := some w }
  | .exited _ => none

end Stage

/-! ## a stage among producers -/

/-- A stage, the clock, `running`, and every publication so far. -/
structure State where
  stage : Stage
  now : Nat := 0
  running : Bool := true
  published : List Publication := []
  deriving DecidableEq, Repr

/-- Who acts next. -/
inductive Action
  /-- the clock goes on -/
  | tick (d : Nat)
  /-- any producer pushes any item -/
  | push (v : WorkItem)
  | setStaleEviction (enabled : Bool)
  | stop
  /-- `running.store(false)` -/
  | halt
  /-- another thread's key gets a hint, from whichever party publishes it -/
  | elsewhere (key : Nat) (h : Hint)
  /-- the worker takes its next step; in `cv_.wait` this is a return of the
  wait, spurious or not -/
  | worker
  deriving DecidableEq, Repr

/-- A stage's effect on the system.  The next queue belongs to another
consumer, so what its `push` publishes is an `elsewhere`. -/
def State.after (s : State) (e : Effect) : State :=
  { s with stage := e.stage, published := s.published ++ e.hints }

/-- One step; `none` where the action is not possible. -/
def step (args : StageArgs) (s : State) : Action → Option State
  | .tick d => some { s with now := s.now + d }
  | .push v => some (s.after (s.stage.push args s.now v))
  | .setStaleEviction enabled => some { s with stage := s.stage.setStaleEviction enabled }
  | .stop => some { s with stage := s.stage.stop }
  | .halt => some { s with running := false }
  | .elsewhere key h =>
      if key = args.self then none else some { s with published := s.published ++ [(key, h)] }
  | .worker => (s.stage.work args s.now s.running).map s.after

/-- Before the worker's thread starts: `set_hint_target` has been called with
an open map and a cell that still reads zero. -/
def State.initial (fd : Nat) (args : StageArgs) : State where
  stage := { queue := { ht := { pub := some fd, pidTgid := some 0, cfg := some args.cfg } } }

end ScxSlam.PipelineDemo
