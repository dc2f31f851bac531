import Mathlib.Logic.Function.Basic
import ScxSlam.Lib.Word

/-!
# ScxSlam.RosPipeline.Pipeline

`slam_pipeline` of the ROS workload in external mode: the source audit, the
four stages with their observers and callbacks, and the topics between them.

A topic delivers every message once and in order to each of its
subscriptions, so a subscription is a queue.  A stage is an executor that
serves one subscription: it selects a message, announces it, and then either
rejects it or runs its callback, one message at a time and to the end.  Which
messages it rejects is left open.  Every section under a `StageStats` mutex is
a step of its own.

A published message carries its place in the order of publication, and every
counter that is bumped for a message leaves an entry in a ledger; nothing
reads either.
-/

namespace ScxSlam.RosPipeline

/-! ## data -/

/-- `StampedJob`. -/
structure Message where
  jobId : Nat
  sourceTsNs : Nat
  releaseTsNs : Nat
  deriving DecidableEq, Repr

/-- A published message and its place among all of them. -/
structure Job where
  uid : Nat
  message : Message
  deriving DecidableEq, Repr

/-- The external topics. -/
inductive Source
  | imu
  | camera
  deriving DecidableEq, Repr

/-- The stages; each has one subscription and one executor. -/
inductive Stage
  | imu
  | vision
  | estimator
  | mapping
  deriving DecidableEq, Repr

/-- `StageStats`, without the clock that a snapshot reads. -/
structure StageStats where
  offered : Nat := 0
  arrivals : Nat := 0
  executed : Nat := 0
  dropped : Nat := 0
  upstreamDropped : Nat := 0
  active : Bool := false
  activeCpuStart : Nat := 0
  completed : Nat := 0
  late : Nat := 0
  stale : Nat := 0
  cpuNs : Nat := 0
  firstJobId : Nat := 0
  lastJobId : Nat := 0
  firstSourceTsNs : Nat := 0
  lastSourceTsNs : Nat := 0
  startAgesNs : List Nat := []
  completionAgesNs : List Nat := []
  deriving DecidableEq, Repr

/-- The source window of the options. -/
structure Window where
  sourceStartNs : Nat
  warmupS : Nat
  durationS : Nat
  deriving DecidableEq, Repr

/-- `source_time_measured`. -/
def Window.measured (w : Window) (m : Message) : Bool :=
  let start := Word.add 64 w.sourceStartNs (w.warmupS * 1000000000)
  decide (start ≤ m.sourceTsNs) &&
    decide (m.sourceTsNs < Word.add 64 start (w.durationS * 1000000000))

/-! ## wiring -/

/-- The stage that subscribes to an external topic. -/
def Source.subscriber : Source → Stage
  | .imu => .imu
  | .camera => .vision

/-- The stages the audit of a topic offers a message to. -/
def Source.audited : Source → List Stage
  | .imu => [.imu]
  | .camera => [.vision, .estimator, .mapping]

/-- The `downstream` of a stage's observer. -/
def Stage.downstream : Stage → List Stage
  | .imu => []
  | .vision => [.estimator, .mapping]
  | .estimator => [.mapping]
  | .mapping => []

/-- The stage that subscribes to what a stage's callback publishes. -/
def Stage.output : Stage → Option Stage
  | .imu => none
  | .vision => some .estimator
  | .estimator => some .mapping
  | .mapping => none

/-- `reject_expired` of the stage's profile. -/
def Stage.rejectExpired : Stage → Bool
  | .imu => false
  | .vision | .estimator | .mapping => true

/-- The deadline the callback accounts with. -/
def Stage.deadlineNs : Stage → Nat
  | .imu => 5000000
  | .vision | .estimator => 33000000
  | .mapping => 0

/-- The freshness window the callback accounts with. -/
def Stage.staleNs : Stage → Nat
  | .imu => 10000000
  | .vision | .estimator => 66000000
  | .mapping => 0

/-! ## counters -/

/-- What a counter counts. -/
inductive Kind
  | offered
  | arrived
  | executed
  | completed
  | dropped
  | upstreamDropped
  deriving DecidableEq, Repr

/-- One bump of one counter. -/
structure Entry where
  stage : Stage
  kind : Kind
  job : Job
  deriving DecidableEq, Repr

namespace StageStats

variable (stats : StageStats)

def count : Kind → Nat
  | .offered => stats.offered
  | .arrived => stats.arrivals
  | .executed => stats.executed
  | .completed => stats.completed
  | .dropped => stats.dropped
  | .upstreamDropped => stats.upstreamDropped

/-- `offer`. -/
def offer (m : Message) : StageStats :=
  let first := stats.firstJobId == 0
  { stats with
    offered := stats.offered + 1
    firstJobId := if first then m.jobId else stats.firstJobId
    firstSourceTsNs := if first then m.sourceTsNs else stats.firstSourceTsNs
    lastJobId := m.jobId
    lastSourceTsNs := m.sourceTsNs }

/-- The first critical section of `account_job`. -/
def enter (cpu : Nat) : StageStats :=
  { stats with executed := stats.executed + 1, active := true, activeCpuStart := cpu }

/-- The second one. -/
def leave (m : Message) (start now cpu deadlineNs staleNs : Nat) : StageStats :=
  let startAge := if m.releaseTsNs < start then start - m.releaseTsNs else 0
  let age := if m.releaseTsNs < now then now - m.releaseTsNs else 0
  { stats with
    completed := stats.completed + 1
    late := stats.late + (deadlineNs != 0 && decide (deadlineNs < age)).toNat
    stale := stats.stale + (staleNs != 0 && decide (staleNs < startAge)).toNat
    cpuNs := stats.cpuNs + cpu
    active := false
    startAgesNs := stats.startAgesNs ++ [startAge]
    completionAgesNs := stats.completionAgesNs ++ [age] }

end StageStats

/-! ## the parties -/

/-- Where a stage's executor is. -/
inductive StagePc
  | idle
  /-- at the observer's call with `Selected` -/
  | selected (j : Job)
  /-- at the expiry check -/
  | decide (j : Job)
  /-- at the observer's call with `DroppedBeforeStart` -/
  | drop (j : Job)
  /-- in the observer's loop over these stages -/
  | resolve (j : Job) (todo : List Stage)
  /-- at the callback's entry -/
  | enter (j : Job)
  /-- in `busy_work_us`, the readings of its start behind it -/
  | compute (j : Job) (start cpuStart : Nat)
  /-- at `publish` -/
  | publish (j : Job)
  deriving DecidableEq, Repr

/-- Where the audit executor is. -/
inductive AuditPc
  | idle
  /-- at `offer` for these stages -/
  | offering (j : Job) (todo : List Stage)
  deriving DecidableEq, Repr

/-- All parties, the messages on the way to them, and what was published. -/
structure State where
  now : Nat := 0
  queue : Stage → List Job := fun _ => []
  auditQueue : Source → List Job := fun _ => []
  pc : Stage → StagePc := fun _ => .idle
  audit : AuditPc := .idle
  stats : Stage → StageStats := fun _ => {}
  windowStartRelease : Nat := 0
  nextUid : Nat := 0
  published : Source → List Job := fun _ => []
  ledger : List Entry := []

namespace State

variable (s : State) (w : Window)

def setPc (S : Stage) (pc : StagePc) : State := { s with pc := Function.update s.pc S pc }

/-- A counter of a stage is bumped for a job. -/
def note (S : Stage) (kind : Kind) (j : Job) (f : StageStats → StageStats) : State :=
  { s with
    stats := Function.update s.stats S (f (s.stats S))
    ledger := s.ledger ++ [⟨S, kind, j⟩] }

/-- The message arrives at a stage's subscription. -/
def deliver (S : Stage) (j : Job) : State :=
  { s with queue := Function.update s.queue S (s.queue S ++ [j]) }

/-- An external party publishes on a topic with two subscriptions. -/
def publish (src : Source) (m : Message) : State :=
  let j : Job := { uid := s.nextUid, message := m }
  { s.deliver src.subscriber j with
    auditQueue := Function.update s.auditQueue src (s.auditQueue src ++ [j])
    nextUid := s.nextUid + 1
    published := Function.update s.published src (s.published src ++ [j]) }

/-- The idle audit executor takes a message of one of its subscriptions. -/
def auditTake (src : Source) : Option State :=
  match s.audit, s.auditQueue src with
  | .idle, j :: rest => some { s with
      auditQueue := Function.update s.auditQueue src rest
      audit := if w.measured j.message then .offering j src.audited else .idle }
  | _, _ => none

/-- The audit callback goes on. -/
def auditStep : Option State :=
  match s.audit with
  | .idle => none
  | .offering _ [] => some { s with audit := .idle }
  | .offering j (S :: todo) =>
      some { s.note S .offered j (·.offer j.message) with audit := .offering j todo }

/-- The IMU callback remembers the release of the first measured sample. -/
def anchor (S : Stage) (j : Job) : State :=
  if S = .imu ∧ s.windowStartRelease = 0 then
    { s with windowStartRelease := j.message.releaseTsNs }
  else s

/-- A stage's next step; `rejected` is the outcome of an expiry check and
`cpu` what the thread's CPU clock reads. -/
def stageStep (S : Stage) (rejected : Bool) (cpu : Nat) : Option State :=
  match s.pc S with
  | .idle =>
      match s.queue S with
      | [] => none
      | j :: rest =>
          some { s.setPc S (.selected j) with queue := Function.update s.queue S rest }
  | .selected j =>
      let s := if w.measured j.message then
          s.note S .arrived j fun stats => { stats with arrivals := stats.arrivals + 1 }
        else s
      some (s.setPc S (.decide j))
  | .decide j => some (s.setPc S (if rejected && S.rejectExpired then .drop j else .enter j))
  | .drop j =>
      if w.measured j.message then
        let s := s.note S .dropped j fun stats => { stats with dropped := stats.dropped + 1 }
        some (s.setPc S (.resolve j S.downstream))
      else some (s.setPc S .idle)
  | .resolve _ [] => some (s.setPc S .idle)
  | .resolve j (T :: todo) =>
      let s := s.note T .upstreamDropped j fun stats =>
        { stats with upstreamDropped := stats.upstreamDropped + 1 }
      some (s.setPc S (.resolve j todo))
  | .enter j =>
      let s := if w.measured j.message then (s.anchor S j).note S .executed j (·.enter cpu) else s
      some (s.setPc S (.compute j s.now cpu))
  | .compute j start cpuStart =>
      let s := if w.measured j.message then
          s.note S .completed j fun stats =>
            stats.leave j.message start s.now (Word.sub 64 cpu cpuStart) S.deadlineNs S.staleNs
        else s
      some (s.setPc S (if S.output.isSome then .publish j else .idle))
  | .publish j =>
      match S.output with
      | none => none
      | some T => some ((s.deliver T j).setPc S .idle)

end State

/-! ## the system -/

inductive Action
  | tick (d : Nat)
  /-- any external party publishes any message -/
  | publish (src : Source) (m : Message)
  | auditTake (src : Source)
  | audit
  | stage (S : Stage) (rejected : Bool) (cpu : Nat)
  deriving DecidableEq, Repr

/-- One step; `none` where the action is not possible. -/
def step (w : Window) (s : State) : Action → Option State
  | .tick d => some { s with now := s.now + d }
  | .publish src m => some (s.publish src m)
  | .auditTake src => s.auditTake w src
  | .audit => s.auditStep
  | .stage S rejected cpu => s.stageStep w S rejected cpu

end ScxSlam.RosPipeline
