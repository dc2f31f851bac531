import ScxSlam.Lib.Tiling
import Mathlib.Data.Rat.Defs

/-!
# ScxSlam.ExecutionTrace.Analysis

`analyze_execution` of `e4_execution.py`: from the recorded scheduler events,
who had the CPU and what the IMU thread was doing in the measured window.

A state timeline of the IMU thread and the segments between CPU switches are
built independently, and merged by one sweep over both.
-/

namespace ScxSlam.ExecutionTrace

open Tiling

/-! ## events -/

/-- `KINDS`. -/
inductive Kind
  | switch
  | wakeup
  | running
  | stopping
  deriving DecidableEq, Repr

inductive Phase
  | startup
  | window
  | drain
  deriving DecidableEq, Repr

/-- The labels of blocking system calls. -/
inductive Syscall
  | none
  | clockNanosleep
  | nanosleep
  | futex
  | exit
  | other
  deriving DecidableEq, Repr

/-- `TASK_FIELDS` and the command name. -/
structure Task where
  key : Int
  policy : Int := 0
  stage : Int := 0
  sliceNs : Int := 0
  lastDsq : Int := 0
  insertNs : Int := 0
  requestedSliceNs : Int := 0
  comm : String := ""
  deriving DecidableEq, Repr

/-- A recorded event; `task` is the one that ran, `next` the one switched in. -/
structure Event where
  kind : Kind
  tsNs : Int
  phase : Phase := .window
  runnable : Bool := false
  preempt : Bool := false
  prevState : Int := 0
  syscall : Syscall := .none
  task : Task
  next : Task
  deriving DecidableEq, Repr

structure Counters where
  emitted : Nat := 0
  lost : Nat := 0
  identityConflicts : Nat := 0
  deriving DecidableEq, Repr

/-- `metrics["measurement"]`. -/
structure Timing where
  startNs : Int
  endNs : Int
  deriving DecidableEq, Repr

structure Metrics where
  measurement : Timing
  /-- `metrics["imu_identity"]["pid_tgid"]`. -/
  imu : Int
  /-- `metrics["window_imu_prop"]["cpu_ns"]`. -/
  imuCpuNs : Int
  deriving DecidableEq, Repr

def clipped (a b : Int) (timing : Timing) : Int :=
  max 0 (min b timing.endNs - max a timing.startNs)

/-! ## the state timeline -/

inductive ImuState
  | onCpu
  | blocked
  | runnableWait
  | exitPath
  | unknown
  deriving DecidableEq, Repr

inductive Reason
  | unknown
  | wakeSwitchRace
  | syscall (call : Syscall)
  deriving DecidableEq, Repr

/-- A span of the timeline: what the IMU thread was doing, and why. -/
abbrev StateSpan := Span Int (ImuState × Reason)

/-- The variables of the loop over the events. -/
structure Scan where
  states : List StateSpan := []
  state : ImuState := .unknown
  reason : Reason := .unknown
  previous : Int
  wakeWhileRunning : Bool := false
  deriving DecidableEq, Repr

/-- `states.append` of the span that ends at `timestamp`, if it is not empty. -/
def Scan.close (s : Scan) (timestamp : Int) : Scan where
  states := if s.previous < timestamp then s.states ++ [⟨s.previous, timestamp, s.state, s.reason⟩]
    else s.states
  state := s.state
  reason := s.reason
  previous := timestamp
  wakeWhileRunning := s.wakeWhileRunning

/-- The state after a wakeup or a switch. -/
def Scan.enter (s : Scan) (imu : Int) (e : Event) : Scan :=
  if e.kind = .wakeup then
    if s.state = .onCpu then { s with wakeWhileRunning := true }
    else { s with state := .runnableWait, reason := .syscall .none }
  else if e.next.key = imu then
    { s with state := .onCpu, reason := .syscall .none, wakeWhileRunning := false }
  else if e.task.key = imu then
    if e.runnable then
      { s with state := .runnableWait, reason := .syscall .none, wakeWhileRunning := false }
    -- the wake raced the switch on another CPU
    else if s.wakeWhileRunning then
      { s with state := .unknown, reason := .wakeSwitchRace, wakeWhileRunning := false }
    else if e.syscall = .exit then
      { s with state := .exitPath, reason := .syscall .exit, wakeWhileRunning := false }
    else { s with state := .blocked, reason := .syscall e.syscall, wakeWhileRunning := false }
  else s

/-- The body of the loop. -/
def Scan.step (imu : Int) (s : Scan) (e : Event) : Scan :=
  match e.kind with
  | .stopping => { s with wakeWhileRunning := false }
  | .running => s
  | _ => (s.close e.tsNs).enter imu e

/-- The last span reaches the end of the window. -/
def Scan.finish (s : Scan) (endNs : Int) : List StateSpan :=
  s.states ++ [⟨s.previous, max endNs s.previous, s.state, s.reason⟩]

/-- `states`. -/
def stateTimeline (imu endNs : Int) (events : List Event) : List StateSpan :=
  (events.foldl (Scan.step imu) { previous := (events.head?.map (·.tsNs)).getD 0 }).finish endNs

/-! ## the switches -/

/-- `switches`. -/
def switches (events : List Event) : List Event := events.filter (·.kind = .switch)

/-- `zip(switches, switches[1:])`. -/
def pairs (l : List Event) : List (Event × Event) := l.zip l.tail

/-- The switches reach over the window. -/
def brackets (timing : Timing) (l : List Event) : Bool :=
  match l.head?, l.getLast? with
  | some first, some last => first.tsNs ≤ timing.startNs ∧ timing.endNs ≤ last.tsNs
  | _, _ => false

/-- Each switch is from the task the one before it was to. -/
def linked (l : List Event) : Bool := (pairs l).all fun p => p.1.next.key = p.2.task.key

/-! ## the intersection -/

/-- A row of `intervals`. -/
structure Interval where
  startNs : Int
  endNs : Int
  durationNs : Int
  imuState : ImuState
  blockedSyscall : Reason
  /-- The `cpu_` columns. -/
  cpu : Task
  deriving DecidableEq, Repr

/-- The row of a state inside `[left, right)`. -/
def row (a : Event) (left right : Int) (s : StateSpan) : Option Interval :=
  let lo := max left s.lo
  let hi := min right s.hi
  if lo < hi then
    some {
      startNs := lo
      endNs := hi
      durationNs := hi - lo
      imuState := s.tag.1
      blockedSyscall := s.tag.2
      cpu := a.next }
  else none

/-- The sweep over both lists; `rest` is `states[pos:]`. -/
def intersect (timing : Timing) : List (Event × Event) → List StateSpan → List Interval
  | [], _ => []
  | (a, b) :: l, rest =>
      let left := max timing.startNs a.tsNs
      let right := min timing.endNs b.tsNs
      if right ≤ left then intersect timing l rest
      else
        let rest := rest.dropWhile (·.hi ≤ left)
        (rest.takeWhile (·.lo < right)).filterMap (row a left right) ++ intersect timing l rest

/-- The keys of `occupancy`. -/
structure Occupant where
  imuState : ImuState
  blockedSyscall : Reason
  key : Int
  comm : String
  policy : Int
  stage : Int
  lastDsq : Int
  deriving DecidableEq, Repr

def Interval.occupant (i : Interval) : Occupant where
  imuState := i.imuState
  blockedSyscall := i.blockedSyscall
  key := i.cpu.key
  comm := i.cpu.comm
  policy := i.cpu.policy
  stage := i.cpu.stage
  lastDsq := i.cpu.lastDsq

/-- `occupancy[key] += ns`, in insertion order. -/
def credit (occupancy : List (Occupant × Int)) (key : Occupant) (ns : Int) :
    List (Occupant × Int) :=
  if occupancy.any (·.1 = key) then
    occupancy.map fun p => if p.1 = key then (p.1, p.2 + ns) else p
  else occupancy ++ [(key, ns)]

/-- `occupancy` when the sweep has appended these rows. -/
def occupancy (intervals : List Interval) : List (Occupant × Int) :=
  intervals.foldl (fun acc i => credit acc i.occupant i.durationNs) []

/-- `totals[s]`. -/
def total (intervals : List Interval) (s : ImuState) : Int :=
  ((intervals.filter (·.imuState = s)).map (·.durationNs)).sum

/-- `sum(totals.values())`. -/
def totalsSum (intervals : List Interval) : Int :=
  (([.onCpu, .blocked, .runnableWait, .exitPath, .unknown] : List ImuState).map
    (total intervals)).sum

/-! ## the scheduler callbacks -/

/-- The loop over the callbacks: the closed intervals and the open callback. -/
def callbacks (startNs : Int) : List (Int × Int) → Option Event → List Event →
    Except String (List (Int × Int) × Option Event)
  | acc, running, [] => .ok (acc, running)
  | acc, running, e :: l => match e.kind, running with
      | .running, some _ => .error "unpaired IMU running callbacks"
      | .running, none => callbacks startNs acc (some e) l
      | .stopping, none =>
          if startNs ≤ e.tsNs then .error "unpaired IMU stopping callback"
          else callbacks startNs acc none l
      | .stopping, some r => callbacks startNs (acc ++ [(r.tsNs, e.tsNs)]) none l
      | _, running => callbacks startNs acc running l

/-! ## the report -/

/-- A row of `away`. -/
structure Away where
  tsNs : Int
  phase : Phase
  runnable : Bool
  prevState : Int
  preempt : Bool
  syscall : Syscall
  imuResidencyNs : Option Int
  imuRemainingSliceNs : Int
  imuStartSliceNs : Option Int
  nextResidencyNs : Int
  nextWindowResidencyNs : Int
  /-- The `next_` columns. -/
  next : Task
  deriving DecidableEq, Repr

/-- The loop over `switches[:-1]`; `prior` is the switch before. -/
def awayRows (imu : Int) (timing : Timing) : Option Event → List Event → List Away
  | prior, e :: after :: l =>
      let more := awayRows imu timing (some e) (after :: l)
      if e.task.key ≠ imu then more
      else {
        tsNs := e.tsNs
        phase := e.phase
        runnable := e.runnable
        prevState := e.prevState
        preempt := e.preempt
        syscall := e.syscall
        imuResidencyNs := prior.map (e.tsNs - ·.tsNs)
        imuRemainingSliceNs := e.task.sliceNs
        imuStartSliceNs := prior.map (·.next.sliceNs)
        nextResidencyNs := after.tsNs - e.tsNs
        nextWindowResidencyNs := clipped e.tsNs after.tsNs timing
        next := e.next } :: more
  | _, _ => []

/-- A row of the occupancy table. -/
structure OccupancyRow where
  occupant : Occupant
  windowNs : Int
  windowPct : Rat
  deriving DecidableEq, Repr

/-- `rows`, longest first. -/
def occupancyRows (timing : Timing) (intervals : List Interval) : List OccupancyRow :=
  let rows := (occupancy intervals).map fun (k, ns) =>
    { occupant := k
      windowNs := ns
      windowPct := (ns * 100 : Rat) / (timing.endNs - timing.startNs : Int) }
  rows.mergeSort fun r r' => -r.windowNs ≤ -r'.windowNs

structure Summary where
  windowNs : Int
  imuSwitchResidencyNs : Int
  imuBlockedNs : Int
  imuRunnableWaitNs : Int
  imuUnknownNs : Int
  imuExitPathNs : Int
  imuCallbackResidencyNs : Int
  imuComputeCpuNs : Int
  deriving DecidableEq, Repr

/-- The summary, or why the analysis is invalid, and the three tables. -/
structure Analysis where
  counters : Counters
  summary : Except String Summary
  intervals : List Interval := []
  away : List Away := []
  rows : List OccupancyRow := []

/-- Time that no callback covers makes a valid report impossible. -/
def callbackNs (timing : Timing) (events : List Event) : Except String Int :=
  match callbacks timing.startNs [] none events with
  | .error what => .error what
  | .ok (closed, running) =>
      if running.any (·.tsNs < timing.endNs) then
        .error "IMU callback coverage ends before cutoff"
      else
        let ns := (closed.map fun c => clipped c.1 c.2 timing).sum
        if ns = 0 then .error "no IMU running/stopping coverage in window" else .ok ns

/-- `analyze_execution`. -/
def analyzeExecution (events : List Event) (counters : Counters) (metrics : Metrics) : Analysis :=
  let timing := metrics.measurement
  let sw := switches events
  if counters.lost ≠ 0 ∨ counters.identityConflicts ≠ 0 then
    { counters := counters
      summary := .error "ring loss or ambiguous IMU identity; no gap attribution" }
  else if brackets timing sw = false then
    { counters := counters, summary := .error "switch trace does not bracket the fixed window" }
  else if linked sw = false then
    { counters := counters, summary := .error "CPU switch chain is discontinuous" }
  else
    let intervals := intersect timing (pairs sw) (stateTimeline metrics.imu timing.endNs events)
    if totalsSum intervals ≠ timing.endNs - timing.startNs ∨ total intervals .unknown ≠ 0 then
      { counters := counters
        summary := .error "window contains uncovered or ambiguous IMU state"
        intervals := intervals }
    else if intervals.any fun i => (i.cpu.key = metrics.imu) ≠ (i.imuState = .onCpu) then
      { counters := counters
        summary := .error "IMU state contradicts observed CPU occupant"
        intervals := intervals }
    else match callbackNs timing events with
      | .error what => { counters := counters, summary := .error what, intervals := intervals }
      | .ok callbackNs =>
          { counters := counters
            summary := .ok {
              windowNs := timing.endNs - timing.startNs
              imuSwitchResidencyNs := total intervals .onCpu
              imuBlockedNs := total intervals .blocked
              imuRunnableWaitNs := total intervals .runnableWait
              imuUnknownNs := total intervals .unknown
              imuExitPathNs := total intervals .exitPath
              imuCallbackResidencyNs := callbackNs
              imuComputeCpuNs := metrics.imuCpuNs }
            intervals := intervals
            away := awayRows metrics.imu timing none sw
            rows := occupancyRows timing intervals }

end ScxSlam.ExecutionTrace
