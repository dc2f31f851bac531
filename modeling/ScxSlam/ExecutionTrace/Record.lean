import ScxSlam.ExecutionTrace.Analysis
import ScxSlam.Lib.Stable
import ScxSlam.Lib.Utf8

/-!
# ScxSlam.ExecutionTrace.Record

`parse_execution` of `e4_execution.py`: the records of a log and its counters,
checked one by one and merged by their timestamps.

A `Record` is a line as it stands there; `check` says what is wrong with it,
or makes the event of it that `analyze_execution` reads.
-/

namespace ScxSlam.ExecutionTrace

open Python (Text Dict)
open Raise (require)

/-! ## records -/

/-- The `ValueError`s: of a conversion, or with a text of their own. -/
inductive Invalid
  | conversion
  | because (what : String)
  deriving DecidableEq, Repr

/-- A value that may be missing. -/
def need {α : Type} (value : Option α) (e : Invalid) : Except Invalid α :=
  match value with
  | some a => .ok a
  | none => .error e

/-- `TASK_FIELDS` and the encoded command name, under one prefix. -/
structure TaskRecord where
  key : Int
  policy : Int
  stage : Int
  sliceNs : Int
  lastDsq : Int
  insertNs : Int
  requestedSliceNs : Int
  commHex : Text
  deriving DecidableEq, Repr

/-- `EVENT_FIELDS`, the label of the system call, and both tasks. -/
structure Record where
  kind : Int
  tsNs : Int
  urgentKey : Int
  cpu : Int
  runnable : Int
  preempt : Int
  prevState : Int
  callbackDeltaNs : Int
  syscallId : Int
  syscall : Text
  task : TaskRecord
  next : TaskRecord
  deriving DecidableEq, Repr

def TaskRecord.ints (t : TaskRecord) : List Int :=
  [t.key, t.policy, t.stage, t.sliceNs, t.lastDsq, t.insertNs, t.requestedSliceNs]

def Record.ints (r : Record) : List Int :=
  [r.kind, r.tsNs, r.urgentKey, r.cpu, r.runnable, r.preempt, r.prevState, r.callbackDeltaNs,
    r.syscallId] ++ r.task.ints ++ r.next.ints

/-! ## reading a record -/

def eventFields : List String :=
  ["kind", "ts_ns", "urgent_key", "cpu", "runnable", "preempt", "prev_state", "callback_delta_ns",
    "syscall_id"]

def taskFields : List String :=
  ["key", "policy", "stage", "slice_ns", "last_dsq", "insert_ns", "requested_slice_ns"]

/-- `f"{prefix}_{k}"`. -/
def prefixed (start k : String) : Text := start.toList ++ '_' :: k.toList

/-- `required`. -/
def required : List Text :=
  eventFields.map String.toList ++ "syscall".toList ::
    ((taskFields ++ ["comm_hex"]).map (prefixed "task") ++
      (taskFields ++ ["comm_hex"]).map (prefixed "next"))

/-- `set(d) == set(keys)`. -/
def sameKeys {α : Type} (d : Dict α) (keys : List Text) : Bool :=
  d.keys.all (· ∈ keys) && keys.all (· ∈ d.keys)

/-- The old name of `urgent_key`. -/
def renamed (fields : Dict Text) : Dict Text :=
  match fields.get? "imu_key".toList, fields.get? "urgent_key".toList with
  | some v, none => Dictionary.set (fields.drop "imu_key".toList) "urgent_key".toList v
  | _, _ => fields

/-- `int(fields[key])`. -/
def int (fields : Dict Text) (key : Text) : Except Invalid Int :=
  need ((fields.get? key).bind Python.int?) .conversion

def readTask (fields : Dict Text) (start : String) : Except Invalid TaskRecord := do
  let key ← int fields (prefixed start "key")
  let policy ← int fields (prefixed start "policy")
  let stage ← int fields (prefixed start "stage")
  let sliceNs ← int fields (prefixed start "slice_ns")
  let lastDsq ← int fields (prefixed start "last_dsq")
  let insertNs ← int fields (prefixed start "insert_ns")
  let requestedSliceNs ← int fields (prefixed start "requested_slice_ns")
  let commHex ← need (fields.get? (prefixed start "comm_hex")) .conversion
  require (commHex.length = 32 ∧ commHex.all Utf8.isHex)
    (.because "invalid execution comm encoding")
  return ⟨key, policy, stage, sliceNs, lastDsq, insertNs, requestedSliceNs, commHex⟩

def readRecord (fields : Dict Text) : Except Invalid Record := do
  let fields := renamed fields
  require (sameKeys fields required) (.because "incomplete or unknown execution record fields")
  let kind ← int fields "kind".toList
  let tsNs ← int fields "ts_ns".toList
  let urgentKey ← int fields "urgent_key".toList
  let cpu ← int fields "cpu".toList
  let runnable ← int fields "runnable".toList
  let preempt ← int fields "preempt".toList
  let prevState ← int fields "prev_state".toList
  let callbackDeltaNs ← int fields "callback_delta_ns".toList
  let syscallId ← int fields "syscall_id".toList
  let task ← readTask fields "task"
  let next ← readTask fields "next"
  let syscall ← need (fields.get? "syscall".toList) .conversion
  return {
    kind, tsNs, urgentKey, cpu, runnable, preempt, prevState, callbackDeltaNs, syscallId, syscall,
    task, next }

/-! ## checking it -/

/-- `KINDS`. -/
def kindOf (i : Int) : Option Kind :=
  if i = 1 then some .switch
  else if i = 2 then some .wakeup
  else if i = 3 then some .running
  else if i = 4 then some .stopping
  else none

/-- A field that is 0 or 1. -/
def flag (i : Int) : Option Bool :=
  if i = 0 then some false else if i = 1 then some true else none

/-- The labels of `syscall`. -/
def syscallLabels : List (Text × Syscall) :=
  [("none".toList, .none), ("clock_nanosleep".toList, .clockNanosleep),
    ("nanosleep".toList, .nanosleep), ("futex".toList, .futex), ("exit".toList, .exit),
    ("other".toList, .other)]

def phase (timestamp : Int) (timing : Timing) : Phase :=
  if timestamp < timing.startNs then .startup
  else if timestamp < timing.endNs then .window
  else .drain

/-- The command name: what stands in front of the first NUL. -/
def comm (commHex : Text) : Text := Utf8.decode ((Utf8.fromHex commHex).takeWhile (· ≠ 0))

def TaskRecord.task (t : TaskRecord) : Task where
  key := t.key
  policy := t.policy
  stage := t.stage
  sliceNs := t.sliceNs
  lastDsq := t.lastDsq
  insertNs := t.insertNs
  requestedSliceNs := t.requestedSliceNs
  comm := .ofList (comm t.commHex)

/-- An element of `events`: what `analyze_execution` reads of it, and the rest. -/
structure Recorded where
  event : Event
  urgentKey : Int
  cpu : Int
  callbackDeltaNs : Int
  syscallId : Int
  relativeNs : Int
  taskCommHex : Text
  nextCommHex : Text
  deriving DecidableEq, Repr

def checkPolicy (metrics : Metrics) (phase : Phase) (t : TaskRecord) : Except Invalid Unit :=
  require (t.key = metrics.imu ∧ phase = .window → t.policy = 7 ∧ t.stage = 0)
    (.because "execution IMU policy/stage mismatch")

/-- A switch is on the pinned CPU; everything else is of the IMU thread. -/
def Record.checkOwner (r : Record) (metrics : Metrics) (cpu : Int) (kind : Kind)
    (runnable preempt : Bool) : Except Invalid Unit :=
  if kind = .switch then do
    require (r.cpu = cpu) (.because "execution switch on the wrong CPU")
    require (runnable = (preempt || decide (r.prevState = 0)))
      (.because "execution switch runnable flag contradicts raw state/preempt")
  else
    require (r.task.key = metrics.imu)
      (.because "execution wakeup/callback belongs to another worker")

def Record.check (r : Record) (metrics : Metrics) (cpu : Int) : Except Invalid Recorded := do
  require (∀ i ∈ r.ints, 0 ≤ i) (.because "negative execution field")
  let kind ← need (kindOf r.kind) (.because "invalid execution kind/state")
  let runnable ← need (flag r.runnable) (.because "invalid execution kind/state")
  let preempt ← need (flag r.preempt) (.because "invalid execution kind/state")
  let syscall ← need (syscallLabels.lookup r.syscall) (.because "invalid syscall label")
  let phase := phase r.tsNs metrics.measurement
  require ((r.urgentKey = 0 ∨ r.urgentKey = metrics.imu) ∧
    (phase = .window → r.urgentKey = metrics.imu)) (.because "execution IMU identity mismatch")
  r.checkOwner metrics cpu kind runnable preempt
  -- a wakeup may come from another CPU
  require (kind = .running ∨ kind = .stopping → r.cpu = cpu)
    (.because "IMU execution migrated off the pinned CPU")
  checkPolicy metrics phase r.task
  checkPolicy metrics phase r.next
  return {
    event := {
      kind, phase, runnable, preempt, syscall
      tsNs := r.tsNs
      prevState := r.prevState
      task := r.task.task
      next := r.next.task }
    urgentKey := r.urgentKey
    cpu := r.cpu
    callbackDeltaNs := r.callbackDeltaNs
    syscallId := r.syscallId
    relativeNs := r.tsNs - metrics.measurement.startNs
    taskCommHex := r.task.commHex
    nextCommHex := r.next.commHex }

/-! ## the log -/

/-- `events` and `counters`, as the loop over the lines finds them. -/
structure Log where
  events : List Recorded := []
  counters : Option (Dict Nat) := none
  deriving DecidableEq, Repr

def isSummary (line : Text) : Bool := Fields.startsWith "execution_summary:" line

def isRecord (line : Text) : Bool := Fields.startsWith "[execution] " line

/-- A line that starts with `[execution] `. -/
def readEvent (metrics : Metrics) (cpu : Int) (line : Text) : Except Invalid Recorded := do
  let fields ← need (Fields.read (Python.cut '=') ((Python.words line).drop 1)).toOption .conversion
  let r ← readRecord fields
  r.check metrics cpu

/-- The body of the loop. -/
def readLine (metrics : Metrics) (cpu : Int) (log : Log) (line : Text) : Except Invalid Log :=
  if isSummary line then do
    require (log.counters = none) (.because "duplicate execution counters")
    return { log with counters := some (Dictionary.ofPairs (Scan.numbers line)) }
  else if isRecord line then do
    let e ← readEvent metrics cpu line
    return { log with events := log.events ++ [e] }
  else .ok log

def counterFields : List String := ["emitted", "lost", "identity_conflicts"]

/-- `counters`, if they are the three. -/
def readCounters (counters : Dict Nat) : Option Counters :=
  if sameKeys counters (counterFields.map String.toList) then do
    let emitted ← counters.get? "emitted".toList
    let lost ← counters.get? "lost".toList
    let conflicts ← counters.get? "identity_conflicts".toList
    return ⟨emitted, lost, conflicts⟩
  else none

def parseExecution (text : Text) (metrics : Metrics) (cpu : Int) :
    Except Invalid (List Recorded × Counters) := do
  let log ← (Python.lines text).foldlM (readLine metrics cpu) {}
  let counters ← need (log.counters.bind readCounters) (.because "missing execution counters")
  require (counters.emitted = log.events.length ∧ log.events ≠ [])
    (.because "execution counters/events do not reconcile")
  return (Stable.sort (·.event.tsNs) log.events, counters)

end ScxSlam.ExecutionTrace
