import ScxSlam.Lib.Raise
import ScxSlam.Workload.Output

/-!
# ScxSlam.Workload.Audit

`validate` of `test_dependent_loaded.py`: what it collects from the lines of any
text, and what it checks.
-/

namespace ScxSlam.Workload

open Csv (Row)
open Fields (item startsWith)
open Python (Text Dict Raised)
open Raise (require)

/-! ## lines -/

/-- What the loop over the lines has collected. -/
structure Collected where
  workers : Dict (Dict Int) := []
  lifecycle : Dict (Dict Int) := []
  streams : Dict (Dict Int) := []
  window : Option (Dict Int) := none
  outcomes : Option (Dict Int) := none

/-- One line. -/
def readLine (c : Collected) (line : Text) : Except Raised Collected :=
  if startsWith "lifecycle " line then do
    let fields ← Fields.read (Python.cut '=') ((Python.words line).drop 1)
    let name ← item fields "worker".toList
    let values ← Fields.numbers (fields.drop "worker".toList)
    return { c with lifecycle := c.lifecycle.set name values }
  else if startsWith "worker=" line || startsWith "stream=" line then do
    let fields ← Fields.read (Python.cut '=') (Python.words line)
    let key := if (fields.get? "worker".toList).isSome then "worker".toList else "stream".toList
    let name ← item fields key
    let values ← Fields.numbers (fields.drop key)
    return if key = "worker".toList then { c with workers := c.workers.set name values }
      else { c with streams := c.streams.set name values }
  else if startsWith "measurement_window_ns=" line then do
    let values ← Fields.numbers (← Fields.read (Python.parts '=') (Python.words line))
    return { c with window := some values }
  else if startsWith "control " line then do
    let values ← Fields.numbers (← Fields.read (Python.parts '=') ((Python.words line).drop 1))
    return { c with outcomes := some values }
  else return c

/-! ## checks -/

/-- `expected`. -/
def expectedNames : List Text :=
  ["imu_processing".toList, "camera_processing".toList, "estimator".toList, "control".toList,
    "mapping".toList, "hog0".toList, "hog1".toList]

/-- `set(d) == set(names)`. -/
def sameNames {α : Type} (d : Dict α) (names : List Text) : Prop :=
  (∀ k ∈ d.keys, k ∈ names) ∧ ∀ k ∈ names, k ∈ d.keys

instance {α : Type} (d : Dict α) (names : List Text) : Decidable (sameNames d names) :=
  inferInstanceAs (Decidable ((∀ k ∈ d.keys, k ∈ names) ∧ ∀ k ∈ names, k ∈ d.keys))

/-- The priority a worker has to have. -/
def expectedPriority (fifo : Bool) (name : Text) : Int :=
  if fifo then
    (Dictionary.get? [("control".toList, 70), ("imu_processing".toList, 60),
      ("camera_processing".toList, 50), ("estimator".toList, 50)] name).getD 0
  else 0

/-- An error about a worker. -/
def workerError (name : Text) (what : String) : Raised :=
  .runtimeError (String.ofList name ++ ": " ++ what)

/-- The loop over the rows of a worker, and how many of them are late. -/
def lateJobs (name : Text) (life : Dict Int) : List Row → Except Raised Int
  | [] => .ok 0
  | r :: rows => do
      let stamps ← ["release_ns", "assigned_ns", "start_ns", "end_ns", "observed_ns"].mapM
        (Csv.number r)
      require (stamps = stamps.insertionSort (· ≤ ·)) (workerError name "invalid job lifecycle")
      let shutdown ← item life "shutdown_begin_ns".toList
      require (stamps.getLastD 0 ≤ shutdown) (workerError name "invalid job lifecycle")
      let finish ← Csv.number r "end_ns"
      let deadline ← Csv.number r "deadline_ns"
      let late ← lateJobs name life rows
      return late + if deadline < finish then 1 else 0

/-- `d['offered'] != d[done] + d['dropped'] or d['pending'] or d['in_flight']`. -/
def checkAccounting (done : String) (e : Raised) (d : Dict Int) : Except Raised Unit := do
  let offered ← item d "offered".toList
  let completed ← item d done.toList
  let dropped ← item d "dropped".toList
  require (offered = completed + dropped) e
  let pending ← item d "pending".toList
  require (pending = 0) e
  let inFlight ← item d "in_flight".toList
  require (inFlight = 0) e

/-- The policy a worker has to have. -/
def expectedPolicy (hinted : Bool) (priority : Int) : Int :=
  if hinted then 7 else if priority ≠ 0 then 1 else 0

def checkPolicy (hinted : Bool) (priority : Int) (name : Text) (life window : Dict Int) :
    Except Raised Unit := do
  let policy ← item life "policy".toList
  require (policy = expectedPolicy hinted priority)
    (workerError name "scheduler policy/priority mismatch")
  let actual ← item life "priority".toList
  require (actual = priority) (workerError name "scheduler policy/priority mismatch")
  if hinted ∨ priority ≠ 0 then
    let enrolling ← item life "enrollment_begin_ns".toList
    require (0 < enrolling) (workerError name "enrollment overlaps measured releases")
    let enrolled ← item life "enrollment_end_ns".toList
    require (enrolling ≤ enrolled) (workerError name "enrollment overlaps measured releases")
    let start ← item window "begin_ns".toList
    require (enrolled < start) (workerError name "enrollment overlaps measured releases")

def checkJobs (name : Text) (w life : Dict Int) (rows : List Row) : Except Raised Unit := do
  let jobs ← Csv.select "worker" name rows
  let completed ← item w "completed".toList
  require ((jobs.length : Int) = completed) (workerError name "duplicate/missing trace jobs")
  let ids ← jobs.mapM (Csv.field · "job")
  require (ids.dedup.length = jobs.length) (workerError name "duplicate/missing trace jobs")
  let late ← lateJobs name life jobs
  let counted ← item w "late".toList
  require (late = counted) (workerError name "deadline accounting mismatch")

/-- The body of the loop over the workers. -/
def checkWorker (hinted fifo : Bool) (c : Collected) (window : Dict Int) (rows : List Row)
    (p : Text × Dict Int) : Except Raised Unit := do
  checkAccounting "completed" (workerError p.1 "incomplete accounting") p.2
  let life ← item c.lifecycle p.1
  checkPolicy hinted (expectedPriority fifo p.1) p.1 life window
  checkJobs p.1 p.2 life rows

/-- The body of the loop over the sources. -/
def checkSource (c : Collected) (source worker : String) (count : Int) : Except Raised Unit := do
  let s ← item c.streams source.toList
  let w ← item c.workers worker.toList
  let released ← item w "offered".toList
  require (released = count) (.runtimeError "source window mismatch")
  let offered ← item s "offered".toList
  let completed ← item w "completed".toList
  require (offered = completed) (.runtimeError "source window mismatch")
  checkAccounting "consumed" (.runtimeError "measurement accounting mismatch") s

def checkControl (c : Collected) : Except Raised Unit := do
  let w ← item c.workers "control".toList
  let released ← item w "offered".toList
  require (released = 200) (.runtimeError "control accounting mismatch")
  match c.outcomes with
  | none => .error .attributeError
  | some outcomes =>
      let completed ← item w "completed".toList
      require ((outcomes.map Prod.snd).sum = completed)
        (.runtimeError "control accounting mismatch")

/-- `validate`. -/
def validate (text trace : Text) (hinted fifo : Bool) : Except Raised Unit := do
  let c ← (Python.lines text).foldlM readLine {}
  let window := c.window.getD []
  require (sameNames c.workers expectedNames ∧ sameNames c.lifecycle expectedNames ∧ window ≠ [])
    (.runtimeError "incomplete worker/lifecycle output")
  let rows ← Csv.table trace
  let completed ← c.workers.mapM fun p => item p.2 "completed".toList
  require ((rows.length : Int) = completed.sum) (.runtimeError "trace completion count mismatch")
  c.workers.forM (checkWorker hinted fifo c window rows)
  checkSource c "imu" "imu_processing" 400
  checkSource c "camera" "camera_processing" 40
  checkControl c

end ScxSlam.Workload
