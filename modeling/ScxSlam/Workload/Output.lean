import ScxSlam.Lib.Csv
import ScxSlam.Lib.Fields
import ScxSlam.Workload.ControlAge
import ScxSlam.Workload.Traces

/-!
# ScxSlam.Workload.Output

What `dependent_workload` prints and writes to its trace file behind the
`break` of its loop, as text.

The workers' threads read the clock when they enroll and when they leave; these
readings, the thread ids and the numbers of the classes come from outside.
-/

namespace ScxSlam.Workload

open DependentGraph (Lane)
open Fields (word decimals)
open Python (Text)

/-! ## the launch -/

/-- The command line; hints and the FIFO policy exclude each other. -/
structure Launch where
  options : Options
  fifo : Bool
  cpu : Nat
  housekeeping : Nat
  exclusive : options.hinted = true → fifo = false

/-- What is read around the loop. -/
structure Readings where
  enrollmentBegin : Role → Nat
  enrollmentEnd : Role → Nat
  drained : Nat
  shutdownBegin : Role → Nat
  shutdownEnd : Role → Nat
  tid : Role → Nat
  /-- the values of `FRESH_CLASS_*` -/
  code : ServiceClass → Nat

/-- The names `main` gives its workers. -/
def Role.text : Role → Text
  | .imu => "imu_processing".toList
  | .camera => "camera_processing".toList
  | .estimator => "estimator".toList
  | .control => "control".toList
  | .mapping => "mapping".toList
  | .hog0 => "hog0".toList
  | .hog1 => "hog1".toList

namespace Launch

variable (L : Launch) (r : Role)

/-- The last argument of the worker's constructor. -/
def fifoOf : Bool :=
  match r with
  | .imu | .camera | .estimator | .control => L.fifo
  | _ => false

/-- `enrolled`. -/
def enrolled : Bool :=
  L.options.hinted || L.fifoOf r && decide ((L.options.pool.get r).cls ≠ .background)

/-- `actual_policy`. -/
def policy : Nat := if L.enrolled r then if L.fifoOf r then 1 else 7 else 0

/-- `actual_priority`. -/
def priority : Nat :=
  if L.enrolled r ∧ L.fifoOf r then
    if (L.options.pool.get r).cls = .urgent then 70
    else if (L.options.pool.get r).stage = 0 then 60 else 50
  else 0

end Launch

/-! ## lines -/

namespace State

variable (s : State) (L : Launch) (R : Readings) (r : Role) (i : Lane)

def profileFields : List (Text × Text) :=
  [("profile".toList, "dependent-v1".toList)] ++
    decimals [("synthetic", 1), ("duration_s", L.options.seconds),
      ("hints", L.options.hinted.toNat), ("worker_cpu", L.cpu),
      ("housekeeping_cpu", L.housekeeping)] ++
    [("policy".toList, if L.options.hinted then "hinted".toList
      else if L.fifo then "fifo".toList else "ordinary".toList),
     ("scenario".toList, match L.options.scenario with
      | .nominal => "nominal".toList
      | .estimatorBurst => "estimator-burst".toList)] ++
    decimals [("hogs", L.options.hogCount), ("queue_capacity", 32), ("batch_limit", 8),
      ("imu_period_us", 5000), ("camera_period_us", 50000), ("control_period_us", 10000),
      ("max_imu_age_us", 20000)]

def windowFields : List (String × Nat) :=
  [("measurement_window_ns", s.finish - s.begin), ("begin_ns", s.begin), ("end_ns", s.finish),
    ("drain_ns", R.drained - s.finish)]

/-- The fields behind the name. -/
def lifecycleFields : List (String × Nat) :=
  [("enrollment_begin_ns", if L.enrolled r then R.enrollmentBegin r else 0),
    ("tid", R.tid r % 2 ^ 32), ("class", R.code (s.worker r).cls), ("policy", L.policy r),
    ("priority", L.priority r),
    ("enrollment_end_ns", if L.enrolled r then R.enrollmentEnd r else 0),
    ("shutdown_begin_ns", R.shutdownBegin r), ("shutdown_end_ns", R.shutdownEnd r)]

def workerFields : List (String × Nat) :=
  [("offered", (s.worker r).offered), ("completed", (s.worker r).completed),
    ("dropped", (s.worker r).dropped), ("late", (s.worker r).late),
    ("pending", (s.worker r).queue.length), ("in_flight", (s.worker r).busy.toNat),
    ("cpu_us", (s.worker r).cpuTime / 1000), ("max_start_us", (s.worker r).maxStart / 1000),
    ("max_age_us", (s.worker r).maxAge / 1000)]

def streamName : Lane → Text
  | .imu => "imu".toList
  | .camera => "camera".toList

def streamFields : List (String × Nat) :=
  let c := s.session.graph.accounting.get i
  [("offered", c.offered), ("consumed", c.consumed), ("dropped", c.dropped),
    ("pending", (s.session.graph.inbox.get i).length),
    ("in_flight", s.session.graph.inFlight i.stream)]

def controlFields : List (String × Nat) :=
  [("usable", s.usable), ("stale", s.stale), ("missing", s.missing)]

def burstFields : List (String × Nat) :=
  [("job", s.burstJob), ("camera_sequence", 11), ("extra_work_ns", 80 * ms),
    ("estimator_budget_ns", 4 * ms)]

def controlAgeFields : List (String × Nat) :=
  [("samples", s.controlAge.samples), ("p99_us", s.controlAge.p99Us),
    ("max_us", s.controlAge.maxUs)]

/-- The words of what is printed, line by line. -/
def outputWords : List (List Text) :=
  [(profileFields L).map word, (decimals (s.windowFields R)).map word] ++
    L.options.workers.map (fun r => "lifecycle".toList ::
      (("worker".toList, r.text) :: decimals (s.lifecycleFields L R r)).map word) ++
    L.options.workers.map (fun r =>
      (("worker".toList, r.text) :: decimals (s.workerFields r)).map word) ++
    [Lane.imu, Lane.camera].map (fun i =>
      (("stream".toList, streamName i) :: decimals (s.streamFields i)).map word) ++
    ["control".toList :: (decimals s.controlFields).map word] ++
    (if L.options.scenario = .estimatorBurst then
      ["burst".toList :: (decimals s.burstFields).map word] else []) ++
    ["control_age".toList :: (decimals s.controlAgeFields).map word]

/-- What is printed. -/
def output : Text := Python.unlines ((s.outputWords L R).map Python.unwords)

/-! ## the trace file -/

def traceColumns : List Text :=
  ["worker".toList, "job".toList, "release_ns".toList, "assigned_ns".toList, "start_ns".toList,
    "end_ns".toList, "observed_ns".toList, "deadline_ns".toList, "cpu_ns".toList,
    "work_ns".toList, "budget_ns".toList, "control_outcome".toList]

def traceFields (row : Trace) : List Text :=
  [r.text, Extract.decimal row.id, Extract.decimal row.release, Extract.decimal row.assigned,
    Extract.decimal row.start, Extract.decimal row.finish, Extract.decimal row.observed,
    Extract.decimal row.deadline, Extract.decimal row.cpu, Extract.decimal row.work,
    Extract.decimal row.budget, Python.shown row.outcome]

/-- The trace file. -/
def traceText (o : Options) : Text :=
  Csv.printed (traceColumns ::
    o.workers.flatMap fun r => (s.worker r).traces.map (traceFields r))

end State

end ScxSlam.Workload
