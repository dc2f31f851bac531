import ScxSlam.DependentGraph.History
import ScxSlam.Workload.Worker

/-!
# ScxSlam.Workload.Loop

The dispatch loop of `dependent_workload`'s `main`, with the threads of its
workers running beside it.

The loop is cut at its clock readings and at its calls of completion
functions, so that any thread can act and any time can pass between two of
them; what lies between touches nothing a thread sees.  The completion
functions are the lambdas `main` builds, each a constructor of `Closure` with
what it captures.  A call that throws, or an optional read while empty, ends
the loop in `failed`.  `main` publishes no hint that fails here.

Times are `uint64_t` and are naturals here: a monotonic clock counts in a
signed word, and no sum of a reading with what the loop adds to it reaches
`2^64`.
-/

namespace ScxSlam.Workload

open DependentGraph (Stream Measurement Batch Snapshot Control Session Graph)

/-! ## data -/

/-- `ms`. -/
def ms : Nat := 1000000

/-- The signed word a clock reading fits in. -/
def clockLimit : Nat := 2 ^ 63

/-- The workers, by the names `main` gives them. -/
inductive Role
  | imu
  | camera
  | estimator
  | control
  | mapping
  | hog0
  | hog1
  deriving DecidableEq, Repr

/-- One value for each worker. -/
structure Pool (α : Type) where
  imu : α
  camera : α
  estimator : α
  control : α
  mapping : α
  hog0 : α
  hog1 : α
  deriving DecidableEq, Repr

namespace Pool

variable {α : Type}

def get (p : Pool α) : Role → α
  | .imu => p.imu
  | .camera => p.camera
  | .estimator => p.estimator
  | .control => p.control
  | .mapping => p.mapping
  | .hog0 => p.hog0
  | .hog1 => p.hog1

def set (p : Pool α) (r : Role) (v : α) : Pool α :=
  match r with
  | .imu => { p with imu := v }
  | .camera => { p with camera := v }
  | .estimator => { p with estimator := v }
  | .control => { p with control := v }
  | .mapping => { p with mapping := v }
  | .hog0 => { p with hog0 := v }
  | .hog1 => { p with hog1 := v }

@[simp] theorem get_set_self (p : Pool α) (r : Role) (v : α) : (p.set r v).get r = v := by
  cases r <;> rfl

theorem get_set_of_ne (p : Pool α) {r q : Role} (v : α) (h : q ≠ r) :
    (p.set r v).get q = p.get q := by
  cases r <;> cases q <;> first | rfl | contradiction

end Pool

inductive Scenario
  | nominal
  | estimatorBurst
  deriving DecidableEq, Repr

/-- What the command line admits, and whether it asks for hints and a trace. -/
structure Options where
  seconds : Nat
  hogCount : Nat
  scenario : Scenario
  hinted : Bool := false
  tracing : Bool := false
  seconds_pos : 1 ≤ seconds := by decide
  seconds_le : seconds ≤ 60 := by decide
  hogs_le : hogCount ≤ 2 := by decide
  deriving DecidableEq, Repr

/-- `hogs`. -/
def Options.hogs (o : Options) : List Role := [Role.hog0, Role.hog1].take o.hogCount

/-- `workers`. -/
def Options.workers (o : Options) : List Role :=
  [Role.imu, Role.camera, Role.estimator, Role.control, Role.mapping] ++ o.hogs

/-- The completion functions. -/
inductive Closure
  | hog
  | offer (m : Measurement)
  | control (selection : Control)
  | estimator (batch : Batch)
  | mapping (snapshot : Snapshot)
  deriving DecidableEq, Repr

/-- A periodic source: its next release and its last id, and the releases it
has offered so far, which nothing reads. -/
structure Source where
  next : Nat
  id : Nat := 0
  releases : List Nat := []
  deriving DecidableEq, Repr

/-- Where `main` is in its loop. -/
inductive Pc
  /-- collecting, with these workers left -/
  | collect (todo : List Role)
  /-- calling a completion function of a worker, with these left -/
  | complete (r : Role) (c : Closure) (todo : List Role)
  | clock
  | hogs
  | imu
  | camera
  | control
  | estimator
  | dispatch (todo : List Role)
  | exit
  /-- behind the `break` -/
  | done
  | failed (what : String)
  deriving DecidableEq, Repr

/-- The variables of `main`.  The session is the graph with the calls made on
it so far, which nothing reads. -/
structure State where
  now : Nat
  pool : Pool (Worker Closure)
  session : Session
  begin : Nat
  finish : Nat
  imu : Source
  camera : Source
  control : Source
  usable : Nat := 0
  stale : Nat := 0
  missing : Nat := 0
  controlAges : List Nat := []
  burstJob : Nat := 0
  t : Nat := 0
  pc : Pc
  deriving DecidableEq, Repr

/-! ## the pieces of the loop -/

/-- The loop conditions of the three sources. -/
def Source.due (s : Source) (finish t : Nat) : Bool :=
  decide (s.next < finish) && decide (s.next ≤ t)

/-- The release at hand is offered and the next one is a period later. -/
def Source.tick (s : Source) (period : Nat) : Source where
  next := s.next + period
  id := s.id + 1
  releases := s.releases ++ [s.next]

/-- The batch has camera input. -/
def hasCamera (b : Batch) : Bool := b.inputs.any (·.stream = .camera)

namespace State

variable (s : State) (o : Options)

def goto (pc : Pc) : State := { s with pc := pc }

def worker (r : Role) : Worker Closure := s.pool.get r

/-- One worker's fields change. -/
def setWorker (r : Role) (W : Worker Closure) : State := { s with pool := s.pool.set r W }

/-- A call of `offer`, its result unused. -/
def offerTo (r : Role) (job : Job Closure) : State := s.setWorker r ((s.worker r).offer job)

/-- A call on the graph. -/
def call (c : DependentGraph.Call) : DependentGraph.Response × State :=
  let made := s.session.graph.call c
  (made.1, { s with session := s.session.after c made.1 made.2 })

/-- `w->collect()` for the first worker left. -/
def collectStep : List Role → State
  | [] => s.goto .clock
  | r :: todo =>
      match (s.worker r).collect s.now with
      | (W, none) => (s.setWorker r W).goto (.collect todo)
      | (W, some c) => (s.setWorker r W).goto (.complete r c todo)

/-- The job of a mapping update. -/
def mappingJob (snapshot : Snapshot) (m : Measurement) : Job Closure where
  id := snapshot.batchId
  release := m.sourceTime
  deadline := m.sourceTime + 100 * ms
  work := 2 * ms
  complete := .mapping snapshot

/-- The completion function of a control job. -/
def tally (selection : Control) : State :=
  let age := match selection.snapshot.bind Snapshot.imu with
    | none => []
    | some m => [Graph.age selection.release m]
  { s with
    usable := s.usable + (decide (selection.outcome = .usable)).toNat
    stale := s.stale + (decide (selection.outcome = .stale)).toNat
    missing := s.missing + (decide (selection.outcome = .missing)).toNat
    controlAges := s.controlAges ++ age }

/-- `done->job.complete(done->end)`. -/
def completeStep (c : Closure) (todo : List Role) : State :=
  match c with
  | .hog | .mapping _ => s.goto (.collect todo)
  | .offer m =>
      match s.call (.offer m s.now) with
      | (.threw what, s) => s.goto (.failed what)
      | (_, s) => s.goto (.collect todo)
  | .control selection => (s.tally selection).goto (.collect todo)
  | .estimator batch =>
      match s.call (.complete batch.id s.now) with
      | (.threw what, s) => s.goto (.failed what)
      | (.completed snapshot, s) =>
          if hasCamera batch then
            match snapshot.camera with
            | none => s.goto (.failed "empty optional")
            | some m => (s.offerTo .mapping (mappingJob snapshot m)).goto (.collect todo)
          else s.goto (.collect todo)
      | (_, s) => s.goto (.collect todo)

/-- The job of a hog. -/
def hogJob (id : Nat) : Job Closure where
  id := id
  release := s.t
  deadline := s.t + 100 * ms
  work := ms
  complete := .hog

/-- An idle hog gets a job. -/
def offerHog (r : Role) : State :=
  if (s.worker r).busy = false ∧ (s.worker r).queue = [] then
    s.offerTo r (s.hogJob ((s.worker r).offered + 1))
  else s

def hogsStep : State :=
  (if s.begin ≤ s.t ∧ s.t < s.finish then o.hogs.foldl offerHog s else s).goto .imu

/-- The job of a sensor measurement. -/
def sensorJob (m : Measurement) (relative work : Nat) : Job Closure where
  id := m.sequence
  release := m.sourceTime
  deadline := m.sourceTime + relative
  work := work
  complete := .offer m

def imuStep : State :=
  if s.imu.due s.finish s.t then
    let m : Measurement := { stream := .imu, sequence := s.imu.id + 1, sourceTime := s.imu.next }
    { s.offerTo .imu (sensorJob m (5 * ms) 150000) with imu := s.imu.tick (5 * ms) }
  else s.goto .camera

def cameraStep : State :=
  if s.camera.due s.finish s.t then
    let m : Measurement :=
      { stream := .camera, sequence := s.camera.id + 1, sourceTime := s.camera.next }
    { s.offerTo .camera (sensorJob m (33 * ms) (4 * ms)) with camera := s.camera.tick (50 * ms) }
  else s.goto .control

/-- `static_cast<int>(selection.outcome)`. -/
def outcomeCode : DependentGraph.Outcome → Int
  | .usable => 0
  | .stale => 1
  | .missing => 2

def controlJob (id release : Nat) (selection : Control) : Job Closure where
  id := id
  release := release
  deadline := release + 10 * ms
  work := 200000
  complete := .control selection
  outcome := outcomeCode selection.outcome

/-- `++control.offered; ++control.dropped`. -/
def skipControl : State :=
  let W := s.worker .control
  s.setWorker .control { W with offered := W.offered + 1, dropped := W.dropped + 1 }

def controlStep : State :=
  if s.control.due s.finish s.t then
    if (s.worker .control).pending then
      { s.skipControl with control := s.control.tick (10 * ms) }
    else
      let id := s.control.id + 1
      match s.call (.control s.now (id / 100) (20 * ms)) with
      | (.controlled selection, s) =>
          { s.offerTo .control (controlJob id s.control.next selection) with
            control := s.control.tick (10 * ms) }
      | (.threw what, s) => s.goto (.failed what)
      | (_, s) => s
  else s.goto .estimator

/-- A burst meets the camera frame it is about. -/
def bursts (b : Batch) : Bool :=
  decide (o.scenario = .estimatorBurst) &&
    b.inputs.any fun m => decide (m.stream = .camera ∧ m.sequence = 11)

/-- The synthetic cost of a batch. -/
def cost (b : Batch) : Nat :=
  300000 + (b.inputs.map fun m => if m.stream = .imu then 100000 else 2 * ms).sum +
    if bursts o b then 80 * ms else 0

def estimatorJob (b : Batch) (release : Nat) : Job Closure where
  id := b.id
  release := release
  deadline := release + 33 * ms
  work := cost o b
  complete := .estimator b
  budget := if o.scenario = .estimatorBurst then 4 * ms else 0

def estimatorStep : State :=
  if (s.worker .estimator).pending then s.goto (.dispatch o.workers)
  else
    match s.call (.select s.now) with
    | (.threw what, s) => s.goto (.failed what)
    | (.selected (some b), s) =>
        match b.inputs with
        | [] => s.goto (.failed "front of an empty vector")
        | m :: _ =>
            let s := { s with burstJob := if bursts o b then b.id else s.burstJob }
            (s.offerTo .estimator (estimatorJob o b m.sourceTime)).goto (.dispatch o.workers)
    | (_, s) => s.goto (.dispatch o.workers)

def dispatchStep : List Role → State
  | [] => s.goto .exit
  | r :: todo => (s.setWorker r ((s.worker r).dispatch s.now)).goto (.dispatch todo)

/-- `!graph.pending(stream)`. -/
def drained (stream : Stream) : Bool :=
  match s.session.graph.pending stream with
  | .ok n => n == 0
  | .error _ => false

def exitStep : State :=
  let pending := o.workers.any fun r => (s.worker r).pending
  if s.finish ≤ s.t ∧ pending = false ∧ s.drained .imu = true ∧
      s.drained .camera = true then
    s.goto .done
  else s.goto (.collect o.workers)

/-- The dispatcher's next step; `none` once it has left the loop. -/
def mainStep : Option State :=
  match s.pc with
  | .collect todo => some (s.collectStep todo)
  | .complete _ c todo => some (s.completeStep c todo)
  | .clock => some ({ s with t := s.now }.goto .hogs)
  | .hogs => some (s.hogsStep o)
  | .imu => some s.imuStep
  | .camera => some s.cameraStep
  | .control => some s.controlStep
  | .estimator => some (s.estimatorStep o)
  | .dispatch todo => some (s.dispatchStep todo)
  | .exit => some (s.exitStep o)
  | .done | .failed _ => none

end State

/-! ## the system -/

inductive Action
  /-- the clock goes on -/
  | tick (d : Nat)
  /-- a worker's thread takes its next step; `cpu` is its CPU time at the end
  of a compute loop -/
  | thread (r : Role) (cpu : Nat)
  /-- the dispatcher takes its next step -/
  | main
  deriving DecidableEq, Repr

/-- One step; `none` where the action is not possible. -/
def step (o : Options) (s : State) : Action → Option State
  | .tick d => if s.now + d < clockLimit then some { s with now := s.now + d } else none
  | .thread r cpu => ((s.worker r).advance s.now cpu).map (s.setWorker r)
  | .main => s.mainStep o

/-- The workers `main` creates; one whose hog was not asked for is never used. -/
def Options.pool (o : Options) : Pool (Worker Closure) where
  imu := { cls := .deadline, stage := 0, hinted := o.hinted, tracing := o.tracing }
  camera := { cls := .deadline, stage := 1, hinted := o.hinted, tracing := o.tracing }
  estimator := { cls := .deadline, stage := 2, hinted := o.hinted, tracing := o.tracing }
  control := { cls := .urgent, stage := 3, hinted := o.hinted, tracing := o.tracing }
  mapping := { cls := .background, stage := 4, hinted := o.hinted, tracing := o.tracing }
  hog0 := { cls := .background, stage := 5, hinted := o.hinted, tracing := o.tracing }
  hog1 := { cls := .background, stage := 6, hinted := o.hinted, tracing := o.tracing }

/-- `main` at the top of its loop, with a clock that read `start` for `begin`
and `Graph graph(32,8)`. -/
def State.initial (o : Options) (start : Nat) : State where
  now := start
  pool := o.pool
  session := { graph := { capacity := 32, limit := 8 } }
  begin := start + 100 * ms
  finish := start + 100 * ms + o.seconds * 1000 * ms
  imu := { next := start + 100 * ms }
  camera := { next := start + 100 * ms }
  control := { next := start + 100 * ms }
  pc := .collect o.workers

end ScxSlam.Workload
