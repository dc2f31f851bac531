import ScxSlam.PipelineDemo.CpuWindow
import ScxSlam.PipelineDemo.Network

/-!
# ScxSlam.PipelineDemo.Demo

A whole run of `slam_pipeline_demo`: `main`, the two sensor generators, the IMU
thread, the five stages with the CPU time of their jobs, and the hogs.

A compute call is given by what it reads: two readings of the wall clock
around the first one of its CPU clock, and then its samples.  `fresh_class`
numbers, thread identities and the scheduling policy belong to the
environment, and so does the work of the two LiDAR stages, which the program
computes in floating point.
-/

namespace ScxSlam.PipelineDemo

/-! ## configuration -/

/-- `--lidar`. -/
inductive LidarMode
  | off
  | light
  | mid
  | heavy
  deriving DecidableEq, Repr

/-- `lidar_points_for_mode`. -/
def LidarMode.points : LidarMode → Nat
  | .off => 0
  | .light => 50000
  | .mid => 150000
  | .heavy => 300000

/-- `--lidar-pre-class`. -/
inductive LidarPreClass
  | fe
  | be
  deriving DecidableEq, Repr

def cameraPeriodNs : Nat := 33000000

def lidarPeriodNs : Nat := 100000000

/-- `(uint64_t)(1e9 / imu_hz)`. -/
def imuPeriodNs : Nat := 5000000

/-- The first period boundary at or after a time. -/
def ceilDiv (ns period : Nat) : Nat := (ns + period - 1) / period

/-- The command line that `main` accepts. -/
structure Config where
  windowStats : Bool := false
  durationS : Nat := 10
  lidar : LidarMode := .off
  dropStale : Bool := false
  hogN : Nat := 1
  imuWorkUs : Nat := 150
  cameraBurstCount : Nat := 0
  cameraBurstAtMs : Nat := 3000
  visionBudgetUs : Nat := 12000
  visionWorkUs : Nat := 0
  visionDeadlineUs : Nat := 33000
  lidarPreBudgetUs : Nat := 10000
  lidarPreClass : LidarPreClass := .fe
  duration_pos : 0 < durationS := by decide
  imuWork_fits : imuWorkUs * 1000 < Word.size 64 := by decide
  visionBudget_fits : visionBudgetUs * 1000 < Word.size 64 := by decide
  visionDeadline_fits : visionDeadlineUs * 1000 < Word.size 64 := by decide
  lidarPreBudget_fits : lidarPreBudgetUs * 1000 < Word.size 64 := by decide
  burst_fits : 0 < cameraBurstCount →
    ceilDiv (cameraBurstAtMs * 1000000) cameraPeriodNs <
      ceilDiv (durationS * 1000000000) cameraPeriodNs ∧
    cameraBurstCount ≤ ceilDiv (cameraBurstAtMs * 1000000) cameraPeriodNs + 1 := by decide

/-- What the program finds on its machine.  `fd` is the descriptor of the hint
map, negative without hints; the threads exit unless `policy` is the one that
was asked for. -/
structure Env where
  fd : Int
  urgent : Nat
  deadline : Nat
  background : Nat
  policy : Nat
  selfImu : Nat
  self : Node → Nat
  selfImu_pos : 0 < selfImu
  self_pos : ∀ n, 0 < self n
  lidarPreUs : Nat
  lidarRegUs : Nat

namespace Config

variable (env : Env) (c : Config)

/-- `camera_burst_delivery_index`. -/
def burstDeliveryIndex : Nat := ceilDiv (c.cameraBurstAtMs * 1000000) cameraPeriodNs

/-- `camera_frame_count`. -/
def cameraFrameCount : Nat := ceilDiv (c.durationS * 1000000000) cameraPeriodNs

def lidarPreClassId : Nat :=
  match c.lidarPreClass with
  | .fe => env.deadline
  | .be => env.background

/-- `cfg_imu`. -/
def cfgImu : StageCfg where
  stageId := 0
  classId := env.urgent
  deadlineRelNs := 5000000
  staleNs := 10000000
  budgetNs := 300000
  sliceNs := 0
  weight := 0

/-- `cfg_vis` to `cfg_map`. -/
def cfg : Node → StageCfg
  | .vis => {
      stageId := 1
      classId := env.deadline
      deadlineRelNs := c.visionDeadlineUs * 1000
      staleNs := 66000000
      budgetNs := c.visionBudgetUs * 1000
      sliceNs := 0
      weight := 0 }
  | .est => {
      stageId := 2
      classId := env.deadline
      deadlineRelNs := 33000000
      staleNs := 66000000
      budgetNs := 12000000
      sliceNs := 0
      weight := 0 }
  | .lpre => {
      stageId := 5
      classId := c.lidarPreClassId env
      deadlineRelNs := 100000000
      staleNs := 150000000
      budgetNs := c.lidarPreBudgetUs * 1000
      sliceNs := 0
      weight := 0 }
  | .lreg => {
      stageId := 6
      classId := env.background
      deadlineRelNs := 200000000
      staleNs := 250000000
      budgetNs := 0
      sliceNs := 0
      weight := 0 }
  | .map => {
      stageId := 3
      classId := env.background
      deadlineRelNs := 400000000
      staleNs := 800000000
      budgetNs := 0
      sliceNs := 0
      weight := 0 }

/-- The `compute_us_fn` of a stage. -/
def computeUs (n : Node) (w : WorkItem) : Nat :=
  match n with
  | .vis => if c.visionWorkUs ≠ 0 then c.visionWorkUs else 3000 + w.seq % 5 * 500
  | .est => 2000 + w.seq % 5 * 500
  | .lpre => env.lidarPreUs
  | .lreg => env.lidarRegUs
  | .map => 1000 + w.seq % 5 * 500

def setup : Setup where
  fd := env.fd
  cfg := c.cfg env
  dropStale := c.dropStale
  self := env.self
  self_pos := env.self_pos

/-- A stage has a thread. -/
def active (n : Node) : Bool := (n ≠ .lpre ∧ n ≠ .lreg) ∨ c.lidar.points ≠ 0

end Config

/-! ## state -/

/-- A finished compute call. -/
structure Call where
  us : Nat
  first : Nat × Nat
  readings : List Sample
  elapsed : Nat
  deriving DecidableEq, Repr

/-- The CPU counters of a thread, and its compute calls. -/
structure Meter where
  stats : CpuStats := {}
  calls : List Call := []
  deriving DecidableEq, Repr

/-- `cam_gen`: the index of the next frame, the frames it holds back, and what
is left of its loop over `held_burst`, or the frame it is about to push. -/
structure CameraGen where
  frame : Nat := 0
  held : List WorkItem := []
  sending : List WorkItem := []
  generated : Nat := 0
  deriving DecidableEq, Repr

/-- `lidar_gen`. -/
structure LidarGen where
  scan : Nat := 0
  generated : Nat := 0
  deriving DecidableEq, Repr

/-- Where `imu_thread` is: job `seq` is the one that is released at `next`. -/
inductive ImuPc
  | start
  | await
  | publish (seq next : Nat)
  | sleep (seq next : Nat)
  | compute (seq next : Nat)
  | exited
  deriving DecidableEq, Repr

structure ImuThread where
  pc : ImuPc := .start
  pidTgid : Nat := 0
  actualPolicy : Option Nat := none
  stats : StageStats := {}
  meter : Meter := {}
  deriving DecidableEq, Repr

/-- Where a `hog_thread` is. -/
inductive HogPc
  /-- at `running->load()` -/
  | loop
  | busy
  | exited
  deriving DecidableEq, Repr

/-- Where `main` is. -/
inductive MainPc
  /-- the threads are started, the generators are not -/
  | launch
  | join
  | sleep
  | halt
  | stop (rest : List Node)
  | reap
  | done (finishedNs : Nat)
  deriving DecidableEq, Repr

/-- A run. -/
structure Demo where
  net : Net
  main : MainPc := .launch
  workloadStart : Nat := 0
  camera : CameraGen := {}
  lidar : LidarGen := {}
  imu : ImuThread := {}
  meter : Node → Meter := fun _ => {}
  hogs : List HogPc := []

inductive Demo.Action
  | tick (d : Nat)
  | main
  | camera
  | lidar
  | imu (first : Nat × Nat) (readings : List Sample)
  | work (n : Node) (first : Nat × Nat) (readings : List Sample)
  | hog (i : Nat) (readings : List Nat)
  deriving DecidableEq, Repr

/-! ## steps -/

/-- A compute call; `none` while its loop goes on. -/
def Meter.measure (m : Meter) (cutoff us : Nat) (first : Nat × Nat) (readings : List Sample) :
    Option Meter :=
  (measuredWorkUs cutoff us m.stats.window first readings).map fun (elapsed, window) =>
    { stats := { cpuNs := m.stats.cpuNs + elapsed, window := window }
      calls := m.calls ++ [⟨us, first, readings, elapsed⟩] }

namespace Demo

variable (env : Env) (c : Config) (s : Demo)

/-- Before the threads run. -/
def initial : Demo where
  net := Net.initial (c.setup env)
  hogs := List.replicate c.hogN .loop

def workloadEnd : Nat := s.workloadStart + c.durationS * 1000000000

/-- The generators are running, or were. -/
def launched : Bool := s.main ≠ .launch

/-- A frame joins the burst. -/
def inBurst (frame : Nat) : Bool :=
  0 < c.cameraBurstCount ∧ c.burstDeliveryIndex + 1 - c.cameraBurstCount ≤ frame ∧
    frame ≤ c.burstDeliveryIndex

/-- `release` of a frame. -/
def cameraRelease (frame : Nat) : Nat := s.workloadStart + frame * cameraPeriodNs

def lidarRelease (scan : Nat) : Nat := s.workloadStart + scan * lidarPeriodNs

/-- The body of the camera's loop, up to its pushes. -/
def nextFrame : CameraGen :=
  let g := s.camera
  let w : WorkItem := {
    seq := g.frame + 1
    tsNs := s.cameraRelease g.frame
    burstId := (inBurst c g.frame).toNat }
  if inBurst c g.frame then
    if g.frame = c.burstDeliveryIndex then
      { g with frame := g.frame + 1, held := [], sending := g.held ++ [w] }
    else { g with frame := g.frame + 1, held := g.held ++ [w] }
  else { g with frame := g.frame + 1, sending := [w] }

/-- The camera generator: its next push, or the next frame. -/
def stepCamera : Option Demo :=
  match s.camera.sending with
  | v :: rest => some { s with
      net := s.net.push (c.setup env) .vis v
      camera := { s.camera with sending := rest, generated := s.camera.generated + 1 } }
  | [] =>
      if s.cameraRelease s.camera.frame < s.workloadEnd c ∧
          s.cameraRelease s.camera.frame ≤ s.net.now then
        some { s with camera := s.nextFrame c }
      else none

/-- `cam_gen` has returned. -/
def cameraDone : Bool := s.camera.sending = [] ∧ s.workloadEnd c ≤ s.cameraRelease s.camera.frame

def stepLidar : Option Demo :=
  let release := s.lidarRelease s.lidar.scan
  if c.lidar.points ≠ 0 ∧ release < s.workloadEnd c ∧ release ≤ s.net.now then
    some { s with
      net := s.net.push (c.setup env) .lpre { seq := s.lidar.scan + 1, tsNs := release }
      lidar := { scan := s.lidar.scan + 1, generated := s.lidar.generated + 1 } }
  else none

/-- `lidar_gen` has returned. -/
def lidarDone : Bool := c.lidar.points = 0 ∨ s.workloadEnd c ≤ s.lidarRelease s.lidar.scan

/-- What `imu_thread` publishes before it sleeps. -/
def imuHint (seq next : Nat) : List Publication :=
  if env.fd < 0 then []
  else [(env.selfImu, hintOf (Config.cfgImu env) { seq := seq, tsNs := next })]

/-- The counters between the first clock reading and the compute. -/
def imuStartStats (next : Nat) : StageStats :=
  let inside := insideWindow s.net.metricsEndNs s.net.now
  let stale := decide (next < s.net.now) &&
    decide ((Config.cfgImu env).staleNs < s.net.now - next)
  let stats := s.imu.stats
  { stats with
    staleSeen := stats.staleSeen + stale.toNat
    window := { stats.window with
      started := stats.window.started + inside.toNat
      staleSeen := stats.window.staleSeen + (inside && stale).toNat } }

/-- The counters after the second clock reading. -/
def imuFinishStats (next : Nat) : StageStats :=
  let inside := insideWindow s.net.metricsEndNs s.net.now
  let late := decide (next + (Config.cfgImu env).deadlineRelNs < s.net.now)
  let stats := s.imu.stats
  { stats with
    processed := stats.processed + 1
    late := stats.late + late.toNat
    window := { stats.window with
      completed := stats.window.completed + inside.toNat
      late := stats.window.late + (inside && late).toNat } }

/-- `imu_thread`. -/
def stepImu (first : Nat × Nat) (readings : List Sample) : Option Demo :=
  match s.imu.pc with
  | .start => some { s with imu := { s.imu with
      pc := .await, pidTgid := env.selfImu, actualPolicy := some env.policy } }
  | .await =>
      if s.workloadStart = 0 then none
      else some { s with imu := { s.imu with pc := .publish 1 s.workloadStart } }
  | .publish seq next =>
      if next < s.workloadEnd c then
        some { s with
          net := { s.net with published := s.net.published ++ imuHint env seq next }
          imu := { s.imu with pc := .sleep seq next } }
      else some { s with imu := { s.imu with pc := .exited } }
  | .sleep seq next =>
      if next ≤ s.net.now then
        some { s with imu := { s.imu with
          pc := .compute seq next, stats := s.imuStartStats env next } }
      else none
  | .compute seq next =>
      (s.imu.meter.measure s.net.metricsEndNs c.imuWorkUs first readings).map fun meter =>
        { s with imu := { s.imu with
          pc := .publish (seq + 1) (next + imuPeriodNs)
          stats := s.imuFinishStats env next
          meter := meter } }
  | .exited => none

/-- A `stage_worker`, with the compute call that comes before its second clock
reading. -/
def stepWork (n : Node) (first : Nat × Nat) (readings : List Sample) : Option Demo :=
  if c.active n = false then none
  else match (s.net.line n).stage.worker with
    | .compute w =>
        if c.computeUs env n w = 0 then (s.net.work (c.setup env) n).map fun net => { s with net }
        else do
          let meter ← (s.meter n).measure s.net.metricsEndNs (c.computeUs env n w) first readings
          let net ← s.net.work (c.setup env) n
          return { s with net := net, meter := Function.update s.meter n meter }
    | _ => (s.net.work (c.setup env) n).map fun net => { s with net }

/-- `hog_thread`; the readings of its CPU clock are relative to its first one. -/
def stepHog (i : Nat) (readings : List Nat) : Option Demo :=
  match s.hogs[i]? with
  | some .loop =>
      some { s with hogs := s.hogs.set i (if s.net.running then .busy else .exited) }
  | some .busy =>
      if busyWorkUs 20000 0 readings = some [] then some { s with hogs := s.hogs.set i .loop }
      else none
  | some .exited | none => none

/-- A worker has returned, or was never started. -/
def joined (n : Node) : Bool :=
  match (s.net.line n).stage.worker with
  | .exited _ => true
  | _ => !c.active n

/-- `main`, from the start of the generators on. -/
def stepMain : Option Demo :=
  match s.main with
  | .launch =>
      let workloadStart := s.net.now + 100000000
      some { s with
        net := { s.net with metricsEndNs :=
          if c.windowStats then workloadStart + c.durationS * 1000000000 else s.net.metricsEndNs }
        main := .join
        workloadStart := workloadStart }
  | .join =>
      if s.cameraDone c ∧ s.lidarDone c ∧ s.imu.pc = .exited then some { s with main := .sleep }
      else none
  | .sleep =>
      if c.windowStats = true ∧ s.net.now < s.workloadEnd c then none
      else some { s with main := .halt }
  | .halt => some { s with
      net := { s.net with running := false }, main := .stop [.vis, .est, .lpre, .lreg, .map] }
  | .stop (n :: rest) => some { s with
      net := { s.net with line := Function.update s.net.line n (s.net.line n).stop }
      main := .stop rest }
  | .stop [] => some { s with main := .reap }
  | .reap =>
      if ([.vis, .est, .lpre, .lreg, .map] : List Node).all (s.joined c) ∧
          s.hogs.all (· = .exited) then
        some { s with main := .done s.net.now }
      else none
  | .done _ => none

/-- One step; `none` where the action is not possible. -/
def step : Action → Option Demo
  | .tick d => some { s with net := { s.net with now := s.net.now + d } }
  | .main => s.stepMain c
  | .camera => if s.launched then s.stepCamera env c else none
  | .lidar => if s.launched then s.stepLidar env c else none
  | .imu first readings => s.stepImu env c first readings
  | .work n first readings => s.stepWork env c n first readings
  | .hog i readings => s.stepHog i readings

/-! ## what a step does -/

variable {env c s} {s' : Demo}

theorem stepCamera_cases (h : s.stepCamera env c = some s') :
    (∃ v rest, s.camera.sending = v :: rest ∧ s' = { s with
      net := s.net.push (c.setup env) .vis v
      camera := { s.camera with sending := rest, generated := s.camera.generated + 1 } }) ∨
    (s.camera.sending = [] ∧ s.cameraRelease s.camera.frame < s.workloadEnd c ∧
      s.cameraRelease s.camera.frame ≤ s.net.now ∧ s' = { s with camera := s.nextFrame c }) := by
  unfold stepCamera at h
  split at h
  · next v rest hsending =>
    cases h
    exact .inl ⟨v, rest, hsending, rfl⟩
  · next hsending =>
    obtain ⟨⟨hlt, hle⟩, hs⟩ := Option.ite_none_right_eq_some.mp h
    cases hs
    exact .inr ⟨hsending, hlt, hle, rfl⟩

/-- The step of a stage's thread is its step in the network; where it computes
for a time, it is a compute call as well. -/
theorem stepWork_cases {n : Node} {first : Nat × Nat} {readings : List Sample}
    (h : s.stepWork env c n first readings = some s') :
    c.active n = true ∧ ∃ net, s.net.work (c.setup env) n = some net ∧
      (s' = { s with net := net } ∨
        ∃ w meter, (s.net.line n).stage.worker = .compute w ∧
          (s.meter n).measure s.net.metricsEndNs (c.computeUs env n w) first readings = some meter ∧
          s' = { s with net := net, meter := Function.update s.meter n meter }) := by
  unfold stepWork at h
  split at h
  · contradiction
  · next hactive =>
    refine ⟨by simpa using hactive, ?_⟩
    split at h
    · next w hworker =>
      split at h
      · obtain ⟨net, hnet, rfl⟩ := Option.map_eq_some_iff.mp h
        exact ⟨net, hnet, .inl rfl⟩
      · obtain ⟨meter, hmeter, h⟩ := Option.bind_eq_some_iff.mp h
        obtain ⟨net, hnet, h⟩ := Option.bind_eq_some_iff.mp h
        cases h
        exact ⟨net, hnet, .inr ⟨w, meter, hworker, hmeter, rfl⟩⟩
    · obtain ⟨net, hnet, rfl⟩ := Option.map_eq_some_iff.mp h
      exact ⟨net, hnet, .inl rfl⟩

theorem stepLidar_cases (h : s.stepLidar env c = some s') :
    s.lidarRelease s.lidar.scan < s.workloadEnd c ∧ s.lidarRelease s.lidar.scan ≤ s.net.now ∧
      s' = { s with
        net := s.net.push (c.setup env) .lpre
          { seq := s.lidar.scan + 1, tsNs := s.lidarRelease s.lidar.scan }
        lidar := { scan := s.lidar.scan + 1, generated := s.lidar.generated + 1 } } := by
  obtain ⟨⟨-, hlt, hle⟩, hs⟩ := Option.ite_none_right_eq_some.mp h
  cases hs
  exact ⟨hlt, hle, rfl⟩

/-- A hog has a hand in nothing else. -/
theorem stepHog_hogs {i : Nat} {readings : List Nat} (h : s.stepHog i readings = some s') :
    ∃ pc, s' = { s with hogs := s.hogs.set i pc } := by
  unfold stepHog at h
  split at h
  case h_1 =>
      cases h
      exact ⟨_, rfl⟩
  case h_2 =>
      obtain ⟨-, hs⟩ := Option.ite_none_right_eq_some.mp h
      cases hs
      exact ⟨_, rfl⟩
  all_goals contradiction

/-- The IMU thread leaves the stages and the clock alone. -/
theorem stepImu_net {first : Nat × Nat} {readings : List Sample}
    (h : s.stepImu env c first readings = some s') :
    ∃ published imu, s' = { s with net := { s.net with published := published }, imu := imu } := by
  unfold stepImu at h
  split at h
  case h_1 =>
      cases h
      exact ⟨_, _, rfl⟩
  case h_2 =>
      obtain ⟨-, hs⟩ := Option.ite_none_left_eq_some.mp h
      cases hs
      exact ⟨_, _, rfl⟩
  case h_3 =>
      split at h <;> cases h <;> exact ⟨_, _, rfl⟩
  case h_4 =>
      obtain ⟨-, hs⟩ := Option.ite_none_right_eq_some.mp h
      cases hs
      exact ⟨_, _, rfl⟩
  case h_5 =>
      obtain ⟨meter, -, rfl⟩ := Option.map_eq_some_iff.mp h
      exact ⟨_, _, rfl⟩
  case h_6 => contradiction

end Demo

end ScxSlam.PipelineDemo
