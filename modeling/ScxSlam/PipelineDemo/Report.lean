import ScxSlam.PipelineDemo.Accounting
import ScxSlam.PipelineDemo.Schedule

/-!
# ScxSlam.PipelineDemo.Report

The rows that `slam_pipeline_demo` prints when it is done: a name, and keys
with numbers.  Percentages and `reg_k` are fractions, which no reader of the
rows takes for a number, and are left out.

The differences of counters are `uint64_t` and are naturals here; none of them
wraps (`Honest`).
-/

namespace ScxSlam.PipelineDemo

/-! ## names -/

/-- The threads that are reported. -/
inductive StageName
  | imuProp
  | stage (n : Node)
  deriving DecidableEq, Repr

def StageName.text : StageName → String
  | .imuProp => "imu_prop"
  | .stage .vis => "vision_fe"
  | .stage .est => "state_est"
  | .stage .lpre => "lidar_pre"
  | .stage .lreg => "lidar_reg"
  | .stage .map => "mapping_be"

/-- What stands before the colon of a row. -/
inductive RowName
  | measurement
  | imuIdentity
  | window (p : StageName)
  | drain (p : StageName)
  | focus (n : Node)
  | generated
  | cameraBurst
  | configuration
  | stage (p : StageName)
  deriving DecidableEq, Repr

/-- What stands before an equals sign. -/
inductive Key
  | startNs | endNs | windowNs | elapsedNs | drainElapsedNs
  | pidTgid | policy | stageId
  | offered | completed | late | staleSeen | droppedStale | pending | inFlight
  | cpuUs | cpuNs | cpuUncertaintyNs
  | job | releaseNs | completionNs | ageNs
  | imu | camera | lidar
  | injected | firstSeq | latestSeq | deliveryMs
  | visionBudgetUs | visionWorkUs | visionDeadlineUs | imuWorkUs | lidarPreBudgetUs
  | lidarPreClassId
  | processed | dequeued | consumerDroppedStale | queueEvictedStale
  | burstProcessed | burstLatestSeq | burstLatestAgeUs | points | regJobUs
  deriving DecidableEq, Repr

/-- A printed row. -/
abbrev Row := RowName × List (Key × Nat)

/-! ## what is printed of a thread -/

/-- The row of the window. -/
def windowFields (stats : StageStats) (cpu : CpuStats) (queue : WindowQueueStats) :
    List (Key × Nat) :=
  let w := stats.window
  [(.offered, queue.offered),
    (.completed, w.completed),
    (.late, w.late),
    (.staleSeen, w.staleSeen + queue.evicted),
    (.droppedStale, w.droppedStale + queue.evicted),
    (.pending, queue.pending),
    (.inFlight, inflight queue w),
    (.cpuUs, cpu.window.cpuNs / 1000),
    (.cpuNs, cpu.window.cpuNs),
    (.cpuUncertaintyNs, cpu.window.cpuUncertaintyNs)]

/-- The row of what came after it. -/
def drainFields (stats : StageStats) (cpu : CpuStats) : List (Key × Nat) :=
  let w := stats.window
  [(.completed, stats.processed - w.completed),
    (.late, stats.late - w.late),
    (.cpuUs, (cpu.cpuNs - cpu.window.cpuNs) / 1000),
    (.cpuNs, cpu.cpuNs - cpu.window.cpuNs),
    (.cpuUncertaintyNs, cpu.window.cpuUncertaintyNs)]

/-- `print_window_stage`. -/
def printWindowStage (name : StageName) (stats : StageStats) (cpu : CpuStats)
    (queue : WindowQueueStats) : List Row :=
  [(.window name, windowFields stats cpu queue), (.drain name, drainFields stats cpu)]

def focusFields (stats : StageStats) (cfg : StageCfg) : List (Key × Nat) :=
  let ageNs := stats.focusCompletionNs - stats.focusReleaseNs
  let late := cfg.deadlineRelNs != 0 && decide (cfg.deadlineRelNs < ageNs)
  [(.job, stats.focusJob),
    (.releaseNs, stats.focusReleaseNs),
    (.completionNs, stats.focusCompletionNs),
    (.ageNs, ageNs),
    (.late, late.toNat)]

/-- `print_focus_job`. -/
def printFocusJob (n : Node) (stats : StageStats) (cfg : StageCfg) : List Row :=
  if stats.focusJob ≠ 4 ∨ stats.focusCompletionNs = 0 then []
  else [(.focus n, focusFields stats cfg)]

/-- The end of a stage's row. -/
def extraFields (env : Env) (c : Config) (n : Node) (stats : StageStats) : List (Key × Nat) :=
  match n with
  | .vis | .est => [
      (.burstProcessed, stats.burstProcessed),
      (.burstLatestSeq, stats.burstLatestSeq),
      (.burstLatestAgeUs, stats.burstLatestAgeNs / 1000)]
  | .lpre => [(.points, c.lidar.points)]
  | .lreg => [(.points, c.lidar.points), (.regJobUs, env.lidarRegUs)]
  | .map => []

/-- The row of a stage. -/
def stageFields (env : Env) (c : Config) (n : Node) (S : Stage) (cpu : CpuStats) :
    List (Key × Nat) :=
  [(.dequeued, S.stats.processed + S.stats.droppedStale),
    (.processed, S.stats.processed),
    (.late, S.stats.late),
    (.cpuUs, cpu.cpuNs / 1000),
    (.staleSeen, S.stats.staleSeen + S.queue.queueEvictedStale),
    (.droppedStale, S.stats.droppedStale + S.queue.queueEvictedStale),
    (.consumerDroppedStale, S.stats.droppedStale),
    (.queueEvictedStale, S.queue.queueEvictedStale),
    (.pending, S.queue.q.length)] ++ extraFields env c n S.stats

/-! ## what is printed of a run -/

namespace Demo

variable (env : Env) (c : Config) (s : Demo)

def stats : StageName → StageStats
  | .imuProp => s.imu.stats
  | .stage n => (s.net.line n).stage.stats

def threadMeter : StageName → Meter
  | .imuProp => s.imu.meter
  | .stage n => s.meter n

/-- The queue's window counters; the IMU thread has a schedule instead of a
queue. -/
def windowQueue : StageName → WindowQueueStats
  | .imuProp => {
      offered := c.durationS * 200
      dequeued := s.imu.stats.window.started
      evicted := 0 }
  | .stage n => (s.net.line n).stage.queue.window

def printWindow (p : StageName) : List Row :=
  printWindowStage p (s.stats p) (s.threadMeter p).stats (s.windowQueue c p)

def printFocus (n : Node) : List Row :=
  printFocusJob n (s.net.line n).stage.stats (c.cfg env n)

def stageRow (n : Node) : Row :=
  (.stage (.stage n), stageFields env c n (s.net.line n).stage (s.meter n).stats)

def measurementFields (finishedNs : Nat) : List (Key × Nat) :=
  let workloadEnd := s.workloadEnd c
  [(.startNs, s.workloadStart),
    (.endNs, workloadEnd),
    (.windowNs, workloadEnd - s.workloadStart),
    (.elapsedNs, finishedNs - s.workloadStart),
    (.drainElapsedNs, if workloadEnd < finishedNs then finishedNs - workloadEnd else 0)]

/-- A policy that was not read is -1, which is no number to a reader. -/
def identityFields : List (Key × Nat) :=
  [(.pidTgid, s.imu.pidTgid)] ++ s.imu.actualPolicy.toList.map (fun policy => (.policy, policy)) ++
    [(.stageId, (Config.cfgImu env).stageId)]

def generatedFields : List (Key × Nat) :=
  [(.imu, s.imu.stats.processed),
    (.camera, s.camera.generated),
    (.lidar, s.lidar.generated)]

def burstFields : List (Key × Nat) :=
  let index := c.burstDeliveryIndex
  let burst := c.cameraBurstCount
  [(.injected, burst),
    (.firstSeq, if 0 < burst then index + 2 - burst else 0),
    (.latestSeq, if 0 < burst then index + 1 else 0),
    (.deliveryMs, if 0 < burst then index * cameraPeriodNs / 1000000 else 0)]

def configurationFields : List (Key × Nat) :=
  [(.visionBudgetUs, c.visionBudgetUs),
    (.visionWorkUs, c.visionWorkUs),
    (.visionDeadlineUs, c.visionDeadlineUs),
    (.imuWorkUs, c.imuWorkUs),
    (.lidarPreBudgetUs, c.lidarPreBudgetUs),
    (.lidarPreClassId, c.lidarPreClassId env)]

def imuFields : List (Key × Nat) :=
  [(.processed, s.imu.stats.processed),
    (.late, s.imu.stats.late),
    (.cpuUs, s.imu.meter.stats.cpuNs / 1000)]

/-- The rows of the window. -/
def windowResults (finishedNs : Nat) : List Row :=
  [(.measurement, s.measurementFields c finishedNs), (.imuIdentity, s.identityFields env)] ++
    s.printWindow c .imuProp ++ s.printWindow c (.stage .vis) ++ s.printWindow c (.stage .est) ++
    s.printFocus env c .vis ++ s.printFocus env c .est ++
    (if c.lidar.points ≠ 0 then
      s.printWindow c (.stage .lpre) ++ s.printWindow c (.stage .lreg)
    else []) ++
    s.printWindow c (.stage .map)

/-- The results, in the order of `main`. -/
def results (finishedNs : Nat) : List Row :=
  (if c.windowStats then s.windowResults env c finishedNs else []) ++
    [(.generated, s.generatedFields), (.cameraBurst, burstFields c),
      (.configuration, configurationFields env c), (.stage .imuProp, s.imuFields),
      s.stageRow env c .vis, s.stageRow env c .est] ++
    (if c.lidar.points ≠ 0 then [s.stageRow env c .lpre, s.stageRow env c .lreg] else []) ++
    [s.stageRow env c .map]

end Demo

end ScxSlam.PipelineDemo
