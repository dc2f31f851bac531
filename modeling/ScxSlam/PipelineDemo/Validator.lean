import ScxSlam.Lib.Dictionary
import ScxSlam.PipelineDemo.Report

/-!
# ScxSlam.PipelineDemo.Validator

`parse_metrics` of `run_e4_eval.py`, from the printed rows on: the rows it
knows become a dictionary of dictionaries, which is checked in the order of
the source.  A missing key reads as zero where the source would raise a
`KeyError`; every such key is checked for first.
-/

namespace ScxSlam.PipelineDemo

/-! ## dictionaries -/

/-- A dictionary of numbers. -/
abbrev Dict := Dictionary Key Nat

/-- `data`. -/
abbrev Data := Dictionary RowName Dict

namespace Data

/-- `data.get(name, {})`. -/
def get (data : Data) (name : RowName) : Dict := (data.get? name).getD []

def total (data : Data) (p : StageName) : Dict := data.get (.stage p)

/-- `data[stage]["offered"] = v`. -/
def setOffered (data : Data) (p : StageName) (v : Nat) : Data :=
  data.map fun row => if row.1 = .stage p then (row.1, row.2.set .offered v) else row

end Data

/-! ## parse_metrics -/

/-- `STAGES`. -/
def stageNames : List StageName :=
  [.imuProp, .stage .vis, .stage .est, .stage .lpre, .stage .lreg, .stage .map]

/-- The names that `parse_metrics` looks for. -/
def RowName.known : RowName → Bool
  | .stage _ | .generated | .configuration | .measurement | .imuIdentity
  | .window _ | .drain _ => true
  | .focus n => n = .vis ∨ n = .est
  | .cameraBurst => false

def RowName.text : RowName → String
  | .measurement => "measurement"
  | .imuIdentity => "imu_identity"
  | .window p => "window_" ++ p.text
  | .drain p => "drain_" ++ p.text
  | .focus n => "focus_" ++ (StageName.stage n).text
  | .generated => "generated"
  | .cameraBurst => "camera_burst"
  | .configuration => "configuration"
  | .stage p => p.text

/-- The loop over the lines. -/
def collect (data : Data) : List Row → Except String Data
  | [] => .ok data
  | (name, pairs) :: rest =>
      if name.known then
        if (data.get? name).isSome then .error ("duplicate metrics for " ++ name.text)
        else collect (data ++ [(name, .ofPairs pairs)]) rest
      else collect data rest

/-- `raise ValueError`, where a condition holds. -/
def raiseIf (condition : Prop) [Decidable condition] (message : String) : Except String Unit :=
  if condition then .error message else .ok ()

theorem raiseIf_eq_ok {condition : Prop} [Decidable condition] {message : String} :
    raiseIf condition message = .ok () ↔ ¬condition := by
  unfold raiseIf
  split
  · next h => exact iff_of_false nofun (not_not_intro h)
  · next h => exact iff_of_true rfl h

/-- The arguments of `parse_metrics`. -/
structure Expected where
  cost : Nat
  duration : Nat
  policy : Nat := 7
  lidarPreBudgetUs : Nat := 10000
  lidarPreClassId : Nat := 1

namespace Expected

variable (x : Expected) (data : Data)

def imu : Nat := x.duration * 200

def camera : Nat := (x.duration * 1000000000 + 32999999) / 33000000

def lidar : Nat := x.duration * 10

/-- `expected_inputs`. -/
def inputs : Dict := [(.imu, x.imu), (.camera, x.camera), (.lidar, x.lidar)]

def checkGenerated : Except String Unit :=
  raiseIf ((data.get? .generated).any (·.same x.inputs) = false)
    "offered sensor counts differ from the configured release schedule"

/-- The configuration that the run must have had. -/
def configuration : List (Key × String × Nat) := [
  (.imuWorkUs, "imu_work_us", x.cost),
  (.visionWorkUs, "vision_work_us", 0),
  (.visionBudgetUs, "vision_budget_us", 12000),
  (.visionDeadlineUs, "vision_deadline_us", 33000),
  (.lidarPreBudgetUs, "lidar_pre_budget_us", x.lidarPreBudgetUs),
  (.lidarPreClassId, "lidar_pre_class_id", x.lidarPreClassId)]

def checkConfiguration : Except String Unit :=
  x.configuration.forM fun (key, text, expected) =>
    raiseIf ((data.get .configuration).get? key ≠ some expected)
      ("unexpected configuration: " ++ text)

/-- The keys a stage must have. -/
def required (p : StageName) : List Key :=
  [.processed, .late, .cpuUs] ++
    if p = .imuProp then [] else [.dequeued, .pending, .staleSeen, .droppedStale]

def checkStage (p : StageName) : Except String Unit := do
  let m := data.total p
  raiseIf (m.hasKeys (required p) = false) ("missing metrics: " ++ p.text)
  raiseIf (m.get .processed < m.get .late) ("late exceeds processed: " ++ p.text)
  raiseIf (p ≠ .imuProp ∧ (m.get .droppedStale ≠ 0 ∨ m.get .dequeued ≠ m.get .processed))
    ("unexpected dropping/dequeue accounting: " ++ p.text)

/-- `offered`. -/
def offered : StageName → Nat
  | .imuProp => x.imu
  | .stage .vis => x.camera
  | .stage .est => (data.total (.stage .vis)).get .processed
  | .stage .lpre => x.lidar
  | .stage .lreg => (data.total (.stage .lpre)).get .processed
  | .stage .map => (data.total (.stage .est)).get .processed +
      (data.total (.stage .lreg)).get .processed

def checkOffered (p : StageName) : Except String Unit :=
  let m := data.total p
  raiseIf (m.get .processed + m.get .pending ≠ x.offered data p)
    ("offered/completed/pending do not reconcile: " ++ p.text)

def checkImuCost : Except String Unit :=
  raiseIf ((data.total .imuProp).get .cpuUs < x.imu * x.cost)
    "IMU compute consumed less than the requested thread CPU time"

def checkTiming : Except String Unit := do
  let timing := data.get .measurement
  raiseIf (timing.hasKeys [.startNs, .endNs, .windowNs, .elapsedNs, .drainElapsedNs] = false)
    "missing fixed-window measurement; drain-inclusive logs are not accepted"
  raiseIf (timing.get .windowNs ≠ x.duration * 1000000000 ∨
      (timing.get .endNs : Int) - timing.get .startNs ≠ timing.get .windowNs ∨
      timing.get .elapsedNs ≠ timing.get .windowNs + timing.get .drainElapsedNs)
    "inconsistent fixed-window epochs or drain elapsed time"

def checkIdentity : Except String Unit :=
  let identity := data.get .imuIdentity
  raiseIf (identity.get? .policy ≠ some x.policy ∨ identity.get? .stageId ≠ some 0 ∨
      identity.get .pidTgid = 0)
    "IMU identity/policy mismatch"

/-- The keys of a drain row. -/
def common : List Key := [.completed, .late, .cpuUs, .cpuNs, .cpuUncertaintyNs]

def checkWindow (p : StageName) : Except String Unit := do
  let w := data.get (.window p)
  let d := data.get (.drain p)
  let total := data.total p
  raiseIf ((d.hasKeys common && w.hasKeys
      (common ++ [.offered, .staleSeen, .droppedStale, .pending, .inFlight])) = false)
    ("missing window/drain metrics: " ++ p.text)
  raiseIf (w.get .offered ≠
        w.get .completed + w.get .pending + w.get .inFlight + w.get .droppedStale ∨
      w.get .droppedStale ≠ 0 ∨ 1 < w.get .inFlight ∨
      w.get .completed < w.get .late ∨ d.get .completed < d.get .late)
    ("inconsistent window queue/completion metrics: " ++ p.text)
  raiseIf (w.get .completed + d.get .completed ≠ total.get .processed ∨
      w.get .late + d.get .late ≠ total.get .late)
    ("window/drain completions do not reconcile: " ++ p.text)
  raiseIf ((w.get .cpuNs + d.get .cpuNs) / 1000 ≠ total.get .cpuUs ∨
      w.get .cpuUs ≠ w.get .cpuNs / 1000 ∨ d.get .cpuUs ≠ d.get .cpuNs / 1000 ∨
      w.get .cpuUncertaintyNs ≠ d.get .cpuUncertaintyNs ∨
      d.get .cpuNs < w.get .cpuUncertaintyNs)
    ("window/drain CPU bounds do not reconcile: " ++ p.text)

def checkImuWindow : Except String Unit :=
  raiseIf ((data.get (.window .imuProp)).get .offered ≠ x.imu)
    "window IMU offered count does not match the epoch"

/-- `sources`. -/
def sources : List (Node × Nat) :=
  let completed (n : Node) := (data.get (.window (.stage n))).get .completed
  [(.vis, x.camera), (.lpre, x.lidar), (.est, completed .vis), (.lreg, completed .lpre),
    (.map, completed .est + completed .lreg)]

def checkSources : Except String Unit :=
  (x.sources data).forM fun (n, sourceCount) =>
    raiseIf (sourceCount < (data.get (.window (.stage n))).get .offered)
      ("window deliveries exceed available source outputs: " ++ (StageName.stage n).text)

def checkOneCore : Except String Unit :=
  raiseIf ((data.get .measurement).get .windowNs <
      (stageNames.map fun p => (data.get (.window p)).get .cpuNs).sum)
    "per-stage window CPU exceeds one pinned core"

def checkFocus (n : Node) : Except String Unit :=
  match data.get? (.focus n) with
  | none => .ok ()
  | some focus =>
      raiseIf (focus.hasKeys [.job, .releaseNs, .completionNs, .ageNs, .late] = false ∨
          focus.get .job ≠ 4 ∨ focus.get .completionNs < focus.get .releaseNs ∨
          focus.get .ageNs ≠ focus.get .completionNs - focus.get .releaseNs ∨
          focus.get .late ≠ (decide (33000000 < focus.get .ageNs)).toNat)
        ("inconsistent focus job metrics: " ++ (RowName.focus n).text)

/-- `parse_metrics`. -/
def parseMetrics (rows : List Row) : Except String Data := do
  let data ← collect [] rows
  x.checkGenerated data
  x.checkConfiguration data
  stageNames.forM (checkStage data)
  stageNames.forM (x.checkOffered data)
  x.checkImuCost data
  x.checkTiming data
  x.checkIdentity data
  stageNames.forM (checkWindow data)
  x.checkImuWindow data
  x.checkSources data
  checkOneCore data
  [.vis, .est].forM (checkFocus data)
  return stageNames.foldl (fun result p => result.setOffered p (x.offered data p)) data

end Expected

end ScxSlam.PipelineDemo
