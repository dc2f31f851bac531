import Mathlib.Algebra.Order.Field.Rat
import ScxSlam.E4Eval.Plan
import ScxSlam.PipelineDemo.Parsed

/-!
# ScxSlam.E4Eval.Summary

The loop over the cases in `main` of `run_e4_eval.py`: a case is run and its
report parsed, and all the cases so far are summarised against the control
that started their repetition.

Quotients are kept exact.  What happens before and after `parse_metrics` while
a case runs is left open.
-/

namespace ScxSlam.E4Eval

open Raise
open PipelineDemo (Data Dict Expected Key Node Row RowName StageName stageNames)

/-! ## a case with its metrics -/

/-- A case that `run_one_case` has returned, with all of its metrics. -/
structure Measured extends Ran where
  processElapsedS : ℚ
  data : Data

/-- What a run of the demo leaves to `run_one_case`. -/
structure Attempt where
  applicationOwned : Bool
  rows : List Row
  processElapsedS : ℚ
  /-- whether a later check raises -/
  rest : Except String Unit

/-- What `parse_metrics` is to expect of a case. -/
def Case.expected (c : Case) (duration : Nat) : Expected where
  cost := c.imuWorkUs
  duration := duration
  lidarPreBudgetUs := c.lidarPreBudgetUs
  lidarPreClassId := c.lidarPreClassId

/-- The metrics that later reports read. -/
def Metrics.ofData (data : Data) : Metrics where
  startNs := (data.get .measurement).get .startNs
  endNs := (data.get .measurement).get .endNs
  pidTgid := (data.get .imuIdentity).get .pidTgid

/-- `run_one_case`, from what happens in it. -/
def measure (duration : Nat) (attempt : Case → Except String Attempt) (c : Case) :
    Except String Measured := do
  let attempt ← attempt c
  let data ← (c.expected duration).parseMetrics attempt.rows
  attempt.rest
  return { runOneCase attempt.applicationOwned (.ofData data) c with
    processElapsedS := attempt.processElapsedS
    data := data }

/-! ## rows -/

/-- What `summarize` can raise. -/
inductive SummaryError
  | control (repetition : Nat) (mode : ImuPreempt)
  | row (name : RowName)
  | key (name : RowName) (key : Key)
  | zeroDivision
  deriving DecidableEq, Repr

/-- The columns of a stage. -/
structure StageColumns where
  offered : Nat
  completed : Nat
  rateHz : ℚ
  late : Nat
  missPct : Option ℚ
  pending : Nat
  inFlight : Nat
  unfinished : Nat
  staleSeen : Nat
  droppedStale : Nat
  cpuUs : Nat
  cpuUncertaintyNs : Nat
  deriving DecidableEq, Repr

/-- A row of `stages.csv`. -/
structure StageRow extends StageColumns where
  case : String
  stage : StageName
  rateRatioToControl : Option ℚ
  deriving DecidableEq, Repr

/-- A row of `drain.csv`. -/
structure DrainRow where
  case : String
  stage : StageName
  drainElapsedS : ℚ
  drain : Dict
  deriving DecidableEq, Repr

/-- The columns of job 4 of a stage. -/
structure Job4 where
  stage : Node
  completed : Nat
  ageNs : Option Nat
  late : Option Nat
  deriving DecidableEq, Repr

/-- A row of `matrix.csv`. -/
structure MatrixRow where
  name : String
  repetition : Nat
  role : Role
  imuWorkUs : Nat
  imuPreempt : ImuPreempt
  processElapsedS : ℚ
  deadlineGraceUs : Grace
  lidarPreBudgetUs : Nat
  lidarPreClassId : Nat
  controlCase : String
  imuNominalPct : ℚ
  observation : String := "fixed-window"
  regime : String := "unclassified-exploratory"
  windowS : ℚ
  drainElapsedS : ℚ
  imuWindowCpuPct : ℚ
  imuTotalCpuPct : ℚ
  cameraNotDeliveredAtCutoff : Int
  lidarNotDeliveredAtCutoff : Int
  visionToEstimatorNotDeliveredAtCutoff : Int
  job4 : List Job4
  stages : List (StageName × StageColumns)
  rateRatioToControl : List (StageName × Option ℚ)
  deriving DecidableEq, Repr

/-- What `summarize` returns. -/
structure Summary where
  matrix : List MatrixRow
  stages : List StageRow
  drain : List DrainRow
  deriving DecidableEq, Repr

/-! ## summarize -/

/-- `data[name]`. -/
def row (data : Data) (name : RowName) : Except SummaryError Dict :=
  match data.get? name with
  | some d => .ok d
  | none => .error (.row name)

/-- `data[name][key]`. -/
def value (data : Data) (name : RowName) (key : Key) : Except SummaryError Nat := do
  let d ← row data name
  match d.get? key with
  | some v => .ok v
  | none => .error (.key name key)

/-- A true division. -/
def divide (a b : ℚ) : Except SummaryError ℚ := if b = 0 then .error .zeroDivision else .ok (a / b)

def percentage (late processed : Nat) : Option ℚ :=
  if processed = 0 then none else some (100 * late / processed)

def ratio (completed control : Nat) : Option ℚ :=
  if control = 0 then none else some (completed / control)

/-- `controls`, the last one of equal keys first. -/
def controls (cases : List Measured) : List ((Nat × ImuPreempt) × Measured) :=
  ((cases.filter (·.role = .controlStart)).map fun c => ((c.repetition, c.imuPreempt), c)).reverse

/-- `controls[(case["repetition"], case["imu_preempt"])]`. -/
def controlOf (cases : List Measured) (c : Measured) : Except SummaryError Measured :=
  match (controls cases).lookup (c.repetition, c.imuPreempt) with
  | some control => .ok control
  | none => .error (.control c.repetition c.imuPreempt)

/-- The columns of job 4, if it completed. -/
def job4 (data : Data) (n : Node) : Except SummaryError Job4 :=
  match data.get? (.focus n) with
  | none => .ok { stage := n, completed := 0, ageNs := none, late := none }
  | some _ => do
      let ageNs ← value data (.focus n) .ageNs
      let late ← value data (.focus n) .late
      return { stage := n, completed := 1, ageNs := some ageNs, late := some late }

/-- The turn of a stage in the loop over them. -/
def stageRow (c control : Measured) (windowS : ℚ) (p : StageName) :
    Except SummaryError StageRow := do
  let pending ← value c.data (.window p) .pending
  let inFlight ← value c.data (.window p) .inFlight
  let late ← value c.data (.window p) .late
  let completed ← value c.data (.window p) .completed
  let controlCompleted ← value control.data (.window p) .completed
  let offered ← value c.data (.window p) .offered
  let rateHz ← divide completed windowS
  let staleSeen ← value c.data (.window p) .staleSeen
  let droppedStale ← value c.data (.window p) .droppedStale
  let cpuUs ← value c.data (.window p) .cpuUs
  let cpuUncertaintyNs ← value c.data (.window p) .cpuUncertaintyNs
  return {
    case := c.name
    stage := p
    offered := offered
    completed := completed
    rateHz := rateHz
    late := late
    missPct := percentage late completed
    pending := pending
    inFlight := inFlight
    unfinished := pending + inFlight
    staleSeen := staleSeen
    droppedStale := droppedStale
    cpuUs := cpuUs
    cpuUncertaintyNs := cpuUncertaintyNs
    rateRatioToControl := ratio completed controlCompleted }

def drainRow (c : Measured) (drainElapsedS : ℚ) (p : StageName) : Except SummaryError DrainRow := do
  let drain ← row c.data (.drain p)
  return { case := c.name, stage := p, drainElapsedS := drainElapsedS, drain := drain }

/-- The turn of a case in the loop over them. -/
def summarizeCase (cases : List Measured) (c : Measured) : Except SummaryError Summary := do
  let control ← controlOf cases c
  let windowNs ← value c.data .measurement .windowNs
  let windowS : ℚ := windowNs / 1000000000
  let drainElapsedNs ← value c.data .measurement .drainElapsedNs
  let drainElapsedS : ℚ := drainElapsedNs / 1000000000
  let windowCpuNs ← value c.data (.window .imuProp) .cpuNs
  let imuWindowCpuPct ← divide (100 * windowCpuNs) windowNs
  let cpuUs ← value c.data (.stage .imuProp) .cpuUs
  let elapsedNs ← value c.data .measurement .elapsedNs
  let imuTotalCpuPct ← divide (100 * cpuUs * 1000) elapsedNs
  let camera ← value c.data .generated .camera
  let visionOffered ← value c.data (.window (.stage .vis)) .offered
  let lidar ← value c.data .generated .lidar
  let lidarPreOffered ← value c.data (.window (.stage .lpre)) .offered
  let visionCompleted ← value c.data (.window (.stage .vis)) .completed
  let estimatorOffered ← value c.data (.window (.stage .est)) .offered
  let focus ← [.vis, .est].mapM (job4 c.data)
  let turns ← stageNames.mapM fun p => do
    let stage ← stageRow c control windowS p
    let drain ← drainRow c drainElapsedS p
    return (stage, drain)
  let stages := turns.map (·.1)
  let matrix : MatrixRow := {
    name := c.name
    repetition := c.repetition
    role := c.role
    imuWorkUs := c.imuWorkUs
    imuPreempt := c.imuPreempt
    processElapsedS := c.processElapsedS
    deadlineGraceUs := c.deadlineGraceUs
    lidarPreBudgetUs := c.lidarPreBudgetUs
    lidarPreClassId := c.lidarPreClassId
    controlCase := control.name
    imuNominalPct := c.imuWorkUs / 50
    windowS := windowS
    drainElapsedS := drainElapsedS
    imuWindowCpuPct := imuWindowCpuPct
    imuTotalCpuPct := imuTotalCpuPct
    cameraNotDeliveredAtCutoff := (camera : Int) - visionOffered
    lidarNotDeliveredAtCutoff := (lidar : Int) - lidarPreOffered
    visionToEstimatorNotDeliveredAtCutoff := (visionCompleted : Int) - estimatorOffered
    job4 := focus
    stages := stages.map fun r => (r.stage, r.toStageColumns)
    rateRatioToControl := (stages.filter fun r =>
      r.stage = .stage .lreg ∨ r.stage = .stage .map).map fun r => (r.stage, r.rateRatioToControl) }
  return { matrix := [matrix], stages := stages, drain := turns.map (·.2) }

/-- `summarize`. -/
def summarize (cases : List Measured) : Except SummaryError Summary := do
  let turns ← cases.mapM (summarizeCase cases)
  return {
    matrix := turns.flatMap (·.matrix)
    stages := turns.flatMap (·.stages)
    drain := turns.flatMap (·.drain) }

/-! ## the loop of main -/

/-- What ends the loop early. -/
inductive LoopError
  | run (message : String)
  | summary (e : SummaryError)

/-- The loop over the cases that are left, with those that have run; every one
is summarised with all before it. -/
def caseLoop (run : Case → Except String Measured) (cases : List Measured) :
    List Case → Except LoopError (List Measured)
  | [] => .ok cases
  | c :: rest =>
      match run c with
      | .error message => .error (.run message)
      | .ok measured =>
          match summarize (cases ++ [measured]) with
          | .error e => .error (.summary e)
          | .ok _ => caseLoop run (cases ++ [measured]) rest

/-! ## values -/

section Values

variable {data : Data} {name : RowName} {key : Key} {v : Nat} {a b : ℚ}

/-- A row that is there. -/
theorem row_eq_ok {d : Dict} : row data name = .ok d ↔ data.get? name = some d := by
  unfold row
  cases data.get? name with
  | none => exact iff_of_false nofun nofun
  | some d' => exact ⟨fun h => by cases h; rfl, fun h => by cases h; rfl⟩

/-- A value that is there. -/
theorem value_eq_ok : value data name key = .ok v ↔ data.value? name key = some v := by
  unfold value Data.value?
  rw [bind_eq_ok, Option.bind_eq_some_iff]
  refine exists_congr fun d => and_congr row_eq_ok ?_
  cases d.get? key with
  | none => exact iff_of_false nofun nofun
  | some v' => exact ⟨fun h => by cases h; rfl, fun h => by cases h; rfl⟩

/-- A value that is there is read. -/
theorem exists_value (h : ∃ v, data.value? name key = some v) : ∃ v, value data name key = .ok v :=
  h.imp fun _ => value_eq_ok.mpr

/-- A quotient by anything but zero. -/
theorem exists_divide (h : b ≠ 0) : ∃ q, divide a b = .ok q := ⟨_, if_neg h⟩

end Values

/-! ## every row can be made -/

section Rows

variable {x x' : Expected} {cases : List Measured} {c control : Measured} {windowS : ℚ}

/-- The fourth job of a stage under study is there. -/
theorem exists_job4 (h : x.Parsed c.data) {n : Node} (hn : n ∈ [Node.vis, .est]) :
    ∃ r, job4 c.data n = .ok r := by
  unfold job4
  cases hd : c.data.get? (.focus n) with
  | none => exact ⟨_, rfl⟩
  | some d =>
      obtain ⟨⟨ageNs, hage⟩, late, hlate⟩ := h.focus n hn d hd
      refine exists_bind (exists_value ⟨ageNs, ?_⟩) fun _ _ =>
        exists_bind (exists_value ⟨late, ?_⟩) fun _ _ => ⟨_, rfl⟩
      · exact Option.bind_eq_some_iff.mpr ⟨d, hd, hage⟩
      · exact Option.bind_eq_some_iff.mpr ⟨d, hd, hlate⟩

/-- A stage's row is made of two cases that were parsed. -/
theorem exists_stageRow (hc : x.Parsed c.data) (hcontrol : x'.Parsed control.data)
    (hwindow : windowS ≠ 0) (p : StageName) : ∃ r, stageRow c control windowS p = .ok r := by
  have hvalue : ∀ key ∈ PipelineDemo.windowKeys, ∃ v, value c.data (.window p) key = .ok v :=
    fun key hkey => exists_value (hc.window p key hkey)
  unfold stageRow
  refine exists_bind (hvalue _ (by decide)) fun _ _ => ?_
  refine exists_bind (hvalue _ (by decide)) fun _ _ => ?_
  refine exists_bind (hvalue _ (by decide)) fun _ _ => ?_
  refine exists_bind (hvalue _ (by decide)) fun _ _ => ?_
  refine exists_bind (exists_value (hcontrol.window p _ (by decide))) fun _ _ => ?_
  refine exists_bind (hvalue _ (by decide)) fun _ _ => ?_
  refine exists_bind (exists_divide hwindow) fun _ _ => ?_
  refine exists_bind (hvalue _ (by decide)) fun _ _ => ?_
  refine exists_bind (hvalue _ (by decide)) fun _ _ => ?_
  refine exists_bind (hvalue _ (by decide)) fun _ _ => ?_
  refine exists_bind (hvalue _ (by decide)) fun _ _ => ?_
  exact ⟨_, rfl⟩

/-- A stage's drain is made of a case that was parsed. -/
theorem exists_drainRow (hc : x.Parsed c.data) {drainElapsedS : ℚ} (p : StageName) :
    ∃ r, drainRow c drainElapsedS p = .ok r := by
  obtain ⟨d, hd⟩ := hc.drain p
  exact exists_bind ⟨d, row_eq_ok.mpr hd⟩ fun _ _ => ⟨_, rfl⟩

/-- A case is summarised where its control is found and both were parsed. -/
theorem exists_summarizeCase (hduration : 1 ≤ x.duration) (hc : x.Parsed c.data)
    (hfound : controlOf cases c = .ok control) (hcontrol : x'.Parsed control.data) :
    ∃ r, summarizeCase cases c = .ok r := by
  obtain ⟨elapsed, helapsed, hle⟩ := hc.elapsedNs
  have hwindow : value c.data .measurement .windowNs = .ok (x.duration * 1000000000) :=
    value_eq_ok.mpr hc.windowNs
  have hpos : x.duration * 1000000000 ≠ 0 := by omega
  have hcast : ((x.duration * 1000000000 : Nat) : ℚ) ≠ 0 := Nat.cast_ne_zero.mpr hpos
  have helapsedPos : (elapsed : ℚ) ≠ 0 := Nat.cast_ne_zero.mpr (by omega)
  unfold summarizeCase
  refine exists_bind ⟨control, hfound⟩ fun control' hcontrol' => ?_
  obtain rfl : control = control' := Except.ok.inj (hfound.symm.trans hcontrol')
  refine exists_bind ⟨_, hwindow⟩ fun windowNs hwindowNs => ?_
  obtain rfl : x.duration * 1000000000 = windowNs := Except.ok.inj (hwindow.symm.trans hwindowNs)
  refine exists_bind (exists_value hc.drainElapsedNs) fun _ _ => ?_
  refine exists_bind (exists_value (hc.window _ _ (by decide))) fun _ _ => ?_
  refine exists_bind (exists_divide hcast) fun _ _ => ?_
  refine exists_bind (exists_value hc.cpuUs) fun _ _ => ?_
  refine exists_bind ⟨elapsed, value_eq_ok.mpr helapsed⟩ fun elapsed' helapsed' => ?_
  obtain rfl : elapsed = elapsed' :=
    Except.ok.inj ((value_eq_ok.mpr helapsed).symm.trans helapsed')
  refine exists_bind (exists_divide helapsedPos) fun _ _ => ?_
  refine exists_bind (exists_value (hc.generated _ (by decide))) fun _ _ => ?_
  refine exists_bind (exists_value (hc.window _ _ (by decide))) fun _ _ => ?_
  refine exists_bind (exists_value (hc.generated _ (by decide))) fun _ _ => ?_
  refine exists_bind (exists_value (hc.window _ _ (by decide))) fun _ _ => ?_
  refine exists_bind (exists_value (hc.window _ _ (by decide))) fun _ _ => ?_
  refine exists_bind (exists_value (hc.window _ _ (by decide))) fun _ _ => ?_
  refine exists_bind (exists_mapM_eq_ok fun n hn => exists_job4 hc hn) fun _ _ => ?_
  refine exists_bind (exists_mapM_eq_ok fun p _ => ?_) fun _ _ => ⟨_, rfl⟩
  refine exists_bind (exists_stageRow hc hcontrol ?_ p) fun _ _ =>
    exists_bind (exists_drainRow hc p) fun _ _ => ⟨_, rfl⟩
  exact div_ne_zero hcast (by decide)

end Rows

/-! ## the control of a case -/

/-- The control that starts a case's repetition in the case's mode. -/
structure Case.Starts (control c : Case) : Prop where
  role : control.role = .controlStart
  repetition : control.repetition = c.repetition
  imuPreempt : control.imuPreempt = c.imuPreempt

section Control

variable {cases : List Measured} {c control : Measured}

/-- The controls are the cases in that role. -/
theorem mem_controls {key : Nat × ImuPreempt} (h : (key, control) ∈ controls cases) :
    control ∈ cases ∧ control.role = .controlStart ∧
      key = (control.repetition, control.imuPreempt) := by
  obtain ⟨c, hc, heq⟩ := List.mem_map.mp (List.mem_reverse.mp h)
  obtain ⟨hmem, hrole⟩ := List.mem_filter.mp hc
  cases heq
  exact ⟨hmem, of_decide_eq_true hrole, rfl⟩

/-- The control found is the one that the case starts from. -/
theorem controlOf_spec (h : controlOf cases c = .ok control) :
    control ∈ cases ∧ control.toCase.Starts c.toCase := by
  unfold controlOf at h
  split at h
  next found hfound =>
      cases h
      obtain ⟨before, after, hcontrols, -⟩ := List.lookup_eq_some_iff.mp hfound
      have hmem : ((c.repetition, c.imuPreempt), control) ∈ controls cases := by
        rw [hcontrols]
        exact List.mem_append_right _ List.mem_cons_self
      obtain ⟨hin, hrole, hkey⟩ := mem_controls hmem
      obtain ⟨hrepetition, hmode⟩ := Prod.mk.inj hkey
      exact ⟨hin, hrole, hrepetition.symm, hmode.symm⟩
  next => contradiction

/-- A control of the case's key is enough for one to be found. -/
theorem exists_controlOf (hcontrol : control ∈ cases) (h : control.toCase.Starts c.toCase) :
    ∃ control, controlOf cases c = .ok control := by
  have hmem : ((c.repetition, c.imuPreempt), control) ∈ controls cases := by
    refine List.mem_reverse.mpr (List.mem_map.mpr ⟨control, ?_, ?_⟩)
    · exact List.mem_filter.mpr ⟨hcontrol, decide_eq_true h.role⟩
    · rw [h.repetition, h.imuPreempt]
  unfold controlOf
  cases hfound : (controls cases).lookup (c.repetition, c.imuPreempt) with
  | some found => exact ⟨found, rfl⟩
  | none => exact absurd rfl (bne_iff_ne.mp (List.lookup_eq_none_iff.mp hfound _ hmem))

end Control

/-! ## what the rows say -/

/-- A row of a case's stage, with its ratio to a control. -/
structure StageRow.Against (r : StageRow) (c control : Measured) : Prop where
  case : r.case = c.name
  completed : value c.data (.window r.stage) .completed = .ok r.completed
  ratio : ∃ n, value control.data (.window r.stage) .completed = .ok n ∧
    r.rateRatioToControl = ratio r.completed n

section Spec

variable {cases : List Measured} {c control : Measured} {summary : Summary}

/-- A stage's row compares the case with its control. -/
theorem against_stageRow {windowS : ℚ} {p : StageName} {r : StageRow}
    (h : stageRow c control windowS p = .ok r) : r.Against c control := by
  unfold stageRow at h
  obtain ⟨_, -, h⟩ := bind_eq_ok.mp h
  obtain ⟨_, -, h⟩ := bind_eq_ok.mp h
  obtain ⟨_, -, h⟩ := bind_eq_ok.mp h
  obtain ⟨completed, hcompleted, h⟩ := bind_eq_ok.mp h
  obtain ⟨n, hn, h⟩ := bind_eq_ok.mp h
  obtain ⟨_, -, h⟩ := bind_eq_ok.mp h
  obtain ⟨_, -, h⟩ := bind_eq_ok.mp h
  obtain ⟨_, -, h⟩ := bind_eq_ok.mp h
  obtain ⟨_, -, h⟩ := bind_eq_ok.mp h
  obtain ⟨_, -, h⟩ := bind_eq_ok.mp h
  obtain ⟨_, -, h⟩ := bind_eq_ok.mp h
  cases h
  exact ⟨rfl, hcompleted, n, hn, rfl⟩

/-- A case has one row, and its stages are against its control. -/
theorem summarizeCase_spec (h : summarizeCase cases c = .ok summary) :
    ∃ control ∈ cases, control.toCase.Starts c.toCase ∧
      (∃ row, summary.matrix = [row] ∧ row.name = c.name ∧ row.controlCase = control.name) ∧
      ∀ r ∈ summary.stages, r.Against c control := by
  unfold summarizeCase at h
  obtain ⟨control, hcontrol, h⟩ := bind_eq_ok.mp h
  obtain ⟨hmem, hstarts⟩ := controlOf_spec hcontrol
  obtain ⟨windowNs, -, h⟩ := bind_eq_ok.mp h
  dsimp only at h
  iterate 13 obtain ⟨_, -, h⟩ := bind_eq_ok.mp h
  obtain ⟨turns, hturns, h⟩ := bind_eq_ok.mp h
  cases h
  refine ⟨control, hmem, hstarts, ⟨_, rfl, rfl, rfl⟩, fun r hr => ?_⟩
  obtain ⟨⟨stage, drain⟩, hturn, rfl⟩ := List.mem_map.mp hr
  obtain ⟨p, -, hp⟩ := exists_of_mem (mapM_eq_ok.mp hturns).flip hturn
  obtain ⟨stage', hstage, hp⟩ := bind_eq_ok.mp hp
  obtain ⟨drain', -, hp⟩ := bind_eq_ok.mp hp
  cases hp
  exact against_stageRow hstage

/-- `summarize` succeeds on cases that were parsed and have their controls. -/
theorem exists_summarize
    (hparsed : ∀ c ∈ cases, ∃ x : Expected, 1 ≤ x.duration ∧ x.Parsed c.data)
    (hcontrols : ∀ c ∈ cases, ∃ control ∈ cases, control.toCase.Starts c.toCase) :
    ∃ summary, summarize cases = .ok summary := by
  refine exists_bind (exists_mapM_eq_ok fun c hc => ?_) fun _ _ => ⟨_, rfl⟩
  obtain ⟨x, hduration, hx⟩ := hparsed c hc
  obtain ⟨control, hcontrol, hstarts⟩ := hcontrols c hc
  obtain ⟨found, hfound⟩ := exists_controlOf hcontrol hstarts
  obtain ⟨x', -, hx'⟩ := hparsed found (controlOf_spec hfound).1
  exact exists_summarizeCase hduration hx hfound hx'

/-- One row of each turn makes one row of each case. -/
theorem forall₂_flatMap {R : Measured → MatrixRow → Prop} {turns : List Summary}
    (h : List.Forall₂ (fun c turn => ∃ row, turn.matrix = [row] ∧ R c row) cases turns) :
    List.Forall₂ R cases (turns.flatMap (·.matrix)) := by
  induction h with
  | nil => exact .nil
  | cons hturn _ ih =>
      obtain ⟨row, hmatrix, hrow⟩ := hturn
      rw [List.flatMap_cons, hmatrix]
      exact .cons hrow ih

/-- Every row is that of a case, against the control of its key. -/
theorem summarize_spec (h : summarize cases = .ok summary) :
    List.Forall₂ (fun c row => row.name = c.name ∧ ∃ control ∈ cases,
      control.toCase.Starts c.toCase ∧ row.controlCase = control.name) cases summary.matrix ∧
    ∀ r ∈ summary.stages, ∃ c ∈ cases, ∃ control ∈ cases,
      control.toCase.Starts c.toCase ∧ r.Against c control := by
  obtain ⟨turns, hturns, h⟩ := bind_eq_ok.mp h
  cases h
  have hspec := (mapM_eq_ok.mp hturns).imp fun c turn => @summarizeCase_spec cases c turn
  constructor
  · refine forall₂_flatMap (hspec.imp ?_)
    rintro c turn ⟨control, hcontrol, hstarts, ⟨row, hmatrix, hname, hrow⟩, -⟩
    exact ⟨row, hmatrix, hname, control, hcontrol, hstarts, hrow⟩
  · intro r hr
    obtain ⟨turn, hturn, hr⟩ := List.mem_flatMap.mp hr
    obtain ⟨c, hc, control, hcontrol, hstarts, -, hstages⟩ := exists_of_mem hspec.flip hturn
    exact ⟨c, hc, control, hcontrol, hstarts, hstages r hr⟩

end Spec

/-! ## a case that was measured -/

section Measure

variable {duration : Nat} {attempt : Case → Except String Attempt} {c : Case} {m : Measured}

/-- A measured case is the planned one but for its grace, and was parsed. -/
theorem measure_spec (h : measure duration attempt c = .ok m) :
    m.toCase = { c with deadlineGraceUs := m.deadlineGraceUs } ∧
      (c.expected duration).Parsed m.data := by
  obtain ⟨a, -, h⟩ := bind_eq_ok.mp h
  obtain ⟨data, hdata, h⟩ := bind_eq_ok.mp h
  obtain ⟨_, -, h⟩ := bind_eq_ok.mp h
  cases h
  exact ⟨rfl, Expected.parseMetrics_parsed hdata⟩

end Measure

/-! ## the loop -/

section Loop

variable {run : Case → Except String Measured}

/-- A loop whose summaries all succeed ends with no error of one. -/
theorem caseLoop_ne_summary {before rest : List Case} {cases : List Measured}
    (hcases : before.mapM run = .ok cases)
    (h : ∀ before' cases', before' <+: before ++ rest → before'.mapM run = .ok cases' →
      ∃ summary, summarize cases' = .ok summary) (e : SummaryError) :
    caseLoop run cases rest ≠ .error (.summary e) := by
  induction rest generalizing before cases with
  | nil => exact nofun
  | cons c rest ih =>
      have happend : before ++ c :: rest = before ++ [c] ++ rest := by
        rw [List.append_assoc, List.singleton_append]
      unfold caseLoop
      cases hrun : run c with
      | error message => exact nofun
      | ok m =>
          have hnext : (before ++ [c]).mapM run = .ok (cases ++ [m]) := by
            rw [List.mapM_append]
            refine bind_eq_ok.mpr ⟨cases, hcases, bind_eq_ok.mpr ⟨[m], ?_, rfl⟩⟩
            exact mapM_eq_ok.mpr (.cons hrun .nil)
          obtain ⟨summary, hsummary⟩ := h (before ++ [c]) (cases ++ [m])
            (happend ▸ List.prefix_append _ _) hnext
          dsimp only
          rw [hsummary]
          exact ih hnext fun before' cases' hbefore => h before' cases' (happend ▸ hbefore)

end Loop

end ScxSlam.E4Eval
