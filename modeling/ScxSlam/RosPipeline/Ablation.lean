import ScxSlam.Executor.Work
import ScxSlam.Lib.Word

/-!
# ScxSlam.RosPipeline.Ablation

The hint modes of `slam_pipeline`.  With synthetic input `stage_profile`
rewrites the profile that the executor makes its hints of; with external input
the profile stays as it is and `AblationHintSink` projects the finished hint.
-/

namespace ScxSlam.RosPipeline

open Executor

/-! ## profiles -/

/-- `SLAM_STAGE_IMU_PREINT`. -/
def stageImuPreint : FreshStage := .stage 0

/-- `SLAM_STAGE_MISC`. -/
def stageMisc : FreshStage := .stage 15

/-- The arguments of `profile`. -/
structure StageArgs where
  stage : FreshStage
  classId : FreshClass
  deadlineUs : Nat
  staleUs : Nat
  budgetUs : Nat
  deriving DecidableEq, Repr

/-- `profile`. -/
def StageArgs.profile (a : StageArgs) : CallbackProfile where
  stageId := a.stage
  classId := a.classId
  relativeDeadlineNs := Word.mul 64 a.deadlineUs 1000
  staleNs := Word.mul 64 a.staleUs 1000
  budgetNs := Word.mul 64 a.budgetUs 1000

/-- `stage_profile`. -/
def StageArgs.stageProfile (a : StageArgs) (hintMode : String) : CallbackProfile :=
  if hintMode = "imu-only" ∧ a.stage ≠ stageImuPreint then
    (StageArgs.mk stageMisc .background 0 0 0).profile
  else if hintMode = "fe-only" ∧ a.stage = stageImuPreint then
    -- deadlines and budgets of the IMU stay, its urgent service goes
    (StageArgs.mk stageMisc .deadline a.deadlineUs a.staleUs a.budgetUs).profile
  else a.profile

/-- `--input`. -/
inductive InputMode
  | synthetic
  | external
  deriving DecidableEq, Repr

/-- `admission_profile` of `main`. -/
def InputMode.admissionProfile (input : InputMode) (hintMode : String) (a : StageArgs) :
    CallbackProfile :=
  let result := match input with
    | .external => a.profile
    | .synthetic => a.stageProfile hintMode
  { result with rejectExpired := input = .external && a.stage ≠ stageImuPreint }

/-! ## sinks -/

/-- `project_hint`. -/
def projectHint (original : FreshTaskHint) (mode : String) : FreshTaskHint :=
  if mode = "imu-only" ∧ original.stageId ≠ stageImuPreint then
    { original with
      stageId := stageMisc
      classId := .background
      deadlineTsNs := 0
      staleNs := 0
      budgetNs := 0
      sliceNs := 0
      weight := 0 }
  else if mode = "fe-only" ∧ original.stageId = stageImuPreint then
    { original with stageId := stageMisc, classId := .deadline }
  else original

/-- `HintSink`, as its effect on a state of its own. -/
structure HintSink (σ : Type) where
  publish : σ → Nat → FreshTaskHint → σ
  clear : σ → Nat → σ

/-- `AblationHintSink`. -/
def ablationHintSink {σ : Type} (sink : HintSink σ) (mode : String) : HintSink σ where
  publish s worker hint := sink.publish s worker (projectHint hint mode)
  clear := sink.clear

/-- The sink that `main` gives its executors. -/
def InputMode.hintSink {σ : Type} (input : InputMode) (sink : HintSink σ) (hintMode : String) :
    HintSink σ :=
  match input with
  | .synthetic => sink
  | .external => ablationHintSink sink hintMode

/-- A call that an executor makes on its sink: a hint of a message, a hint of
other work, or none. -/
inductive SinkCall
  | message (worker : Nat) (a : StageArgs) (m : MessageMetadata)
  | other (worker : Nat) (a : StageArgs) (jobId releaseNs : Nat)
  | clear (worker : Nat)
  deriving DecidableEq, Repr

/-- The effect of a call. -/
def SinkCall.apply {σ : Type} (input : InputMode) (sink : HintSink σ) (hintMode : String)
    (s : σ) (call : SinkCall) : σ :=
  let target := input.hintSink sink hintMode
  match call with
  | .message worker a m =>
      target.publish s worker (makeHint (input.admissionProfile hintMode a) m)
  | .other worker a jobId releaseNs =>
      target.publish s worker (makeHintFor (input.admissionProfile hintMode a) jobId releaseNs)
  | .clear worker => target.clear s worker

/-! ## the two mechanisms -/

section Modes

variable {mode : String} {a : StageArgs} {jobId release : Nat} {h : FreshTaskHint}

/-- A stage's hint under a mode is its full hint, projected. -/
theorem makeHintFor_stageProfile : makeHintFor (a.stageProfile mode) jobId release =
    projectHint (makeHintFor a.profile jobId release) mode := by
  unfold StageArgs.stageProfile projectHint
  -- the hint has the stage of its profile, so both take the same branch
  show makeHintFor (if mode = "imu-only" ∧ a.stage ≠ stageImuPreint then _ else _) _ _ =
    if mode = "imu-only" ∧ a.stage ≠ stageImuPreint then _ else
      if mode = "fe-only" ∧ a.stage = stageImuPreint then _ else _
  split
  · rfl
  split
  · rfl
  · rfl

/-- Projecting once is enough. -/
theorem projectHint_idem : projectHint (projectHint h mode) mode = projectHint h mode := by
  by_cases himu : mode = "imu-only" ∧ h.stageId ≠ stageImuPreint
  · have hne : stageMisc ≠ stageImuPreint := by decide
    simp [projectHint, himu, hne]
  · by_cases hfe : mode = "fe-only" ∧ h.stageId = stageImuPreint
    · have hne : stageMisc ≠ stageImuPreint := by decide
      simp [projectHint, hfe, hne]
    · simp only [projectHint, if_neg himu, if_neg hfe]

/-- No mode touches the job, its release or the flags. -/
theorem projectHint_kept : (projectHint h mode).jobId = h.jobId ∧
    (projectHint h mode).releaseTsNs = h.releaseTsNs ∧ (projectHint h mode).flags = h.flags := by
  unfold projectHint
  split
  · exact ⟨rfl, rfl, rfl⟩
  split
  · exact ⟨rfl, rfl, rfl⟩
  · exact ⟨rfl, rfl, rfl⟩

/-- Sink calls do not depend on where the input comes from. -/
theorem apply_input {σ : Type} (sink : HintSink σ) (s : σ) (call : SinkCall) :
    call.apply .synthetic sink mode s = call.apply .external sink mode s := by
  cases call with
  | message worker a m => exact congrArg (sink.publish s worker) makeHintFor_stageProfile
  | other worker a jobId release => exact congrArg (sink.publish s worker) makeHintFor_stageProfile
  | clear worker => rfl

end Modes

/-- What the two mechanisms have in common in a mode. -/
structure SameHints (mode : String) : Prop where
  /-- hints made of a message -/
  message : ∀ (a : StageArgs) (m : MessageMetadata),
    makeHint (a.stageProfile mode) m = projectHint (makeHint a.profile m) mode
  /-- hints of other work -/
  other : ∀ (a : StageArgs) jobId release,
    makeHintFor (a.stageProfile mode) jobId release =
      projectHint (makeHintFor a.profile jobId release) mode
  idempotent : ∀ h, projectHint (projectHint h mode) mode = projectHint h mode
  kept : ∀ h, (projectHint h mode).jobId = h.jobId ∧
    (projectHint h mode).releaseTsNs = h.releaseTsNs ∧ (projectHint h mode).flags = h.flags
  /-- whatever stands behind the sink of `main` sees the same calls -/
  sinks : ∀ {σ : Type} (sink : HintSink σ) (s : σ) (calls : List SinkCall),
    calls.foldl (SinkCall.apply .synthetic sink mode) s =
      calls.foldl (SinkCall.apply .external sink mode) s

/-- **Ablation**: in every mode the rewritten profile and the projected hint
publish the same. -/
theorem ablations_agree (mode : String) : SameHints mode where
  message a m := makeHintFor_stageProfile
  other a jobId release := makeHintFor_stageProfile
  idempotent h := projectHint_idem
  kept h := projectHint_kept
  sinks sink s calls := by
    have hcall : SinkCall.apply .synthetic sink mode = SinkCall.apply .external sink mode := by
      funext s call
      exact apply_input sink s call
    rw [hcall]

end ScxSlam.RosPipeline
