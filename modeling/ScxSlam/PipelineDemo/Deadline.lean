import ScxSlam.Executor.Work
import ScxSlam.PipelineDemo.Conservation
import ScxSlam.PipelineDemo.Report

/-!
# ScxSlam.PipelineDemo.Deadline

The three places that decide whether a vision job is late, against the
comparison over unbounded integers.  `publish_hint` and `stage_worker` add the
relative deadline to the release in a 64-bit word and take zero for no
deadline, `print_focus_job` subtracts the release from the completion; the
executor's `make_hint` saturates instead.
-/

namespace ScxSlam.PipelineDemo

/-! ## the decisions -/

/-- The deadline a hint carries, zero for none, has passed at `t`. -/
def Hint.Missed (h : Hint) (t : Nat) : Prop := h.deadlineTsNs ≠ 0 ∧ h.deadlineTsNs < t

/-- `late` of `print_focus_job`. -/
def focusLate (stats : StageStats) (cfg : StageCfg) : Bool :=
  let ageNs := Word.sub 64 stats.focusCompletionNs stats.focusReleaseNs
  cfg.deadlineRelNs != 0 && decide (cfg.deadlineRelNs < ageNs)

section Decisions

variable {cfg : StageCfg} {args : StageArgs} {S : Stage} {w : WorkItem} {now : Nat}

/-- Behind the release nothing wraps, and this is what the row says. -/
theorem focusFields_late {stats : StageStats}
    (hle : stats.focusReleaseNs ≤ stats.focusCompletionNs)
    (hword : stats.focusCompletionNs < Word.size 64) :
    focusFields stats cfg = [(.job, stats.focusJob), (.releaseNs, stats.focusReleaseNs),
      (.completionNs, stats.focusCompletionNs),
      (.ageNs, Word.sub 64 stats.focusCompletionNs stats.focusReleaseNs),
      (.late, (focusLate stats cfg).toNat)] := by
  rw [focusLate, Word.sub_of_le hle hword]
  rfl

/-- The fourth job is the one under study. -/
theorem finishStats_focus (hseq : w.seq = 4) :
    (S.finishStats args now w).focusReleaseNs = w.tsNs ∧
      (S.finishStats args now w).focusCompletionNs = now := by
  unfold Stage.finishStats
  by_cases hburst : w.burstId = 0 <;> simp [hseq, hburst]

end Decisions

/-! ## agreement -/

/-- A vision job released at `release` and completed at `t` is late, for each
of the three, exactly when it is. -/
structure LateAgrees (env : Env) (c : Config) (release t : Nat) : Prop where
  /-- the hint `publish_hint` writes -/
  hint : ∀ w, w.tsNs = release →
    ((hintOf (c.cfg env .vis) w).Missed t ↔ release + 1000 * c.visionDeadlineUs < t)
  /-- the counters of `stage_worker` -/
  stage : ∀ (args : StageArgs) (S : Stage) w, args.cfg = c.cfg env .vis → w.tsNs = release →
    let late := decide (release + 1000 * c.visionDeadlineUs < t)
    (S.finishStats args t w).late = S.stats.late + late.toNat ∧
      (S.finishStats args t w).window.late =
        S.stats.window.late + (insideWindow args.metricsEndNs t && late).toNat
  /-- the flag of `print_focus_job` -/
  focus : ∀ (args : StageArgs) (S : Stage) w, args.cfg = c.cfg env .vis → w.tsNs = release →
    w.seq = 4 → (focusLate (S.finishStats args t w) (c.cfg env .vis) = true ↔
      release + 1000 * c.visionDeadlineUs < t)

section Agreement

variable {env : Env} {c : Config} {release t : Nat}

/-- The relative deadline of vision is the option's. -/
theorem cfg_vis_deadline (env : Env) (c : Config) :
    (c.cfg env .vis).deadlineRelNs = 1000 * c.visionDeadlineUs := Nat.mul_comm _ _

/-- The absolute deadline of vision wraps. -/
theorem deadlineAbs_vis (hpos : 0 < c.visionDeadlineUs) {w : WorkItem} :
    deadlineAbs w (c.cfg env .vis) = Word.add 64 w.tsNs (1000 * c.visionDeadlineUs) := by
  rw [deadlineAbs, cfg_vis_deadline, if_neg (by omega)]

/-- What the report calls late. -/
theorem focusLate_vis (hpos : 0 < c.visionDeadlineUs) {stats : StageStats} :
    focusLate stats (c.cfg env .vis) = true ↔ 1000 * c.visionDeadlineUs <
      Word.sub 64 stats.focusCompletionNs stats.focusReleaseNs := by
  have hne : 1000 * c.visionDeadlineUs ≠ 0 := by omega
  rw [focusLate, cfg_vis_deadline]
  simp [hne]

/-- **Deadline arithmetic**: the three agree with the exact comparison unless
the deadline passes `2^64`.  A deadline of `2^64` itself is published as none,
and no completion is past it; a later one wraps to a time before the release,
which only a completion from before the release has not passed. -/
theorem late_agrees_iff (hpos : 0 < c.visionDeadlineUs)
    (hrelease : release < Word.size 64) (ht : t < Word.size 64) : LateAgrees env c release t ↔
      release ≤ t ∧ release + 1000 * c.visionDeadlineUs ≤ Word.size 64 ∨
        Word.size 64 + t ≤ release + 1000 * c.visionDeadlineUs := by
  have haccepted : 1000 * c.visionDeadlineUs < Word.size 64 := by
    have hfits := c.visionDeadline_fits
    omega
  have hadd := Word.exceeds_add_iff hrelease haccepted (by omega) t ht
  have hsub := Word.lt_sub_iff hrelease haccepted t ht
  constructor
  · intro h
    have hhint := h.hint { seq := 4, tsNs := release } rfl
    have hfocus := h.focus ⟨c.cfg env .vis, false, false, 1, by decide, 0⟩ {}
      { seq := 4, tsNs := release } rfl rfl rfl
    rw [Hint.Missed, hintOf, deadlineAbs_vis hpos] at hhint
    rw [focusLate_vis hpos, (finishStats_focus rfl).1, (finishStats_focus rfl).2] at hfocus
    have h1 := hadd.mp hhint
    have h2 := hsub.mp hfocus
    omega
  · intro h
    have hexact := hadd.mpr (by omega)
    constructor
    case hint =>
        rintro w rfl
        rw [Hint.Missed, hintOf, deadlineAbs_vis hpos]
        exact hexact
    case stage =>
        rintro args S w hcfg rfl
        have hlate : (deadlineAbs w args.cfg != 0 && decide (deadlineAbs w args.cfg < t)) =
            decide (w.tsNs + 1000 * c.visionDeadlineUs < t) := by
          rw [hcfg, deadlineAbs_vis hpos, ← Bool.coe_iff_coe]
          simpa using hexact
        obtain ⟨-, -, hcount, hwindow⟩ := S.finishStats_counts args t w
        rw [hlate] at hcount hwindow
        exact ⟨hcount, congrArg WindowStageStats.late hwindow⟩
    case focus =>
        rintro args S w hcfg rfl hseq
        rw [focusLate_vis hpos, (finishStats_focus hseq).1, (finishStats_focus hseq).2]
        exact hsub.mpr (by omega)

/-- A deadline of half a million years that is missed at once. -/
theorem late_agrees_iff_wrapped : ¬ ∀ (env : Env) (c : Config) (release t : Nat),
    0 < c.visionDeadlineUs → release < Word.size 64 → t < Word.size 64 →
      LateAgrees env c release t := by
  intro h
  have hwrapped := h plainEnv { visionDeadlineUs := 18446744073709551 } 1000000000 1010000000
    (by decide) (by decide) (by decide)
  have hhint := hwrapped.hint { seq := 1, tsNs := 1000000000 } rfl
  rw [Hint.Missed, hintOf, deadlineAbs_vis (by decide)] at hhint
  revert hhint
  decide

/-- The default deadline, and one that is too long. -/
theorem late_agrees_iff_default : LateAgrees plainEnv {} 1000000000 1033000001 ∧
    ¬ LateAgrees plainEnv { visionDeadlineUs := 18446744073709551 } 1000000000 1010000000 := by
  constructor
  · exact (late_agrees_iff (by decide) (by decide) (by decide)).mpr (by decide)
  · exact fun h => absurd ((late_agrees_iff (by decide) (by decide) (by decide)).mp h)
      (by decide)

end Agreement

/-! ## the executor's deadline -/

/-- What `make_hint` publishes has passed exactly when the deadline has. -/
theorem makeHint_missed_iff {profile : Executor.CallbackProfile} {m : Executor.MessageMetadata}
    {t : Nat} (hpos : 0 < profile.relativeDeadlineNs) (ht : t ≤ u64Max) :
    (Executor.makeHint profile m).deadlineTsNs < t ↔
      m.releaseTsNs + profile.relativeDeadlineNs < t := by
  have hne : profile.relativeDeadlineNs ≠ 0 := by omega
  simp only [Executor.makeHint, Executor.makeHintFor, if_neg hne, Executor.addSaturating]
  split <;> omega

end ScxSlam.PipelineDemo
