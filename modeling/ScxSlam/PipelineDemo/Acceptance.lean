import Mathlib.Data.List.Forall2
import ScxSlam.Lib.Raise
import ScxSlam.PipelineDemo.Honest
import ScxSlam.PipelineDemo.Validator

/-!
# ScxSlam.PipelineDemo.Acceptance

The validator accepts the rows of every honest run.
-/

namespace ScxSlam.PipelineDemo

/-! ## what the validator reads -/

/-- Rows with distinct names are all collected. -/
theorem collect_spec {data : Data} {rows : List Row} (hnodup : (rows.map Prod.fst).Nodup)
    (hfresh : ∀ name ∈ rows.map Prod.fst, data.get? name = none) :
    ∃ data', collect data rows = .ok data' ∧ ∀ name, data'.get? name = (data.get? name).or
      (if name.known then (Dictionary.get? rows name).map Dictionary.ofPairs else none) := by
  induction rows generalizing data with
  | nil => exact ⟨data, rfl, fun name => by simp⟩
  | cons row rows ih =>
      obtain ⟨first, pairs⟩ := row
      obtain ⟨hnotin, hrest⟩ := List.nodup_cons.mp hnodup
      unfold collect
      by_cases hknown : first.known = true
      · have hnone := hfresh first (by simp)
        have hget : ∀ name, (data ++ [(first, Dictionary.ofPairs pairs)] : Data).get? name =
            (data.get? name).or
              (if first = name then some (Dictionary.ofPairs pairs) else none) := by
          intro name
          rw [Dictionary.get?_append, Dictionary.get?_cons, Dictionary.get?_nil]
        obtain ⟨data', hdata', hspec⟩ := @ih (data ++ [(first, Dictionary.ofPairs pairs)]) hrest (by
          intro name hname
          have hne : first ≠ name := fun heq => hnotin (heq ▸ hname)
          rw [hget, hfresh name (List.mem_cons_of_mem _ hname), if_neg hne]
          rfl)
        refine ⟨data', ?_, fun name => ?_⟩
        · rw [if_pos hknown, hnone]
          exact hdata'
        · rw [hspec, hget]
          by_cases hname : first = name
          · subst hname
            simp [hnone, hknown]
          · simp [hname]
      · obtain ⟨data', hdata', hspec⟩ := ih hrest fun name hname =>
          hfresh name (List.mem_cons_of_mem _ hname)
        refine ⟨data', ?_, fun name => ?_⟩
        · rw [if_neg hknown]
          exact hdata'
        · rw [hspec]
          by_cases hname : first = name
          · subst hname
            simp [hknown]
          · simp [hname]

section Read

variable {env : Env} {c : Config} {s : Demo} {finishedNs : Nat} {data : Data}

/-- What the validator makes of the rows of a run. -/
structure Reads (env : Env) (c : Config) (s : Demo) (finishedNs : Nat) (data : Data) : Prop where
  window : ∀ p, data.get (.window p) =
    windowFields (s.stats p) (s.threadMeter p).stats (s.windowQueue c p)
  drain : ∀ p, data.get (.drain p) = drainFields (s.stats p) (s.threadMeter p).stats
  imu : data.total .imuProp = s.imuFields
  stage : ∀ n, data.total (.stage n) = stageFields env c n (s.net.line n).stage (s.meter n).stats
  generated : data.get? .generated = some s.generatedFields
  configuration : data.get .configuration = Demo.configurationFields env c
  measurement : data.get .measurement = s.measurementFields c finishedNs
  identity : data.get .imuIdentity = s.identityFields env
  focus : ∀ n, n = .vis ∨ n = .est → data.get? (.focus n) = none ∨
    (s.net.line n).stage.stats.focusJob = 4 ∧
      data.get? (.focus n) = some (focusFields (s.net.line n).stage.stats (c.cfg env n))

/-- No name is printed twice. -/
theorem results_nodup (hlidar : c.lidar.points ≠ 0) (hwindow : c.windowStats = true) :
    ((s.results env c finishedNs).map Prod.fst).Nodup := by
  unfold Demo.results Demo.windowResults Demo.printFocus printFocusJob
  rw [if_pos hlidar, if_pos hwindow, if_pos hlidar]
  split <;> split
  all_goals
    simp only [Demo.printWindow, printWindowStage, Demo.stageRow, List.map_cons, List.map_nil,
      List.cons_append, List.nil_append]
    decide

/-- The rows of a finished run are collected, and each section is the run's. -/
theorem reads (hlidar : c.lidar.points ≠ 0) (hwindow : c.windowStats = true) {policy : Nat}
    (hpolicy : s.imu.actualPolicy = some policy) :
    ∃ data, collect [] (s.results env c finishedNs) = .ok data ∧
      Reads env c s finishedNs data := by
  have hnodup := @results_nodup env c s finishedNs hlidar hwindow
  obtain ⟨data, hdata, hspec⟩ := @collect_spec [] _ hnodup fun _ _ => rfl
  have hget : ∀ {name : RowName} {pairs : List (Key × Nat)}, name.known = true →
      (pairs.map Prod.fst).Nodup → (name, pairs) ∈ s.results env c finishedNs →
      data.get? name = some pairs := by
    intro name pairs hknown hpairs hmem
    rw [hspec, if_pos hknown, Dictionary.get?_of_mem hnodup hmem]
    exact congrArg some (Dictionary.ofPairs_of_nodup hpairs)
  have hval : ∀ {name : RowName} {pairs : List (Key × Nat)}, name.known = true →
      (pairs.map Prod.fst).Nodup → (name, pairs) ∈ s.results env c finishedNs →
      data.get name = pairs := by
    intro name pairs hknown hpairs hmem
    rw [Data.get, hget hknown hpairs hmem]
    rfl
  have hrows : s.results env c finishedNs = s.windowResults env c finishedNs ++
      [(.generated, s.generatedFields), (.cameraBurst, Demo.burstFields c),
        (.configuration, Demo.configurationFields env c), (.stage .imuProp, s.imuFields),
        s.stageRow env c .vis, s.stageRow env c .est, s.stageRow env c .lpre,
        s.stageRow env c .lreg, s.stageRow env c .map] := by
    unfold Demo.results
    rw [if_pos hwindow, if_pos hlidar]
    simp
  have hwindows : ∀ p row, row ∈ s.printWindow c p → row ∈ s.results env c finishedNs := by
    intro p row hrow
    rw [hrows, Demo.windowResults, if_pos hlidar]
    obtain _ | n := p
    · simp [hrow]
    · cases n <;> simp [hrow]
  refine ⟨data, hdata, ?_⟩
  constructor
  case window =>
      intro p
      refine @hval (.window p) _ rfl ?_ (hwindows p _ (List.mem_cons_self ..))
      simp [windowFields]
  case drain =>
      intro p
      refine @hval (.drain p) _ rfl ?_
        (hwindows p _ (List.mem_cons_of_mem _ (List.mem_cons_self ..)))
      simp [drainFields]
  case imu => exact @hval (.stage .imuProp) _ rfl (by simp [Demo.imuFields]) (by simp [hrows])
  case stage =>
      intro n
      refine @hval (.stage (.stage n)) _ rfl ?_ ?_
      · cases n <;> simp [stageFields, extraFields]
      · cases n <;> simp [hrows, Demo.stageRow]
  case generated =>
      exact @hget .generated _ rfl (by simp [Demo.generatedFields]) (by simp [hrows])
  case configuration =>
      exact @hval .configuration _ rfl (by simp [Demo.configurationFields]) (by simp [hrows])
  case measurement =>
      exact @hval .measurement _ rfl (by simp [Demo.measurementFields])
        (by simp [hrows, Demo.windowResults])
  case identity =>
      exact @hval .imuIdentity _ rfl (by simp [Demo.identityFields, hpolicy])
        (by simp [hrows, Demo.windowResults])
  case focus =>
      intro n hn
      by_cases hprinted : (s.net.line n).stage.stats.focusJob ≠ 4 ∨
          (s.net.line n).stage.stats.focusCompletionNs = 0
      · left
        have hfocus : s.printFocus env c n = [] := if_pos hprinted
        have habsent : RowName.focus n ∉ (s.results env c finishedNs).map Prod.fst := by
          rw [hrows, Demo.windowResults, if_pos hlidar]
          obtain rfl | rfl := hn <;> rw [hfocus] <;> unfold Demo.printFocus printFocusJob <;>
            split <;> simp [Demo.printWindow, printWindowStage, Demo.stageRow]
        rw [hspec, Dictionary.get?_of_not_mem habsent]
        cases (RowName.focus n).known <;> rfl
      · right
        have hjob : (s.net.line n).stage.stats.focusJob = 4 := by
          by_contra hne
          exact hprinted (.inl hne)
        refine ⟨hjob, @hget (.focus n) _ ?_ (by simp [focusFields]) ?_⟩
        · obtain rfl | rfl := hn <;> rfl
        · rw [hrows, Demo.windowResults, if_pos hlidar, Demo.printFocus, Demo.printFocus,
            printFocusJob, printFocusJob]
          obtain rfl | rfl := hn <;> rw [if_neg hprinted] <;> simp

end Read

/-! ## checks -/

section Raise

variable {condition : Prop} [Decidable condition] {message : String}

/-- A condition that does not hold raises nothing. -/
theorem raiseIf_false (h : ¬condition) : raiseIf condition message = .ok () :=
  raiseIf_eq_ok.mpr h

/-- What follows a check that does not raise. -/
theorem raiseIf_bind {α : Type} {next : Unit → Except String α} (h : ¬condition) :
    (raiseIf condition message >>= next) = next () := by
  rw [raiseIf_false h]
  rfl

/-- What follows a value. -/
theorem ok_bind {α β : Type} (x : α) (next : α → Except String β) :
    (Except.ok x >>= next) = next x := rfl

end Raise

namespace Expected

/-- The parameters of a run. -/
def ofRun (env : Env) (c : Config) : Expected where
  cost := c.imuWorkUs
  duration := c.durationS
  policy := env.policy
  lidarPreBudgetUs := c.lidarPreBudgetUs
  lidarPreClassId := c.lidarPreClassId env

/-- Both sides round the number of frames up. -/
theorem camera_ofRun (env : Env) (c : Config) : c.cameraFrameCount = (ofRun env c).camera := by
  have hsub : c.durationS * 1000000000 + 33000000 - 1 = c.durationS * 1000000000 + 32999999 :=
    Nat.add_sub_assoc (by decide) _
  exact congrArg (· / 33000000) hsub

section Checks

variable {env : Env} {c : Config} {s : Demo} {finishedNs : Nat} {data : Data}

/-- What the checks rely on. -/
structure Facts (env : Env) (c : Config) (s : Demo) (finishedNs : Nat) : Prop where
  imu : s.imu.stats.processed = c.durationS * 200
  camera : s.camera.generated = (ofRun env c).camera
  lidar : s.lidar.generated = c.durationS * 10
  identity : s.imu.pidTgid = env.selfImu ∧ s.imu.actualPolicy = some env.policy
  conserved : Conserved s
  keeps : ∀ n, (s.net.line n).stage.stats.droppedStale = 0 ∧
    (s.net.line n).stage.queue.queueEvictedStale = 0
  honest : ∀ p, Honest (s.stats p) (s.threadMeter p).stats (s.windowQueue c p)
  asked : c.durationS * 200 * c.imuWorkUs * 1000 ≤ s.imu.meter.stats.cpuNs
  finished : s.workloadEnd c ≤ finishedNs
  delivered : (s.net.line .vis).stage.queue.window.offered ≤ s.camera.generated ∧
    (s.net.line .lpre).stage.queue.window.offered ≤ s.lidar.generated
  fed : ∀ m, m.feeders ≠ [] → (s.net.line m).stage.queue.window.offered ≤
    fromFeeders s.net.line m (·.stage.stats.window.completed)
  oneCore : (stageNames.map fun p => (s.threadMeter p).stats.window.cpuNs).sum ≤ c.windowNs
  focus : ∀ n, (s.net.line n).stage.stats.focusReleaseNs ≤
    (s.net.line n).stage.stats.focusCompletionNs

variable (hr : Reads env c s finishedNs data) (hf : Facts env c s finishedNs)

include hr hf

/-- The generators have made as many items as the configuration asks for. -/
theorem checkGenerated_ok : (ofRun env c).checkGenerated data = .ok () := by
  refine raiseIf_false ?_
  have hinputs : s.generatedFields = (ofRun env c).inputs := by
    rw [Demo.generatedFields, hf.imu, hf.camera, hf.lidar]
    rfl
  have hsame : (ofRun env c).inputs.same (ofRun env c).inputs = true :=
    Dictionary.same_self (by simp [inputs, Dictionary.keys])
  rw [hr.generated, hinputs, Option.any_some, hsame]
  exact Bool.false_ne_true.symm

omit hf in
/-- The options are those of the evaluation. -/
theorem checkConfiguration_ok (hbudget : c.visionBudgetUs = 12000) (hwork : c.visionWorkUs = 0)
    (hdeadline : c.visionDeadlineUs = 33000) :
    (ofRun env c).checkConfiguration data = .ok () := by
  refine Raise.forM_eq_ok.mpr ?_
  rw [hr.configuration, Demo.configurationFields, hbudget, hwork, hdeadline]
  intro row hrow
  refine raiseIf_false ?_
  simp only [configuration, List.mem_cons, List.not_mem_nil, or_false] at hrow
  obtain rfl | rfl | rfl | rfl | rfl | rfl := hrow <;> simp [ofRun]

/-- Each stage accounts for the items it was offered. -/
theorem checkStage_ok (p : StageName) : checkStage data p = .ok () := by
  have hlate : (s.stats p).late ≤ (s.stats p).processed := by
    have h := (hf.honest p).late
    have h1 := h.drain
    have h2 := h.window
    omega
  unfold checkStage
  cases p with
  | imuProp =>
      rw [hr.imu]
      rw [raiseIf_bind, raiseIf_bind]
      · exact raiseIf_false fun h => h.1 rfl
      · exact Nat.not_lt_of_le hlate
      · simp [required, Dictionary.hasKeys, Demo.imuFields]
  | stage n =>
      obtain ⟨hdropped, hevicted⟩ := hf.keeps n
      rw [hr.stage n, raiseIf_bind, raiseIf_bind]
      · refine raiseIf_false fun h => ?_
        obtain h | h := h.2
        · exact h (by simp [stageFields, Dictionary.get, hdropped, hevicted])
        · exact h (by simp [stageFields, Dictionary.get, hdropped])
      · exact Nat.not_lt_of_le hlate
      · simp [required, Dictionary.hasKeys, stageFields]

/-- Each stage was offered what the one before it has sent. -/
theorem checkOffered_ok (p : StageName) : (ofRun env c).checkOffered data p = .ok () := by
  obtain ⟨-, hcamera, hvision, hlidar, hlidarPre, hmapping⟩ := hf.conserved
  have hkeeps : ∀ n, (s.net.line n).outcomes =
      (s.net.line n).stage.stats.processed + (s.net.line n).stage.queue.q.length := by
    intro n
    unfold Line.outcomes
    rw [(hf.keeps n).1, (hf.keeps n).2]
    omega
  have htotal : ∀ n, (data.total (.stage n)).get .processed =
      (s.net.line n).stage.stats.processed := fun n => by rw [hr.stage n]; rfl
  have hpending : ∀ n, (data.total (.stage n)).get .pending =
      (s.net.line n).stage.queue.q.length := fun n => by rw [hr.stage n]; rfl
  refine raiseIf_false (not_not_intro ?_)
  cases p with
  | imuProp =>
      rw [hr.imu]
      exact hf.imu
  | stage n =>
      rw [htotal, hpending, ← hkeeps]
      cases n with
      | vis => exact hcamera.symm.trans hf.camera
      | est => exact hvision.symm.trans (htotal .vis).symm
      | lpre => exact hlidar.symm.trans hf.lidar
      | lreg => exact hlidarPre.symm.trans (htotal .lpre).symm
      | map => exact hmapping.symm.trans (congrArg₂ (· + ·) (htotal .est) (htotal .lreg)).symm

omit hr in
/-- The IMU thread has used its share of every call. -/
theorem imu_cost_le : c.durationS * 200 * c.imuWorkUs ≤ s.imu.meter.stats.cpuNs / 1000 :=
  (Nat.le_div_iff_mul_le (by decide)).mpr hf.asked

/-- The IMU's CPU time covers its calls. -/
theorem checkImuCost_ok : (ofRun env c).checkImuCost data = .ok () := by
  refine raiseIf_false ?_
  rw [hr.imu]
  exact Nat.not_lt_of_le (imu_cost_le hf)

omit hr hf in
/-- The window is as long as the run was meant to be, and the drain comes behind it. -/
theorem checkTiming_of (x : Expected) {start stop finish : Nat}
    (hread : data.get .measurement = [(.startNs, start), (.endNs, stop), (.windowNs, stop - start),
      (.elapsedNs, finish - start), (.drainElapsedNs, if stop < finish then finish - stop else 0)])
    (hstop : stop = start + x.duration * 1000000000) (hfinish : stop ≤ finish) :
    x.checkTiming data = .ok () := by
  unfold checkTiming
  rw [hread, raiseIf_bind (by simp [Dictionary.hasKeys])]
  refine raiseIf_false ?_
  simp only [Dictionary.get, Dictionary.get?_cons, reduceCtorEq, if_true, if_false,
    Option.getD_some]
  split <;> omega

/-- The times of the run pass. -/
theorem checkTiming_ok : (ofRun env c).checkTiming data = .ok () :=
  checkTiming_of (ofRun env c) hr.measurement rfl hf.finished

/-- The counters of the whole run add up. -/
theorem checkIdentity_ok : (ofRun env c).checkIdentity data = .ok () := by
  have hpos := env.selfImu_pos
  refine raiseIf_false ?_
  rw [hr.identity, Demo.identityFields, hf.identity.1, hf.identity.2]
  simp [Dictionary.get, ofRun, Config.cfgImu]
  omega

omit hf in
/-- The total that is printed of a thread. -/
theorem total_get (p : StageName) :
    (data.total p).get .processed = (s.stats p).processed ∧
      (data.total p).get .late = (s.stats p).late ∧
      (data.total p).get .cpuUs = (s.threadMeter p).stats.cpuNs / 1000 := by
  cases p with
  | imuProp =>
      rw [hr.imu]
      exact ⟨rfl, rfl, rfl⟩
  | stage n =>
      rw [hr.stage n]
      exact ⟨rfl, rfl, rfl⟩

/-- Each stage's share of the window is within its totals. -/
theorem checkWindow_ok (p : StageName) : checkWindow data p = .ok () := by
  obtain ⟨hprocessed, hlate, hcpu⟩ := total_get hr p
  obtain ⟨hpending, hinflight, hinflight', ⟨hdropped, hevicted⟩, hcounted, hbounds⟩ := hf.honest p
  obtain ⟨hl1, hl2, hl3, hl4⟩ := hcounted
  unfold checkWindow
  dsimp only
  rw [hr.window p, hr.drain p, hprocessed, hlate, hcpu]
  generalize s.stats p = stats at *
  generalize (s.threadMeter p).stats = cpu at *
  generalize s.windowQueue c p = queue at *
  rw [raiseIf_bind, raiseIf_bind, raiseIf_bind]
  · refine raiseIf_false ?_
    simp only [windowFields, drainFields, Dictionary.get, Dictionary.get?_cons, reduceCtorEq,
      if_true, if_false, Option.getD_some]
    omega
  · simp only [windowFields, drainFields, Dictionary.get, Dictionary.get?_cons, reduceCtorEq,
      if_true, if_false, Option.getD_some]
    omega
  · simp only [windowFields, drainFields, Dictionary.get, Dictionary.get?_cons, reduceCtorEq,
      if_true, if_false, Option.getD_some, WindowQueueStats.pending, inflight]
    omega
  · simp [common, Dictionary.hasKeys, windowFields, drainFields]

omit hf in
/-- The window section of a stage. -/
theorem window_get (p : StageName) :
    (data.get (.window p)).get .offered = (s.windowQueue c p).offered ∧
      (data.get (.window p)).get .completed = (s.stats p).window.completed ∧
      (data.get (.window p)).get .cpuNs = (s.threadMeter p).stats.window.cpuNs := by
  rw [hr.window p]
  exact ⟨rfl, rfl, rfl⟩

omit hf in
/-- The IMU's share of the window is within its totals. -/
theorem checkImuWindow_ok : (ofRun env c).checkImuWindow data = .ok () := by
  refine raiseIf_false (not_not_intro ?_)
  rw [(window_get hr .imuProp).1]
  rfl

/-- The sources of the window are those the configuration asks for. -/
theorem checkSources_ok : (ofRun env c).checkSources data = .ok () := by
  have hcompleted : ∀ n, (data.get (.window (.stage n))).get .completed =
      (s.net.line n).stage.stats.window.completed := fun n => (window_get hr (.stage n)).2.1
  have hfed : ∀ n, n.feeders ≠ [] → (s.windowQueue c (.stage n)).offered ≤
      fromFeeders s.net.line n (·.stage.stats.window.completed) := hf.fed
  refine Raise.forM_eq_ok.mpr fun (n, sourceCount) hrow => raiseIf_false (Nat.not_lt_of_le ?_)
  rw [(window_get hr (.stage n)).1]
  simp only [sources, hcompleted, List.mem_cons, Prod.mk.injEq, List.not_mem_nil, or_false] at hrow
  obtain ⟨rfl, rfl⟩ | ⟨rfl, rfl⟩ | ⟨rfl, rfl⟩ | ⟨rfl, rfl⟩ | ⟨rfl, rfl⟩ := hrow
  · exact hf.delivered.1.trans hf.camera.le
  · exact hf.delivered.2.trans hf.lidar.le
  · simpa [fromFeeders, Node.feeders] using hfed .est (by decide)
  · simpa [fromFeeders, Node.feeders] using hfed .lreg (by decide)
  · simpa [fromFeeders, Node.feeders] using hfed .map (by decide)

/-- All the CPU time fits one core. -/
theorem checkOneCore_ok : checkOneCore data = .ok () := by
  refine raiseIf_false (Nat.not_lt_of_le ?_)
  have hsum : (stageNames.map fun p => (data.get (.window p)).get .cpuNs) =
      stageNames.map fun p => (s.threadMeter p).stats.window.cpuNs :=
    List.map_congr_left fun p _ => (window_get hr p).2.2
  have hwindow : (data.get .measurement).get .windowNs = s.workloadEnd c - s.workloadStart := by
    rw [hr.measurement]
    rfl
  rw [hsum, hwindow]
  exact hf.oneCore.trans (Nat.add_sub_cancel_left ..).ge

/-- The summary of a stage under study passes. -/
theorem checkFocus_ok (hdeadline : c.visionDeadlineUs = 33000) {n : Node}
    (hn : n = .vis ∨ n = .est) :
    checkFocus data n = .ok () := by
  have hrel : (c.cfg env n).deadlineRelNs = 33000000 := by
    obtain rfl | rfl := hn
    · simp [Config.cfg, hdeadline]
    · rfl
  have hfocus := hf.focus n
  unfold checkFocus
  obtain hnone | ⟨hjob, hsome⟩ := hr.focus n hn
  · rw [hnone]
  · rw [hsome]
    refine raiseIf_false ?_
    simp [focusFields, hrel, hjob, Dictionary.hasKeys, Dictionary.get]
    omega

/-- All checks pass, one after the other. -/
theorem parseMetrics_ok (hdata : collect [] (s.results env c finishedNs) = .ok data)
    (hbudget : c.visionBudgetUs = 12000) (hwork : c.visionWorkUs = 0)
    (hdeadline : c.visionDeadlineUs = 33000) :
    ∃ result, (ofRun env c).parseMetrics (s.results env c finishedNs) = .ok result := by
  have hfocus : [Node.vis, .est].forM (checkFocus data) = .ok () :=
    Raise.forM_eq_ok.mpr fun n hn => checkFocus_ok hr hf hdeadline (by simpa using hn)
  have hstages : stageNames.forM (checkStage data) = .ok () :=
    Raise.forM_eq_ok.mpr fun p _ => checkStage_ok hr hf p
  have hoffered : stageNames.forM ((ofRun env c).checkOffered data) = .ok () :=
    Raise.forM_eq_ok.mpr fun p _ => checkOffered_ok hr hf p
  have hwindows : stageNames.forM (checkWindow data) = .ok () :=
    Raise.forM_eq_ok.mpr fun p _ => checkWindow_ok hr hf p
  refine ⟨stageNames.foldl
    (fun result p => result.setOffered p ((ofRun env c).offered data p)) data, ?_⟩
  unfold parseMetrics
  rw [hdata, ok_bind, checkGenerated_ok hr hf, ok_bind,
    checkConfiguration_ok hr hbudget hwork hdeadline, ok_bind, hstages, ok_bind, hoffered, ok_bind,
    checkImuCost_ok hr hf, ok_bind, checkTiming_ok hr hf, ok_bind, checkIdentity_ok hr hf, ok_bind,
    hwindows, ok_bind, checkImuWindow_ok hr, ok_bind, checkSources_ok hr hf, ok_bind,
    checkOneCore_ok hr hf, ok_bind, hfocus, ok_bind]
  rfl

end Checks

end Expected

/-! ## honest runs -/

/-- The settings of an evaluation run.  The IMU cost, the LiDAR preprocessing
budget and class, the camera burst and the duration are free. -/
structure Evaluated (c : Config) : Prop where
  windowStats : c.windowStats = true
  lidar : c.lidar = .heavy
  dropStale : c.dropStale = false
  visionBudget : c.visionBudgetUs = 12000
  visionWork : c.visionWorkUs = 0
  visionDeadline : c.visionDeadlineUs = 33000

section Run

variable {env : Env} {c : Config} {s : Demo} {finishedNs : Nat}
  {jobs : StageName → List SampledJob}

/-- A source queue was not offered more in the window than was generated. -/
theorem Line.Sound.offered_le {args : StageArgs} {now : Nat} {L : Line} (h : L.Sound args now) :
    L.stage.queue.window.offered ≤ L.pushed.length := by
  rw [h.counted.offered, h.pushed, List.length_map]
  exact List.countP_le_length

/-- A finished run on one core has what the checks ask for. -/
theorem Pinned.facts (hp : Pinned c s jobs) (hc : Evaluated c) (hsound : s.Sound env c)
    (h : s.Timed env c) (hdone : s.main = .done finishedNs) :
    Expected.Facts env c s finishedNs := by
  have hrank : s.main.rank = 6 := by rw [hdone]; rfl
  obtain ⟨hcamera, hlidar, hexited⟩ := h.phase.joined (by omega)
  obtain ⟨hend, hcutoff⟩ := h.cutoff (by omega) hc.windowStats
  have hpos := h.imu.position
  rw [ImuThread.At, hexited] at hpos
  simp only [Demo.cameraDone, decide_eq_true_eq] at hcamera
  have hpoints : c.lidar.points ≠ 0 := by rw [hc.lidar]; decide
  have hscans : s.workloadEnd c ≤ s.lidarRelease s.lidar.scan := by
    simp only [Demo.lidarDone, decide_eq_true_eq] at hlidar
    exact hlidar.resolve_left hpoints
  constructor
  case imu => exact hpos.1
  case camera =>
      rw [← Expected.camera_ofRun]
      exact h.camera.done hcamera.1 (Nat.le_of_add_le_add_left hcamera.2)
  case lidar => exact h.lidar.done (Nat.le_of_add_le_add_left hscans)
  case identity => exact h.imu.identity (by simp [hexited])
  case conserved => exact hsound.conserved hdone
  case keeps => exact fun n => (hsound.net.line n).laws.keeps hc.dropStale
  case honest => exact hp.honest hsound h (by omega) hc.windowStats hc.dropStale hexited
  case asked =>
      have hmeter := h.imu.meter hcutoff
      have hasked := @Meter.asked_le s.net.metricsEndNs c.imuWorkUs _ hmeter.full h.imu.calls.2
      rwa [h.imu.calls.1, hpos.1, ← hmeter.stats, workNs, Word.mul_of_lt c.imuWork_fits,
        ← Nat.mul_assoc] at hasked
  case finished => exact h.phase.finished finishedNs hdone hc.windowStats
  case delivered =>
      rw [hsound.camera, hsound.lidar]
      exact ⟨(hsound.net.line .vis).offered_le, (hsound.net.line .lpre).offered_le⟩
  case fed => exact fun m hm => (hsound.net.fed m hm).offered
  case oneCore =>
      have hcpu : ∀ p,
          (s.threadMeter p).stats.window.cpuNs ≤ windowCpu (s.workloadEnd c) (jobs p) := by
        intro p
        rw [hp.cpu h hcutoff p, hend]
        exact (windowBounds (s.workloadEnd c) (jobs p)).lower
      have hone := hp.oneCore
      have h0 := hcpu .imuProp
      have h1 := hcpu (.stage .vis)
      have h2 := hcpu (.stage .est)
      have h3 := hcpu (.stage .lpre)
      have h4 := hcpu (.stage .lreg)
      have h5 := hcpu (.stage .map)
      simp only [stageNames, List.map_cons, List.map_nil, List.sum_cons, List.sum_nil]
      omega
  case focus => exact fun n => (h.stage n).focus

/-- **Acceptance**: the rows that an evaluation run prints are accepted, for
every interleaving of its threads, and no difference in them wraps. -/
theorem parse_metrics_accepts {actions : List Demo.Action}
    (h : Steps.exec (Demo.step env c) (Demo.initial env c) actions = some s)
    (hdone : s.main = .done finishedNs) (hc : Evaluated c) (hp : Pinned c s jobs) :
    (∀ p, Honest (s.stats p) (s.threadMeter p).stats (s.windowQueue c p)) ∧
      ∃ data, (Expected.ofRun env c).parseMetrics (s.results env c finishedNs) = .ok data := by
  have hfacts := hp.facts hc (Demo.sound_of_exec h) (Demo.timed_of_exec h) hdone
  have hpoints : c.lidar.points ≠ 0 := by rw [hc.lidar]; decide
  obtain ⟨data, hdata, hreads⟩ :=
    @reads env c s finishedNs hpoints hc.windowStats _ hfacts.identity.2
  exact ⟨hfacts.honest, Expected.parseMetrics_ok hreads hfacts hdata hc.visionBudget hc.visionWork
    hc.visionDeadline⟩

end Run

/-! ## a run -/

/-- A job that has the core for itself, read when it starts and when it ends. -/
def steadyJob (start total : Nat) : SampledJob where
  cpu t := min (t - start) total
  total := total
  samples := [⟨0, start, start⟩, ⟨total, start + total, start + total⟩]
  mono := fun _ _ _ => by dsimp only; omega
  starts := ⟨start, by omega⟩
  ends := ⟨start + total, fun _ _ => by omega⟩
  bracketed := by simp
  forward := by simp
  ordered := by simp
  last := rfl

def steadyCall (start us : Nat) : Call where
  us := us
  first := (start, start)
  readings := [⟨us * 1000, start + us * 1000, start + us * 1000⟩]
  elapsed := us * 1000

def evaluatedConfig : Config where
  windowStats := true
  durationS := 1
  lidar := .heavy
  hogN := 0
  duration_pos := oversleptConfig.duration_pos
  visionBudget_fits := oversleptConfig.visionBudget_fits
  visionDeadline_fits := oversleptConfig.visionDeadline_fits
  lidarPreBudget_fits := oversleptConfig.lidarPreBudget_fits
  burst_fits := oversleptConfig.burst_fits

/-- The `k`-th job of the IMU thread, which only gets the core after the end. -/
def lateImuCall (k : Nat) : Call := steadyCall (2153500000 + k * 150000) 150

/-- The vision stage computes the first frame in the window; everything else
comes after it. -/
def evaluated : List Demo.Action :=
  let call := steadyCall 150000000 3500
  let work (n : Node) : Demo.Action := .work n call.first call.readings
  let imu (k : Nat) : Demo.Action := .imu (lateImuCall k).first (lateImuCall k).readings
  [work .vis, work .vis, work .vis, .main, .tick 150000000, .camera, .camera, work .vis, work .vis,
    .tick 3500000, work .vis, work .vis, .tick 2000000000, imu 0, imu 0] ++
  (List.range 200).flatMap (fun k => [imu k, imu k, .tick 150000, imu k]) ++ [imu 0] ++
  List.replicate 60 .camera ++ List.replicate 10 .lidar ++ List.replicate 9 .main ++
  [work .vis, work .est, work .est, work .lpre, work .lpre, work .lreg, work .lreg, work .map,
    work .map, .main]

def evaluatedJobs : StageName → List SampledJob
  | .imuProp => (List.range 200).map fun k => steadyJob (2153500000 + k * 150000) 150000
  | .stage .vis => [steadyJob 150000000 3500000]
  | .stage _ => []

/-- A steady call samples the clock as its job says. -/
theorem samples_steadyCall (start us : Nat) :
    Samples (steadyCall start us) (steadyJob start (us * 1000)) := by
  have hused : usedReadings us (steadyCall start us).readings = (steadyCall start us).readings := by
    have hle : workNs us ≤ us * 1000 := Nat.mod_le _ _
    simp [steadyCall, usedReadings, Nat.not_lt_of_le hle]
  rw [Samples, show (steadyCall start us).us = us from rfl, hused]
  rfl

/-- One evaluation run of the program, from start to end. -/
theorem parse_metrics_accepts_evaluated :
    ∃ s, Steps.exec (Demo.step plainEnv evaluatedConfig) (Demo.initial plainEnv evaluatedConfig)
        evaluated = some s ∧
      ∃ data, (Expected.ofRun plainEnv evaluatedConfig).parseMetrics
        (s.results plainEnv evaluatedConfig 2183500000) = .ok data := by
  have hrun : ((Steps.exec (Demo.step plainEnv evaluatedConfig)
      (Demo.initial plainEnv evaluatedConfig) evaluated).any fun s =>
      s.main = .done 2183500000 ∧ s.workloadStart = 100000000 ∧
        s.imu.meter.calls = (List.range 200).map lateImuCall ∧
        (s.meter .vis).calls = [steadyCall 150000000 3500] ∧
        ∀ n ∈ [Node.est, .lpre, .lreg, .map], (s.meter n).calls = []) = true := by
    decide +kernel
  obtain ⟨s, hs, hfacts⟩ := (Option.any_eq_true ..).mp hrun
  obtain ⟨hdone, hstart, himu, hvis, hothers⟩ := of_decide_eq_true hfacts
  have hpinned : Pinned evaluatedConfig s evaluatedJobs := by
    constructor
    case sampled =>
        intro p
        obtain _ | n := p
        · rw [Demo.threadMeter, himu, evaluatedJobs, List.forall₂_map_left_iff,
            List.forall₂_map_right_iff]
          exact List.forall₂_same.mpr fun k _ => samples_steadyCall _ 150
        · cases n
          case vis =>
              rw [Demo.threadMeter, hvis]
              exact .cons (samples_steadyCall _ 3500) .nil
          all_goals
            rw [Demo.threadMeter, hothers _ (by decide)]
            exact .nil
    case oneCore =>
        rw [Demo.workloadEnd, hstart]
        decide +kernel
  have hevaluated : Evaluated evaluatedConfig := ⟨rfl, rfl, rfl, rfl, rfl, rfl⟩
  exact ⟨s, hs, (parse_metrics_accepts hs hdone hevaluated hpinned).2⟩

end ScxSlam.PipelineDemo
