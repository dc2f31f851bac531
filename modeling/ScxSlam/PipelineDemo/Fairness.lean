import ScxSlam.Lib.Fair
import ScxSlam.PipelineDemo.Schedule

/-!
# ScxSlam.PipelineDemo.Fairness

Every fair run of `slam_pipeline_demo` joins all of its threads.

Each party makes progress in its turn: `main` launches the generators, each
generator releases what is due before the end of the workload, the IMU thread
runs its jobs, `main` stops the queues behind them, and each worker that finds
its queue stopped returns, as does each hog that finds the run over.  What one
party has reached no other one undoes, so the parties' ends add up.

A worker in `cv_.wait` is promised to go on only once it has been notified; the
others compete for the CPU, and each of them gets it at some point.
-/

namespace ScxSlam.PipelineDemo

variable {env : Env} {c : Config}

/-! ## compute calls -/

/-- A compute loop ends when its thread has had the CPU time. -/
theorem Meter.measure_defined (m : Meter) (cutoff us : Nat) :
    ∃ first readings, (m.measure cutoff us first readings).isSome = true := by
  refine ⟨(0, 0), [⟨0, 0, 0⟩, ⟨workNs us, 0, 0⟩, ⟨workNs us, 0, 0⟩], ?_⟩
  rw [Meter.measure, Option.isSome_map]
  unfold measuredWorkUs
  split
  · by_cases hzero : 0 < workNs us <;> simp [busyWorkUs]
  · by_cases hzero : 0 < workNs us <;> simp [measuredLoop, hzero]

/-- So does the busy work of a hog. -/
theorem busyWorkUs_defined (us : Nat) : busyWorkUs us 0 [workNs us] = some [] := by
  rw [busyWorkUs, Nat.sub_zero, if_neg (Nat.lt_irrefl _)]

/-! ## the stop flags -/

section Stops

variable {args : StageArgs} {now : Nat}

/-- A push stops no queue. -/
theorem BlockingQueue.push_stop (Q : BlockingQueue) (cutoff : Nat) (v : WorkItem) :
    (Q.push cutoff now v).1.stop = Q.stop := by
  unfold BlockingQueue.push countOffered evictStaleLocked
  dsimp only
  split <;> split <;> rfl

/-- A `pop` stops no queue. -/
theorem Stage.pop_stop (S : Stage) : (S.pop args now).stage.queue.stop = S.queue.stop := by
  unfold Stage.pop
  split
  · rfl
  · split
    · rfl
    · next w rest _ =>
      unfold BlockingQueue.take
      split <;> rfl

/-- A worker stops no queue. -/
theorem Stage.work_stop {S : Stage} {running : Bool} {e : Effect}
    (h : S.work args now running = some e) : e.stage.queue.stop = S.queue.stop := by
  unfold Stage.work at h
  split at h
  case h_3 =>
      cases h
      exact S.pop_stop
  case h_4 =>
      cases h
      exact Stage.pop_stop _
  case h_8 => contradiction
  all_goals
    cases h
    rfl

/-- A worker whose queue is stopped has been notified. -/
theorem Stage.notified_of_stop {S : Stage} (h : S.queue.stop = true) : S.notified = true := by
  unfold Stage.notified
  split
  · rw [h, Bool.or_true]
  · rfl

/-- A push stops no stage. -/
theorem Net.push_stop {setup : Setup} (s : Net) (n k : Node) (v : WorkItem) :
    ((s.push setup n v).line k).stage.queue.stop = (s.line k).stage.queue.stop := by
  by_cases hk : k = n
  · subst hk
    rw [Net.push_line_self]
    exact BlockingQueue.push_stop ..
  · rw [Net.push_line_of_ne s v hk]

/-- A step of a worker ends no run and stops no stage. -/
theorem Net.work_frame {setup : Setup} {s s' : Net} {n : Node} (h : s.work setup n = some s') :
    s'.running = s.running ∧
      ∀ k, (s'.line k).stage.queue.stop = (s.line k).stage.queue.stop := by
  obtain ⟨L, e, hL, hs⟩ := Net.work_cases h
  have hmid : ∀ k, (Function.update s.line n L k).stage.queue.stop =
      (s.line k).stage.queue.stop := by
    obtain ⟨e', he', heq⟩ := Option.map_eq_some_iff.mp hL
    cases heq
    intro k
    by_cases hk : k = n
    · subst hk
      rw [Function.update_self]
      exact Stage.work_stop he'
    · rw [Function.update_of_ne hk]
  obtain ⟨-, rfl⟩ | ⟨w, m, -, -, rfl⟩ := hs
  · exact ⟨rfl, hmid⟩
  · exact ⟨rfl, fun k => (Net.push_stop ..).trans (hmid k)⟩

end Stops

/-! ## who moves what -/

/-- The steps that `main` still has to take. -/
def MainPc.left : MainPc → Nat
  | .launch => 11
  | .join => 10
  | .sleep => 9
  | .halt => 8
  | .stop rest => 2 + rest.length
  | .reap => 1
  | .done _ => 0

/-- The steps that the camera still has to take. -/
def CameraGen.left (c : Config) (g : CameraGen) : Nat :=
  2 * (c.cameraFrameCount - g.frame) + g.held.length + g.sending.length

/-- The scans that the LiDAR still has to release. -/
def LidarGen.left (c : Config) (g : LidarGen) : Nat := c.durationS * 10 - g.scan

/-- The steps that the IMU thread still has to take. -/
def ImuThread.left (c : Config) (t : ImuThread) : Nat :=
  match t.pc with
  | .start => 3 * (c.durationS * 200) + 4
  | .await => 3 * (c.durationS * 200) + 3
  | .publish .. => 3 * (c.durationS * 200 - t.stats.processed) + 2
  | .sleep .. => 3 * (c.durationS * 200 - t.stats.processed) + 1
  | .compute .. => 3 * (c.durationS * 200 - t.stats.processed)
  | .exited => 0

/-- The steps that a worker still has to take once its queue is stopped. -/
def WorkerPc.left : WorkerPc → Nat
  | .popped _ => 4
  | .compute _ => 3
  | .forward _ | .start => 2
  | .loop _ | .pop | .wait _ => 1
  | .exited _ => 0

/-- The steps that a hog still has to take once the run is over. -/
def HogPc.left : HogPc → Nat
  | .busy => 2
  | .loop => 1
  | .exited => 0

/-- A wake-up takes nothing of the way back. -/
theorem WorkerPc.left_notify (pc : WorkerPc) : pc.notify.left = pc.left := by
  cases pc <;> rfl

/-- Once its queue is stopped a worker is on its way back. -/
theorem Stage.work_left {args : StageArgs} {now : Nat} {S : Stage} {e : Effect}
    (hstop : S.queue.stop = true) (h : S.work args now false = some e) :
    e.stage.worker.left < S.worker.left := by
  have hpop : ∀ S : Stage, S.queue.stop = true → (S.pop args now).stage.worker.left = 0 := by
    intro S hstop
    rw [Stage.pop, if_pos hstop]
    rfl
  unfold Stage.work at h
  cases hworker : S.worker <;> rw [hworker] at h
  case pop =>
      cases h
      rw [hpop S hstop]
      decide
  case wait woken =>
      cases h
      exact Nat.lt_of_le_of_lt (Nat.le_of_eq (hpop _ hstop)) (Nat.zero_lt_succ 0)
  case popped w =>
      cases h
      unfold Stage.begin
      dsimp only
      split <;> simp [WorkerPc.left]
  case compute w =>
      cases h
      unfold Stage.finish
      dsimp only
      split <;> simp [WorkerPc.left]
  case exited => contradiction
  all_goals
    cases h
    simp [WorkerPc.left, Stage.register]

/-- A worker that has not returned can go on. -/
theorem Net.work_defined {setup : Setup} {s : Net} {n : Node}
    (h : ∀ last, (s.line n).stage.worker ≠ .exited last) : (s.work setup n).isSome = true := by
  rw [Net.work, Option.isSome_map, Line.work, Option.isSome_map]
  unfold Stage.work
  cases hworker : (s.line n).stage.worker
  case exited last => exact absurd hworker (h last)
  all_goals rfl

/-- Once its queue is stopped a worker is on its way back. -/
theorem Net.work_left {setup : Setup} {s s' : Net} {n : Node} (hrunning : s.running = false)
    (hstop : (s.line n).stage.queue.stop = true) (h : s.work setup n = some s') :
    (s'.line n).stage.worker.left < (s.line n).stage.worker.left := by
  obtain ⟨L, e, hL, hs⟩ := Net.work_cases h
  have hless : (Function.update s.line n L n).stage.worker.left <
      (s.line n).stage.worker.left := by
    obtain ⟨e', he', heq⟩ := Option.map_eq_some_iff.mp hL
    cases heq
    rw [hrunning] at he'
    rw [Function.update_self]
    exact Stage.work_left hstop he'
  obtain ⟨-, rfl⟩ | ⟨w, m, -, -, rfl⟩ := hs
  · exact hless
  · refine Nat.lt_of_le_of_lt (Nat.le_of_eq ?_) hless
    obtain hsame | hwoken := @Net.push_worker setup { s with
      line := Function.update s.line n L, published := s.published ++ e.hints } m n w
    · rw [hsame]
    · rw [hwoken, WorkerPc.left_notify]

namespace Demo

variable {s s' : Demo} {a : Action} {n : Node}

/-- What a step of anybody else leaves alone. -/
structure Frame (a : Action) (s s' : Demo) : Prop where
  now : s.net.now ≤ s'.net.now
  main : a ≠ .main → s'.main = s.main ∧ s'.workloadStart = s.workloadStart ∧
    s'.net.running = s.net.running ∧
    ∀ n, (s'.net.line n).stage.queue.stop = (s.net.line n).stage.queue.stop
  camera : a ≠ .camera → s'.camera = s.camera
  lidar : a ≠ .lidar → s'.lidar = s.lidar
  imu : (∀ first readings, a ≠ .imu first readings) → s'.imu = s.imu
  hog : ∀ i, (∀ readings, a ≠ .hog i readings) → s'.hogs[i]? = s.hogs[i]?
  hogs : s'.hogs.length = s.hogs.length
  worker : ∀ n, (∀ first readings, a ≠ .work n first readings) →
    (s'.net.line n).stage.worker = (s.net.line n).stage.worker ∨
      (s'.net.line n).stage.worker = (s.net.line n).stage.worker.notify

/-- What `main` does besides waiting. -/
structure Moved (s s' : Demo) : Prop where
  now : s'.net.now = s.net.now
  parties : s'.camera = s.camera ∧ s'.lidar = s.lidar ∧ s'.imu = s.imu ∧ s'.hogs = s.hogs
  worker : ∀ n, (s'.net.line n).stage.worker = (s.net.line n).stage.worker
  left : s'.main.left < s.main.left
  rank : s.main.rank ≤ s'.main.rank
  start : s.launched = true → s'.workloadStart = s.workloadStart

/-- **Inversion**: a step of `main` is one of its moves. -/
theorem stepMain_moved (h : s.stepMain c = some s') : Moved s s' := by
  unfold stepMain at h
  cases hmain : s.main <;> rw [hmain] at h <;> dsimp only at h
  case launch =>
      cases h
      refine ⟨rfl, ⟨rfl, rfl, rfl, rfl⟩, fun _ => rfl, ?_, ?_, ?_⟩
      · simp [hmain, MainPc.left]
      · simp [hmain, MainPc.rank]
      · intro hlaunched
        simp [launched, hmain] at hlaunched
  case join =>
      obtain ⟨-, hs⟩ := Option.ite_none_right_eq_some.mp h
      cases hs
      exact ⟨rfl, ⟨rfl, rfl, rfl, rfl⟩, fun _ => rfl, by simp [hmain, MainPc.left],
        by simp [hmain, MainPc.rank], fun _ => rfl⟩
  case sleep =>
      obtain ⟨-, hs⟩ := Option.ite_none_left_eq_some.mp h
      cases hs
      exact ⟨rfl, ⟨rfl, rfl, rfl, rfl⟩, fun _ => rfl, by simp [hmain, MainPc.left],
        by simp [hmain, MainPc.rank], fun _ => rfl⟩
  case halt =>
      cases h
      exact ⟨rfl, ⟨rfl, rfl, rfl, rfl⟩, fun _ => rfl, by simp [hmain, MainPc.left],
        by simp [hmain, MainPc.rank], fun _ => rfl⟩
  case stop rest =>
      cases rest with
      | nil =>
          cases h
          exact ⟨rfl, ⟨rfl, rfl, rfl, rfl⟩, fun _ => rfl, by simp [hmain, MainPc.left],
            by simp [hmain, MainPc.rank], fun _ => rfl⟩
      | cons n rest =>
          cases h
          refine ⟨rfl, ⟨rfl, rfl, rfl, rfl⟩, ?_, ?_, ?_, fun _ => rfl⟩
          · intro k
            by_cases hk : k = n
            · subst hk
              dsimp only
              rw [Function.update_self]
              rfl
            · dsimp only
              rw [Function.update_of_ne hk]
          · rw [hmain]
            exact Nat.lt_succ_self _
          · rw [hmain]
            exact Nat.le_refl _
  case reap =>
      obtain ⟨-, hs⟩ := Option.ite_none_right_eq_some.mp h
      cases hs
      exact ⟨rfl, ⟨rfl, rfl, rfl, rfl⟩, fun _ => rfl, by simp [hmain, MainPc.left],
        by simp [hmain, MainPc.rank], fun _ => rfl⟩
  case done => contradiction

/-- What a step leaves alone, action by action. -/
theorem step_frame (h : step env c s a = some s') : Frame a s s' := by
  cases a with
  | tick d =>
      cases h
      exact ⟨Nat.le_add_right _ _, fun _ => ⟨rfl, rfl, rfl, fun _ => rfl⟩, fun _ => rfl,
        fun _ => rfl, fun _ => rfl, fun _ _ => rfl, rfl, fun _ _ => .inl rfl⟩
  | main =>
      have hmoved := stepMain_moved h
      obtain ⟨hcamera, hlidar, himu, hhogs⟩ := hmoved.parties
      exact ⟨Nat.le_of_eq hmoved.now.symm, fun ha => absurd rfl ha, fun _ => hcamera,
        fun _ => hlidar, fun _ => himu, fun i _ => congrArg (·[i]?) hhogs,
        congrArg List.length hhogs, fun n _ => .inl (hmoved.worker n)⟩
  | camera =>
      obtain ⟨-, hs⟩ := Option.ite_none_right_eq_some.mp h
      obtain ⟨v, rest, -, rfl⟩ | ⟨-, -, -, rfl⟩ := stepCamera_cases hs
      · exact ⟨Nat.le_refl _, fun _ => ⟨rfl, rfl, rfl, fun k => Net.push_stop ..⟩,
          fun ha => absurd rfl ha, fun _ => rfl, fun _ => rfl, fun _ _ => rfl, rfl,
          fun k _ => Net.push_worker ..⟩
      · exact ⟨Nat.le_refl _, fun _ => ⟨rfl, rfl, rfl, fun _ => rfl⟩, fun ha => absurd rfl ha,
          fun _ => rfl, fun _ => rfl, fun _ _ => rfl, rfl, fun _ _ => .inl rfl⟩
  | lidar =>
      obtain ⟨-, hs⟩ := Option.ite_none_right_eq_some.mp h
      obtain ⟨-, -, rfl⟩ := stepLidar_cases hs
      exact ⟨Nat.le_refl _, fun _ => ⟨rfl, rfl, rfl, fun k => Net.push_stop ..⟩, fun _ => rfl,
        fun ha => absurd rfl ha, fun _ => rfl, fun _ _ => rfl, rfl, fun k _ => Net.push_worker ..⟩
  | imu first readings =>
      obtain ⟨published, imu, rfl⟩ := stepImu_net h
      exact ⟨Nat.le_refl _, fun _ => ⟨rfl, rfl, rfl, fun _ => rfl⟩, fun _ => rfl,
        fun _ => rfl, fun ha => absurd rfl (ha first readings), fun _ _ => rfl, rfl,
        fun _ _ => .inl rfl⟩
  | work n first readings =>
      obtain ⟨-, net, hnet, hs⟩ := stepWork_cases h
      obtain ⟨hnow, -⟩ := Net.work_clock hnet
      obtain ⟨hrunning, hstop⟩ := Net.work_frame hnet
      have hworker : ∀ k,
          (∀ first' readings', Action.work n first readings ≠ .work k first' readings') →
          (net.line k).stage.worker = (s.net.line k).stage.worker ∨
            (net.line k).stage.worker = (s.net.line k).stage.worker.notify := by
        intro k hk
        refine Net.work_worker hnet ?_
        rintro rfl
        exact hk first readings rfl
      obtain rfl | ⟨w, meter, -, -, rfl⟩ := hs <;>
        exact ⟨Nat.le_of_eq hnow.symm, fun _ => ⟨rfl, rfl, hrunning, hstop⟩, fun _ => rfl,
          fun _ => rfl, fun _ => rfl, fun _ _ => rfl, rfl, hworker⟩
  | hog i readings =>
      obtain ⟨pc, rfl⟩ := stepHog_hogs h
      have hother : ∀ k, (∀ readings', Action.hog i readings ≠ .hog k readings') →
          (s.hogs.set i pc)[k]? = s.hogs[k]? := by
        intro k hk
        refine List.getElem?_set_ne ?_
        rintro rfl
        exact hk readings rfl
      exact ⟨Nat.le_refl _, fun _ => ⟨rfl, rfl, rfl, fun _ => rfl⟩, fun _ => rfl,
        fun _ => rfl, fun _ => rfl, hother, List.length_set, fun _ _ => .inl rfl⟩

/-! ## the hogs -/

/-- A hog has returned, or was never started. -/
def hogDone (s : Demo) (i : Nat) : Bool := s.hogs[i]?.all (· = .exited)

/-- The steps that a hog still has to take. -/
def hogLeft (s : Demo) (i : Nat) : Nat := (s.hogs[i]?.map HogPc.left).getD 0

/-- All hogs have returned if each of them has. -/
theorem hogs_all_iff : s.hogs.all (· = .exited) = true ↔ ∀ i, s.hogDone i = true := by
  rw [List.all_eq_true]
  constructor
  · intro h i
    unfold hogDone
    cases hi : s.hogs[i]? with
    | none => rfl
    | some pc => exact h pc (List.mem_of_getElem? hi)
  · intro h pc hpc
    obtain ⟨i, hi⟩ := List.mem_iff_getElem?.mp hpc
    have hdone := h i
    rw [hogDone, hi] at hdone
    exact hdone

/-- A hog that has returned makes no step. -/
theorem stepHog_of_done {i : Nat} (h : s.hogDone i = true) (readings : List Nat) :
    s.stepHog i readings = none := by
  unfold hogDone at h
  unfold stepHog
  cases hi : s.hogs[i]? with
  | none => rfl
  | some pc =>
      rw [hi] at h
      have hpc : pc = .exited := of_decide_eq_true h
      rw [hpc]

/-- A hog that has returned stays so. -/
theorem step_hogDone {i : Nat} (hs : step env c s a = some s') (h : s.hogDone i = true) :
    s'.hogDone i = true := by
  have hother : ∀ readings, a ≠ .hog i readings := by
    rintro readings rfl
    rw [step, stepHog_of_done h] at hs
    cases hs
  unfold hogDone
  rw [(step_frame hs).hog i hother]
  exact h

/-- Once the run is over a hog is on its way back. -/
theorem stepHog_left {i : Nat} {readings : List Nat} (hrunning : s.net.running = false)
    (h : s.stepHog i readings = some s') : s'.hogLeft i < s.hogLeft i := by
  have hset : ∀ pc' pc, s.hogs[i]? = some pc' →
      { s with hogs := s.hogs.set i pc }.hogLeft i = pc.left := by
    intro pc' pc hi
    obtain ⟨hlt, -⟩ := List.getElem?_eq_some_iff.mp hi
    simp [hogLeft, hlt]
  unfold stepHog at h
  split at h
  case h_1 hi =>
      cases h
      rw [hset _ _ hi, hrunning]
      simp [hogLeft, hi, HogPc.left]
  case h_2 hi =>
      obtain ⟨-, hs⟩ := Option.ite_none_right_eq_some.mp h
      cases hs
      rw [hset _ _ hi]
      simp [hogLeft, hi, HogPc.left]
  all_goals contradiction

/-! ## the phases of a run -/

/-- What `main` has told the workers, and which threads it has joined. -/
structure Stopping (s : Demo) : Prop where
  halted : 4 ≤ s.main.rank → s.net.running = false
  stopping : ∀ rest, s.main = .stop rest → ∀ n, n ∉ rest →
    (s.net.line n).stage.queue.stop = true
  stopped : 5 ≤ s.main.rank → ∀ n, (s.net.line n).stage.queue.stop = true
  reaped : 6 ≤ s.main.rank → ∀ i, s.hogDone i = true

/-- Before the `halt` it has told them nothing. -/
theorem Stopping.early (h : s.main.rank < 4) : s.Stopping where
  halted hrank := absurd hrank (Nat.not_le_of_lt h)
  stopping rest hrest := absurd h (by simp [hrest, MainPc.rank])
  stopped hrank := absurd hrank (Nat.not_le_of_lt (Nat.lt_succ_of_lt h))
  reaped hrank := absurd hrank (Nat.not_le_of_lt (Nat.lt_succ_of_lt (Nat.lt_succ_of_lt h)))

/-- `main` stops what it has to before it joins it. -/
theorem Stopping.stepMain (h : s.Stopping) (hs : s.stepMain c = some s') : s'.Stopping := by
  unfold Demo.stepMain at hs
  cases hmain : s.main <;> rw [hmain] at hs <;> dsimp only at hs
  case launch =>
      cases hs
      exact .early (by simp [MainPc.rank])
  case join =>
      obtain ⟨-, hs⟩ := Option.ite_none_right_eq_some.mp hs
      cases hs
      exact .early (by simp [MainPc.rank])
  case sleep =>
      obtain ⟨-, hs⟩ := Option.ite_none_left_eq_some.mp hs
      cases hs
      exact .early (by simp [MainPc.rank])
  case halt =>
      cases hs
      refine ⟨fun _ => rfl, ?_, fun hrank => absurd hrank (by simp [MainPc.rank]),
        fun hrank => absurd hrank (by simp [MainPc.rank])⟩
      intro rest hrest n hn
      cases hrest
      exact absurd hn (by cases n <;> simp)
  case stop rest =>
      have hhalted := h.halted (by simp [hmain, MainPc.rank])
      have hstopping := h.stopping rest hmain
      cases rest with
      | nil =>
          cases hs
          exact ⟨fun _ => hhalted, by simp, fun _ n => hstopping n List.not_mem_nil,
            fun hrank => absurd hrank (by simp [MainPc.rank])⟩
      | cons n rest =>
          cases hs
          refine ⟨fun _ => hhalted, ?_, fun hrank => absurd hrank (by simp [MainPc.rank]),
            fun hrank => absurd hrank (by simp [MainPc.rank])⟩
          intro rest' hrest k hk
          cases hrest
          by_cases hkn : k = n
          · subst hkn
            dsimp only
            rw [Function.update_self]
            rfl
          · dsimp only
            rw [Function.update_of_ne hkn]
            exact hstopping k (List.not_mem_cons_of_ne_of_not_mem hkn hk)
  case reap =>
      obtain ⟨⟨-, hhogs⟩, hs⟩ := Option.ite_none_right_eq_some.mp hs
      cases hs
      exact ⟨fun _ => h.halted (by simp [hmain, MainPc.rank]), by simp,
        fun _ => h.stopped (by simp [hmain, MainPc.rank]), fun _ => hogs_all_iff.mp hhogs⟩
  case done => contradiction

/-- What every step keeps. -/
structure Going (env : Env) (c : Config) (s : Demo) : Prop where
  sound : s.Sound env c
  timed : s.Timed env c
  stopping : s.Stopping
  hogs : s.hogs.length = c.hogN

/-- Every step keeps the run going. -/
theorem step_going (env : Env) (c : Config) : Steps.Preserved (step env c) (Going env c) := by
  intro s a s' h hs
  refine ⟨h.sound.step hs, h.timed.step h.sound hs, ?_, (step_frame hs).hogs.trans h.hogs⟩
  by_cases ha : a = .main
  · subst ha
    exact h.stopping.stepMain hs
  · obtain ⟨hmain, -, hrunning, hstop⟩ := (step_frame hs).main ha
    constructor
    case halted =>
        rw [hmain, hrunning]
        exact h.stopping.halted
    case stopping =>
        intro rest hrest n hn
        rw [hstop n]
        exact h.stopping.stopping rest (hmain ▸ hrest) n hn
    case stopped =>
        intro hrank n
        rw [hstop n]
        exact h.stopping.stopped (hmain ▸ hrank) n
    case reaped => exact fun hrank i => step_hogDone hs (h.stopping.reaped (hmain ▸ hrank) i)

/-- Nothing has been launched yet. -/
theorem going_initial (env : Env) (c : Config) : (initial env c).Going env c :=
  ⟨sound_initial env c, timed_initial env c, .early (by simp [initial, MainPc.rank]),
    List.length_replicate⟩

/-- The generators are launched, and the workload is over. -/
structure Late (env : Env) (c : Config) (s : Demo) : Prop extends Going env c s where
  launched : s.launched = true
  ended : s.workloadEnd c ≤ s.net.now

/-- Nobody takes the launch back. -/
theorem step_launched (hs : step env c s a = some s') (h : s.launched = true) :
    s'.launched = true ∧ s'.workloadStart = s.workloadStart := by
  by_cases ha : a = .main
  · subst ha
    have hmoved := stepMain_moved hs
    refine ⟨?_, hmoved.start h⟩
    have hrank := Nat.le_trans (rank_pos h) hmoved.rank
    unfold launched
    cases hmain : s'.main <;> simp [hmain, MainPc.rank] at hrank ⊢
  · obtain ⟨hmain, hstart, -⟩ := (step_frame hs).main ha
    refine ⟨?_, hstart⟩
    unfold launched
    rw [hmain]
    exact h

/-- Time behind the end of the workload stays there. -/
theorem step_late (env : Env) (c : Config) : Steps.Preserved (step env c) (Late env c) := by
  intro s a s' h hs
  obtain ⟨hlaunched, hstart⟩ := step_launched hs h.launched
  refine ⟨step_going env c s a s' h.toGoing hs, hlaunched, ?_⟩
  unfold workloadEnd
  rw [hstart]
  exact Nat.le_trans h.ended (step_frame hs).now

/-! ## the generators -/

/-- Each step of the camera's generator is one less. -/
theorem stepCamera_left (h : s.stepCamera env c = some s') :
    s'.camera.left c < s.camera.left c := by
  obtain ⟨v, rest, hsending, rfl⟩ | ⟨hsending, hlt, -, rfl⟩ := stepCamera_cases h
  · unfold CameraGen.left
    rw [hsending, List.length_cons]
    exact Nat.lt_succ_self _
  · have hframe : s.camera.frame < c.cameraFrameCount :=
      c.lt_cameraFrameCount.mpr (Nat.lt_of_add_lt_add_left hlt)
    unfold CameraGen.left nextFrame
    dsimp only
    rw [hsending]
    split
    · split <;> simp <;> omega
    · simp
      omega

/-- The camera releases what is due before the end. -/
theorem camera_progress (env : Env) (c : Config) : Fair.Progress (step env c) (· = .camera)
    (Late env c) (fun s => s.cameraDone c = true) (fun s => s.camera.left c) where
  stable := step_late env c
  enabled s h hnot := by
    refine ⟨.camera, rfl, ?_⟩
    rw [step, if_pos h.launched]
    unfold stepCamera
    split
    · rfl
    · next hsending =>
      have hlt : s.cameraRelease s.camera.frame < s.workloadEnd c := by
        simpa [cameraDone, hsending] using hnot
      rw [if_pos ⟨hlt, Nat.le_trans (Nat.le_of_lt hlt) h.ended⟩]
      rfl
  keeps s a s' h hnot hs := by
    by_cases ha : a = .camera
    · subst ha
      exact Nat.le_of_lt (stepCamera_left (Option.ite_none_right_eq_some.mp hs).2)
    · rw [(step_frame hs).camera ha]
  falls s a s' h hnot ha hs := by
    subst ha
    exact stepCamera_left (Option.ite_none_right_eq_some.mp hs).2

/-- Each step of the LiDAR's generator is one less. -/
theorem stepLidar_left (h : s.stepLidar env c = some s') : s'.lidar.left c < s.lidar.left c := by
  obtain ⟨hlt, -, rfl⟩ := stepLidar_cases h
  have hscan := Nat.lt_of_add_lt_add_left hlt
  unfold LidarGen.left
  simp only [lidarPeriodNs] at hscan ⊢
  omega

/-- A fair LiDAR generator comes to its end. -/
theorem lidar_progress (env : Env) (c : Config) : Fair.Progress (step env c) (· = .lidar)
    (Late env c) (fun s => s.lidarDone c = true) (fun s => s.lidar.left c) where
  stable := step_late env c
  enabled s h hnot := by
    obtain ⟨hpoints, hlt⟩ : c.lidar.points ≠ 0 ∧ s.lidarRelease s.lidar.scan < s.workloadEnd c := by
      simpa [lidarDone] using hnot
    refine ⟨.lidar, rfl, ?_⟩
    rw [step, if_pos h.launched, stepLidar,
      if_pos ⟨hpoints, hlt, Nat.le_trans (Nat.le_of_lt hlt) h.ended⟩]
    rfl
  keeps s a s' h hnot hs := by
    by_cases ha : a = .lidar
    · subst ha
      exact Nat.le_of_lt (stepLidar_left (Option.ite_none_right_eq_some.mp hs).2)
    · rw [(step_frame hs).lidar ha]
  falls s a s' h hnot ha hs := by
    subst ha
    exact stepLidar_left (Option.ite_none_right_eq_some.mp hs).2

/-! ## the IMU thread -/

/-- Each step of the IMU thread is one less. -/
theorem stepImu_left {first : Nat × Nat} {readings : List Sample}
    (h : s.stepImu env c first readings = some s')
    (hpos : s.imu.At c s.workloadStart s.net.metricsEndNs s.net.now) :
    s'.imu.left c < s.imu.left c := by
  unfold stepImu at h
  unfold ImuThread.At at hpos
  unfold ImuThread.left
  cases hpc : s.imu.pc <;> rw [hpc] at h hpos <;> dsimp only at h hpos ⊢
  case start =>
      cases h
      exact Nat.lt_succ_self _
  case await =>
      obtain ⟨-, hs⟩ := Option.ite_none_left_eq_some.mp h
      cases hs
      show 3 * (c.durationS * 200 - s.imu.stats.processed) + 2 < _
      omega
  case publish seq next =>
      split at h <;> cases h
      · exact Nat.lt_succ_self _
      · exact Nat.zero_lt_succ _
  case sleep seq next =>
      obtain ⟨-, hs⟩ := Option.ite_none_right_eq_some.mp h
      cases hs
      exact Nat.lt_succ_self _
  case compute seq next =>
      obtain ⟨meter, -, rfl⟩ := Option.map_eq_some_iff.mp h
      obtain ⟨-, hlt, -⟩ := hpos
      show 3 * (c.durationS * 200 - (s.imu.stats.processed + 1)) + 2 < _
      omega
  case exited => contradiction

/-- A job that is still to come is due before the end of the workload. -/
theorem imu_release_le {k : Nat} (h : k < c.durationS * 200) :
    k * imuPeriodNs ≤ c.durationS * 1000000000 := by
  simp only [imuPeriodNs]
  omega

/-- A fair IMU thread comes to its end. -/
theorem imu_progress (env : Env) (c : Config) : Fair.Progress (step env c)
    (fun a => ∃ first readings, a = .imu first readings) (Late env c)
    (fun s => s.imu.pc = .exited) (fun s => s.imu.left c) where
  stable := step_late env c
  enabled s h hnot := by
    have hpos := h.timed.imu.position
    have hover := h.ended
    obtain ⟨first, readings, hmeter⟩ := s.imu.meter.measure_defined s.net.metricsEndNs c.imuWorkUs
    refine ⟨.imu first readings, ⟨first, readings, rfl⟩, ?_⟩
    rw [step, stepImu]
    unfold ImuThread.At at hpos
    cases hpc : s.imu.pc <;> rw [hpc] at hpos <;> dsimp only at hpos ⊢
    case start => rfl
    case await =>
        have hstart := (h.timed.phase.epoch (rank_pos h.launched)).1
        rw [if_neg (by omega)]
        rfl
    case publish => split <;> rfl
    case sleep =>
        obtain ⟨rfl, hlt, -⟩ := hpos
        rw [if_pos (Nat.le_trans (Nat.add_le_add_left (imu_release_le hlt) _) hover)]
        rfl
    case compute =>
        rw [Option.isSome_map]
        exact hmeter
    case exited => exact absurd hpc hnot
  keeps s a s' h hnot hs := by
    by_cases ha : ∃ first readings, a = .imu first readings
    · obtain ⟨first, readings, rfl⟩ := ha
      exact Nat.le_of_lt (stepImu_left hs h.timed.imu.position)
    · rw [(step_frame hs).imu fun first readings heq => ha ⟨first, readings, heq⟩]
  falls s a s' h hnot ha hs := by
    obtain ⟨first, readings, rfl⟩ := ha
    exact stepImu_left hs h.timed.imu.position

/-! ## the join -/

/-- The generators and the IMU thread have returned. -/
structure Returned (env : Env) (c : Config) (s : Demo) : Prop extends Late env c s where
  camera : s.cameraDone c = true
  lidar : s.lidarDone c = true
  imu : s.imu.pc = .exited

/-- What has returned does not come back. -/
theorem step_cameraDone (hs : step env c s a = some s') (h : s.launched = true)
    (hdone : s.cameraDone c = true) : s'.cameraDone c = true := by
  have ha : a ≠ .camera := by
    rintro rfl
    rw [step, if_pos h, stepCamera_of_done hdone] at hs
    cases hs
  unfold cameraDone workloadEnd cameraRelease
  rw [(step_frame hs).camera ha, (step_launched hs h).2]
  exact hdone

/-- A generator at its end stays there. -/
theorem step_lidarDone (hs : step env c s a = some s') (h : s.launched = true)
    (hdone : s.lidarDone c = true) : s'.lidarDone c = true := by
  have ha : a ≠ .lidar := by
    rintro rfl
    rw [step, if_pos h, stepLidar_of_done hdone] at hs
    cases hs
  unfold lidarDone workloadEnd lidarRelease
  rw [(step_frame hs).lidar ha, (step_launched hs h).2]
  exact hdone

/-- An IMU thread that has returned stays so. -/
theorem step_imuDone (hs : step env c s a = some s') (hdone : s.imu.pc = .exited) :
    s'.imu.pc = .exited := by
  rw [(step_frame hs).imu, hdone]
  rintro first readings rfl
  rw [step, stepImu, hdone] at hs
  cases hs

/-- Threads that have returned stay so. -/
theorem step_returned (env : Env) (c : Config) : Steps.Preserved (step env c) (Returned env c) :=
  fun s a s' h hs => ⟨step_late env c s a s' h.toLate hs, step_cameraDone hs h.launched h.camera,
    step_lidarDone hs h.launched h.lidar, step_imuDone hs h.imu⟩

/-- `main` never goes back. -/
theorem step_left (hs : step env c s a = some s') : s'.main.left ≤ s.main.left := by
  by_cases ha : a = .main
  · subst ha
    exact Nat.le_of_lt (stepMain_moved hs).left
  · rw [((step_frame hs).main ha).1]

/-- `main` launches the generators. -/
theorem launch_progress (env : Env) (c : Config) : Fair.Progress (step env c) (· = .main)
    (Going env c) (fun s => s.launched = true) (fun s => s.main.left) where
  stable := step_going env c
  enabled s _ hnot := by
    refine ⟨.main, rfl, ?_⟩
    have hmain : s.main = .launch := by simpa [launched] using hnot
    rw [step, stepMain, hmain]
    rfl
  keeps _ _ _ _ _ hs := step_left hs
  falls s a s' _ _ ha hs := by
    subst ha
    exact (stepMain_moved hs).left

/-- Behind its joins `main` stops the queues. -/
theorem stop_progress (env : Env) (c : Config) : Fair.Progress (step env c) (· = .main)
    (Returned env c) (fun s => 5 ≤ s.main.rank) (fun s => s.main.left) where
  stable := step_returned env c
  enabled s h hnot := by
    refine ⟨.main, rfl, ?_⟩
    have hover := h.ended
    rw [step, stepMain]
    cases hmain : s.main <;> rw [hmain] at hnot <;> dsimp only
    case join =>
        rw [if_pos ⟨h.camera, h.lidar, h.imu⟩]
        rfl
    case sleep =>
        rw [if_neg (by omega)]
        rfl
    case stop rest => cases rest <;> rfl
    case reap => exact absurd (Nat.le_refl 5) hnot
    case done => exact absurd (by simp [MainPc.rank]) hnot
    all_goals rfl
  keeps _ _ _ _ _ hs := step_left hs
  falls s a s' _ _ ha hs := by
    subst ha
    exact (stepMain_moved hs).left

/-! ## the workers -/

/-- The queues are stopped. -/
structure Stopped (env : Env) (c : Config) (s : Demo) : Prop extends Going env c s where
  stopped : 5 ≤ s.main.rank

/-- Behind the stops all queues stay stopped. -/
theorem step_stopped (env : Env) (c : Config) : Steps.Preserved (step env c) (Stopped env c) := by
  intro s a s' h hs
  refine ⟨step_going env c s a s' h.toGoing hs, ?_⟩
  by_cases ha : a = .main
  · subst ha
    exact Nat.le_trans h.stopped (stepMain_moved hs).rank
  · rw [((step_frame hs).main ha).1]
    exact h.stopped

/-- Behind the stops no worker goes back, and its own step brings it further. -/
theorem step_worker_left (h : s.Stopped env c) (hs : step env c s a = some s') :
    (s'.net.line n).stage.worker.left ≤ (s.net.line n).stage.worker.left ∧
      ((∃ first readings, a = .work n first readings) →
        (s'.net.line n).stage.worker.left < (s.net.line n).stage.worker.left) := by
  by_cases ha : ∃ first readings, a = .work n first readings
  · obtain ⟨first, readings, rfl⟩ := ha
    obtain ⟨-, net, hnet, hcases⟩ := stepWork_cases hs
    have hless := Net.work_left (h.stopping.halted (Nat.le_of_succ_le h.stopped))
      (h.stopping.stopped h.stopped n) hnet
    have hnetwork : s'.net = net := by
      obtain rfl | ⟨w, meter, -, -, rfl⟩ := hcases <;> rfl
    rw [hnetwork]
    exact ⟨Nat.le_of_lt hless, fun _ => hless⟩
  · refine ⟨Nat.le_of_eq ?_, fun hwork => absurd hwork ha⟩
    obtain hsame | hwoken := (step_frame hs).worker n fun first readings heq =>
      ha ⟨first, readings, heq⟩
    · rw [hsame]
    · rw [hwoken, WorkerPc.left_notify]

/-- Each worker returns. -/
theorem worker_progress (env : Env) (c : Config) (n : Node) : Fair.Progress (step env c)
    (fun a => ∃ first readings, a = .work n first readings) (Stopped env c)
    (fun s => s.joined c n = true) (fun s => (s.net.line n).stage.worker.left) where
  stable := step_stopped env c
  enabled s _ hnot := by
    obtain ⟨hactive, hstays⟩ : c.active n = true ∧
        ∀ last, (s.net.line n).stage.worker ≠ .exited last := by
      unfold joined at hnot
      split at hnot
      · exact absurd rfl hnot
      · next hother => exact ⟨by simpa using hnot, hother⟩
    have hwork := @Net.work_defined (c.setup env) s.net n hstays
    unfold step stepWork
    cases hworker : (s.net.line n).stage.worker
    case compute w =>
        obtain ⟨first, readings, hmeter⟩ :=
          (s.meter n).measure_defined s.net.metricsEndNs (c.computeUs env n w)
        refine ⟨.work n first readings, ⟨first, readings, rfl⟩, ?_⟩
        obtain ⟨meter, hmeter⟩ := Option.isSome_iff_exists.mp hmeter
        obtain ⟨net, hnet⟩ := Option.isSome_iff_exists.mp hwork
        dsimp only
        rw [if_neg (by simp [hactive]), hworker, hnet]
        dsimp only
        rw [hmeter]
        split <;> rfl
    all_goals
      refine ⟨.work n (0, 0) [], ⟨_, _, rfl⟩, ?_⟩
      dsimp only
      rw [if_neg (by simp [hactive]), hworker]
      dsimp only
      rw [Option.isSome_map]
      exact hwork
  keeps _ _ _ h _ hs := (step_worker_left h hs).1
  falls _ _ _ h _ ha hs := (step_worker_left h hs).2 ha

/-- A worker that has returned stays so. -/
theorem step_joined (hs : step env c s a = some s') (h : s.joined c n = true) :
    s'.joined c n = true := by
  unfold joined at h
  split at h
  · next last hworker =>
    have hother : ∀ first readings, a ≠ .work n first readings := by
      rintro first readings rfl
      obtain ⟨-, net, hnet, -⟩ := stepWork_cases hs
      obtain ⟨L, e, hL, -⟩ := Net.work_cases hnet
      rw [Line.work, Stage.work, hworker] at hL
      cases hL
    have hsame : (s'.net.line n).stage.worker = .exited last := by
      obtain hsame | hwoken := (step_frame hs).worker n hother
      · rw [hsame, hworker]
      · rw [hwoken, hworker]
        rfl
    rw [joined, hsame]
  · next hnot =>
    unfold joined
    split
    · rfl
    · exact h

/-- Each hog returns. -/
theorem hog_progress (env : Env) (c : Config) (i : Nat) : Fair.Progress (step env c)
    (fun a => ∃ readings, a = .hog i readings) (Stopped env c) (fun s => s.hogDone i = true)
    (fun s => s.hogLeft i) where
  stable := step_stopped env c
  enabled s _ hnot := by
    refine ⟨.hog i [workNs 20000], ⟨_, rfl⟩, ?_⟩
    unfold hogDone at hnot
    rw [step, stepHog]
    cases hi : s.hogs[i]? with
    | none =>
        rw [hi] at hnot
        exact absurd rfl hnot
    | some pc =>
        cases pc
        case loop => rfl
        case busy =>
            dsimp only
            rw [if_pos (busyWorkUs_defined 20000)]
            rfl
        case exited =>
            rw [hi] at hnot
            exact absurd rfl hnot
  keeps s a s' h _ hs := by
    by_cases ha : ∃ readings, a = .hog i readings
    · obtain ⟨readings, rfl⟩ := ha
      exact Nat.le_of_lt (stepHog_left (h.stopping.halted (Nat.le_of_succ_le h.stopped)) hs)
    · unfold hogLeft
      rw [(step_frame hs).hog i fun readings heq => ha ⟨readings, heq⟩]
  falls s a s' h _ ha hs := by
    obtain ⟨readings, rfl⟩ := ha
    exact stepHog_left (h.stopping.halted (Nat.le_of_succ_le h.stopped)) hs

/-- All workers and all hogs have returned. -/
structure Joined (env : Env) (c : Config) (s : Demo) : Prop extends Stopped env c s where
  joined : ∀ n, s.joined c n = true
  hogsDone : ∀ i, s.hogDone i = true

/-- What has been joined stays so. -/
theorem step_allJoined (env : Env) (c : Config) : Steps.Preserved (step env c) (Joined env c) :=
  fun s a s' h hs => ⟨step_stopped env c s a s' h.toStopped hs,
    fun n => step_joined hs (h.joined n), fun i => step_hogDone hs (h.hogsDone i)⟩

/-- `main` joins the workers and the hogs. -/
theorem finish_progress (env : Env) (c : Config) : Fair.Progress (step env c) (· = .main)
    (Joined env c) (fun s => ∃ t, s.main = .done t) (fun s => s.main.left) where
  stable := step_allJoined env c
  enabled s h hnot := by
    refine ⟨.main, rfl, ?_⟩
    have hstopped := h.stopped
    rw [step, stepMain]
    cases hmain : s.main <;> rw [hmain] at hstopped <;> dsimp only
    case reap =>
        rw [if_pos ⟨List.all_eq_true.mpr fun n _ => h.joined n, hogs_all_iff.mpr h.hogsDone⟩]
        rfl
    case done t => exact absurd ⟨t, hmain⟩ hnot
    all_goals exact absurd hstopped (by simp [MainPc.rank])
  keeps _ _ _ _ _ hs := step_left hs
  falls s a s' _ _ ha hs := by
    subst ha
    exact (stepMain_moved hs).left

/-- `main` is done, and all the threads that it started have returned. -/
structure Finished (c : Config) (s : Demo) : Prop where
  main : ∃ t, s.main = .done t
  camera : s.cameraDone c = true
  lidar : s.lidarDone c = true
  imu : s.imu.pc = .exited
  worker : ∀ n, s.joined c n = true
  hogs : s.hogs = List.replicate c.hogN .exited

/-- Once `main` is done, it has joined them. -/
theorem Going.finished {t : Nat} (h : s.Going env c) (hdone : s.main = .done t) :
    s.Finished c := by
  have hrank : s.main.rank = 6 := by rw [hdone, MainPc.rank]
  obtain ⟨hcamera, hlidar, himu⟩ := h.timed.phase.joined (by omega)
  have hhogs := hogs_all_iff.mpr (h.stopping.reaped (Nat.le_of_eq hrank.symm))
  refine ⟨⟨t, hdone⟩, hcamera, hlidar, himu, h.sound.joined t hdone, ?_⟩
  refine List.eq_replicate_iff.mpr ⟨h.hogs, ?_⟩
  simpa using hhogs

/-! ## runs -/

/-- Nobody is kept from going on, and the clock passes the end of the workload.
A worker that waits on its queue is not promised to go on, unless it has been
notified. -/
structure FairRun (env : Env) (c : Config) (ρ : Fair.Run (step env c)) : Prop where
  main : ρ.WeaklyFair (· = .main)
  camera : ρ.WeaklyFair (· = .camera)
  lidar : ρ.WeaklyFair (· = .lidar)
  imu : ρ.WeaklyFair fun a => ∃ first readings, a = .imu first readings
  work (n : Node) : ρ.WeaklyFairIn (fun s => (s.net.line n).stage.notified = true)
    fun a => ∃ first readings, a = .work n first readings
  hog (i : Nat) : ρ.WeaklyFair fun a => ∃ readings, a = .hog i readings
  clock : ∀ n, ∃ m, n ≤ m ∧ (ρ.state m).workloadEnd c ≤ (ρ.state m).net.now

section Runs

variable {ρ : Fair.Run (step env c)} {k : Nat}

/-- A fair run launches its threads, and its clock passes the end of the workload. -/
theorem run_late (h : FairRun env c ρ) (hstart : (ρ.state 0).Going env c) :
    ∃ k, (ρ.state k).Late env c := by
  obtain ⟨i, -, hlaunched⟩ := (launch_progress env c).reaches h.main hstart
  obtain ⟨k, hk, hover⟩ := h.clock i
  have hlate : (ρ.state k).launched = true :=
    Fair.Run.always_from (P := fun s : Demo => s.launched = true)
      (fun m _ hm => (step_launched (ρ.next m) hm).1) hlaunched hk
  exact ⟨k, Fair.Run.always (step_going env c) hstart (Nat.zero_le k), hlate, hover⟩

/-- The generators and the IMU thread return, in whatever order. -/
theorem run_returned (h : FairRun env c ρ) (hlate : (ρ.state k).Late env c) :
    ∃ m, (ρ.state m).Returned env c := by
  obtain ⟨i, hi, hcamera⟩ := (camera_progress env c).reaches h.camera hlate
  obtain ⟨j, hj, hlidar⟩ :=
    (lidar_progress env c).reaches h.lidar (Fair.Run.always (step_late env c) hlate hi)
  have hlate' := Fair.Run.always (step_late env c) hlate (Nat.le_trans hi hj)
  obtain ⟨m, hm, himu⟩ := (imu_progress env c).reaches h.imu hlate'
  have hlaunched : ∀ l, i ≤ l → (ρ.state l).launched = true := fun l hl =>
    (Fair.Run.always (step_late env c) hlate (Nat.le_trans hi hl)).launched
  have hcamera' : (ρ.state m).cameraDone c = true :=
    Fair.Run.always_from (P := fun s : Demo => s.cameraDone c = true)
      (fun l hl hdone => step_cameraDone (ρ.next l) (hlaunched l hl) hdone) hcamera
      (Nat.le_trans hj hm)
  have hlidar' : (ρ.state m).lidarDone c = true :=
    Fair.Run.always_from (P := fun s : Demo => s.lidarDone c = true)
      (fun l hl hdone => step_lidarDone (ρ.next l) (hlaunched l (Nat.le_trans hj hl)) hdone)
      hlidar hm
  exact ⟨m, Fair.Run.always (step_late env c) hlate' hm, hcamera', hlidar', himu⟩

/-- The workers and the hogs return, in whatever order. -/
theorem run_joined (h : FairRun env c ρ) (hstopped : (ρ.state k).Stopped env c) :
    ∃ m, (ρ.state m).Joined env c := by
  have hstill : ∀ m, k ≤ m → (ρ.state m).Stopped env c :=
    fun m hm => Fair.Run.always (step_stopped env c) hstopped hm
  obtain ⟨i, hi, hworkers⟩ := Fair.Run.gathers (n := k)
    (D := fun n (s : Demo) => s.joined c n = true) [Node.vis, .est, .lpre, .lreg, .map]
    (fun n _ m hm => (worker_progress env c n).reaches_in (h.work n)
      (fun s hs _ => Stage.notified_of_stop (hs.stopping.stopped hs.stopped n)) (hstill m hm))
    (fun n m _ hjoined => step_joined (ρ.next m) hjoined)
  obtain ⟨j, hj, hhogs⟩ := Fair.Run.gathers (n := k) (D := fun i (s : Demo) => s.hogDone i = true)
    (List.range c.hogN)
    (fun i _ m hm => (hog_progress env c i).reaches (h.hog i) (hstill m hm))
    (fun i m _ hdone => step_hogDone (ρ.next m) hdone)
  refine ⟨max i j, hstill _ (Nat.le_trans hi (Nat.le_max_left i j)), ?_, ?_⟩
  · intro n
    exact hworkers _ (Nat.le_max_left i j) n (by cases n <;> simp)
  · intro l
    by_cases hl : l < c.hogN
    · exact hhogs _ (Nat.le_max_right i j) l (List.mem_range.mpr hl)
    · have hlength := (hstill _ (Nat.le_trans hi (Nat.le_max_left i j))).hogs
      rw [hogDone, List.getElem?_eq_none (by omega)]
      rfl

/-- **Termination**: every fair run of the program joins all its threads, and
then every item pushed on a queue is accounted for. -/
theorem fair_run_finishes (h : FairRun env c ρ) (hstart : ρ.state 0 = initial env c) :
    ∃ n, (ρ.state n).Finished c ∧ Conserved (ρ.state n) := by
  have hgoing : (ρ.state 0).Going env c := hstart ▸ going_initial env c
  obtain ⟨i, hlate⟩ := run_late h hgoing
  obtain ⟨j, hreturned⟩ := run_returned h hlate
  obtain ⟨k, hk, hrank⟩ := (stop_progress env c).reaches h.main hreturned
  obtain ⟨l, hjoined⟩ := run_joined h
    ⟨(Fair.Run.always (step_returned env c) hreturned hk).toGoing, hrank⟩
  obtain ⟨n, hn, t, hdone⟩ := (finish_progress env c).reaches h.main hjoined
  have hend := Fair.Run.always (step_allJoined env c) hjoined hn
  exact ⟨n, hend.toGoing.finished hdone, hend.sound.conserved hdone⟩

/-- A run that has joined its threads and lets the time stand still is fair. -/
theorem fair_of_done {s₀ s : Demo} {as : List Action} {t : Nat}
    (has : Steps.exec (step env c) s₀ as = some s) (h : s.Going env c) (hdone : s.main = .done t)
    (hover : s.workloadEnd c ≤ s.net.now) :
    ∃ ρ : Fair.Run (step env c), ρ.state 0 = s₀ ∧ FairRun env c ρ := by
  obtain ⟨ρ, hstart, hend⟩ :=
    Fair.exists_run has (show step env c s (.tick 0) = some s from rfl)
  have hrank : 2 ≤ s.main.rank := by simp [hdone, MainPc.rank]
  obtain ⟨hcamera, hlidar, himu⟩ := h.timed.phase.joined hrank
  have hhogs := h.stopping.reaped (by simp [hdone, MainPc.rank])
  -- whoever is to be treated fairly can do nothing at the end
  have hfair : ∀ kind : Action → Prop, (∀ a, kind a → step env c s a = none) →
      ρ.WeaklyFair kind := by
    intro kind hnone n hcan
    obtain ⟨a, ha, hsome⟩ := hcan (max n as.length) (Nat.le_max_left _ _)
    rw [(hend _ (Nat.le_max_right _ _)).1, hnone a ha] at hsome
    cases hsome
  refine ⟨ρ, hstart, ?_⟩
  constructor
  case main =>
      refine hfair _ ?_
      rintro a rfl
      rw [step, stepMain, hdone]
  case camera =>
      refine hfair _ ?_
      rintro a rfl
      rw [step, stepCamera_of_done hcamera, ite_self]
  case lidar =>
      refine hfair _ ?_
      rintro a rfl
      rw [step, stepLidar_of_done hlidar, ite_self]
  case imu =>
      refine hfair _ ?_
      rintro a ⟨first, readings, rfl⟩
      rw [step, stepImu, himu]
  case work =>
      intro n
      refine (hfair _ ?_).everywhere
      rintro a ⟨first, readings, rfl⟩
      have hjoined := h.sound.joined t hdone n
      cases hstep : step env c s (.work n first readings) with
      | none => rfl
      | some s' =>
          obtain ⟨hactive, net, hnet, -⟩ := stepWork_cases hstep
          unfold joined at hjoined
          split at hjoined
          · next last hworker =>
            obtain ⟨L, e, hL, -⟩ := Net.work_cases hnet
            rw [Line.work, Stage.work, hworker] at hL
            cases hL
          · rw [hactive] at hjoined
            cases hjoined
  case hog =>
      intro i
      refine hfair _ ?_
      rintro a ⟨readings, rfl⟩
      exact stepHog_of_done (hhogs i) readings
  case clock =>
      intro n
      refine ⟨max n as.length, Nat.le_max_left _ _, ?_⟩
      rw [(hend _ (Nat.le_max_right _ _)).1]
      exact hover

set_option maxRecDepth 10000 in
/-- A fair run of one second whose `main` oversleeps its end. -/
theorem fair_run_finishes_overslept :
    ∃ ρ : Fair.Run (step plainEnv oversleptConfig),
      ρ.state 0 = initial plainEnv oversleptConfig ∧
        ∃ n, (ρ.state n).Finished oversleptConfig ∧ Conserved (ρ.state n) := by
  have hrun : ((Steps.exec (step plainEnv oversleptConfig) (initial plainEnv oversleptConfig)
      overslept).any fun s => s.main = .done 2150000000 ∧
        s.workloadEnd oversleptConfig ≤ s.net.now) = true := by
    decide +kernel
  obtain ⟨s, hs, hfacts⟩ := (Option.any_eq_true ..).mp hrun
  obtain ⟨hdone, hover⟩ := of_decide_eq_true hfacts
  have hgoing := (step_going plainEnv oversleptConfig).exec (going_initial _ _) hs
  obtain ⟨ρ, hstart, hfair⟩ := fair_of_done hs hgoing hdone hover
  exact ⟨ρ, hstart, fair_run_finishes hfair hstart⟩

end Runs

end Demo

end ScxSlam.PipelineDemo
