import ScxSlam.PipelineDemo.Conservation

/-!
# ScxSlam.PipelineDemo.Schedule

How many jobs the sensors and the IMU thread of `slam_pipeline_demo` release,
and when: whatever the scheduler does, it is the count that the duration and
the periods give.
-/

namespace ScxSlam.PipelineDemo

/-! ## periods -/

/-- The quotient counts the multiples below `x`. -/
theorem lt_ceilDiv {k x p : Nat} (hp : 0 < p) : k < ceilDiv x p ↔ k * p < x := by
  rw [ceilDiv, ← Nat.succ_le_iff, Nat.le_div_iff_mul_le hp, Nat.succ_mul]
  omega

namespace Config

variable (c : Config)

/-- The length of the workload. -/
def windowNs : Nat := c.durationS * 1000000000

/-- The frames are those that begin within the window. -/
theorem lt_cameraFrameCount {k : Nat} :
    k < c.cameraFrameCount ↔ k * cameraPeriodNs < c.windowNs :=
  lt_ceilDiv (by decide)

end Config

/-! ## the camera -/

/-- The camera has not released more frames than it may; those it has not
pushed are held for the burst, or on their way. -/
structure CameraGen.Sound (c : Config) (now : Nat) (g : CameraGen) : Prop where
  count : g.generated + g.sending.length + g.held.length = g.frame
  bound : g.frame ≤ c.cameraFrameCount
  held : g.held ≠ [] → Demo.inBurst c g.frame = true
  released : ∀ w, w ∈ g.sending ∨ w ∈ g.held → w.tsNs ≤ now

namespace CameraGen

variable {c : Config} {now : Nat} {g : CameraGen}

/-- The generator before its first item. -/
theorem sound_empty (c : Config) (now : Nat) : ({} : CameraGen).Sound c now :=
  ⟨rfl, Nat.zero_le _, fun h => absurd rfl h, by simp⟩

/-- What was stamped in time stays so. -/
theorem Sound.mono {now' : Nat} (h : g.Sound c now) (hle : now ≤ now') : g.Sound c now' :=
  { h with released := fun w hw => (h.released w hw).trans hle }

/-- A frame leaves the burst and is counted. -/
theorem Sound.push {v : WorkItem} {rest : List WorkItem} (h : g.Sound c now)
    (hsending : g.sending = v :: rest) :
    ({ g with sending := rest, generated := g.generated + 1 } : CameraGen).Sound c now where
  count := by
    have hcount := h.count
    rw [hsending, List.length_cons] at hcount
    dsimp only
    omega
  bound := h.bound
  held := h.held
  released w hw := h.released w (hw.imp_left fun hw => hsending ▸ List.mem_cons_of_mem v hw)

/-- The camera is done after the last frame before the end. -/
theorem Sound.done (h : g.Sound c now) (hsending : g.sending = [])
    (hend : c.windowNs ≤ g.frame * cameraPeriodNs) : g.generated = c.cameraFrameCount := by
  have hframe : g.frame = c.cameraFrameCount :=
    h.bound.antisymm (Nat.le_of_not_lt fun hlt => by
      have := c.lt_cameraFrameCount.mp hlt
      omega)
  have hheld : g.held = [] := by
    by_contra hne
    have hin := h.held hne
    simp only [Demo.inBurst, decide_eq_true_eq] at hin
    have hfits := (c.burst_fits hin.1).1
    have hlt : g.frame < c.cameraFrameCount := hin.2.2.trans_lt hfits
    omega
  have hcount := h.count
  rw [hsending, hheld] at hcount
  exact hcount.trans hframe

end CameraGen

/-- The body of the camera's loop releases one more frame. -/
theorem Demo.nextFrame_sound {c : Config} {s : Demo} (h : s.camera.Sound c s.net.now)
    (hsending : s.camera.sending = []) (hlt : s.camera.frame * cameraPeriodNs < c.windowNs)
    (hle : s.cameraRelease s.camera.frame ≤ s.net.now) :
    (s.nextFrame c).Sound c s.net.now := by
  have hcount := h.count
  have hbound := c.lt_cameraFrameCount.mpr hlt
  rw [hsending] at hcount
  unfold nextFrame
  dsimp only
  split
  · next hin =>
    simp only [Demo.inBurst, decide_eq_true_eq] at hin
    split
    · next hlast =>
      constructor
      · simp only [List.length_append, List.length_singleton, List.length_nil] at hcount ⊢
        omega
      · exact hbound
      · exact fun hne => absurd rfl hne
      · intro w hw
        have hw : w ∈ _ ++ [_] := hw.resolve_right (List.not_mem_nil)
        obtain hw | hw := List.mem_append.mp hw
        · exact h.released w (.inr hw)
        · cases List.mem_singleton.mp hw
          exact hle
    · next hlast =>
      constructor
      · simp only [hsending, List.length_append, List.length_singleton, List.length_nil] at hcount ⊢
        omega
      · exact hbound
      · intro _
        simp only [Demo.inBurst, decide_eq_true_eq]
        omega
      · rintro w (hw | hw)
        · exact h.released w (.inl hw)
        · obtain hw | hw := List.mem_append.mp hw
          · exact h.released w (.inr hw)
          · cases List.mem_singleton.mp hw
            exact hle
  · next hout =>
    constructor
    · simp only [List.length_singleton, List.length_nil] at hcount ⊢
      omega
    · exact hbound
    · exact fun hne => absurd (h.held hne) hout
    · rintro w (hw | hw)
      · cases List.mem_singleton.mp hw
        exact hle
      · exact h.released w (.inr hw)

/-! ## the LiDAR -/

structure LidarGen.Sound (c : Config) (g : LidarGen) : Prop where
  count : g.generated = g.scan
  bound : g.scan ≤ c.durationS * 10

/-- One more scan is one more item. -/
theorem LidarGen.Sound.next {c : Config} {g : LidarGen} (h : g.Sound c)
    (hlt : g.scan * lidarPeriodNs < c.windowNs) :
    ({ scan := g.scan + 1, generated := g.generated + 1 } : LidarGen).Sound c where
  count := congrArg (· + 1) h.count
  bound := by
    simp only [lidarPeriodNs, Config.windowNs] at hlt ⊢
    omega

/-- A generator at its end has made ten scans a second. -/
theorem LidarGen.Sound.done {c : Config} {g : LidarGen} (h : g.Sound c)
    (hend : c.windowNs ≤ g.scan * lidarPeriodNs) : g.generated = c.durationS * 10 := by
  have hbound := h.bound
  rw [h.count]
  simp only [lidarPeriodNs, Config.windowNs] at hend
  omega

/-! ## compute calls -/

/-- What a compute call adds to the counters. -/
def CpuStats.call (cutoff : Nat) (stats : CpuStats) (call : Call) : CpuStats where
  cpuNs := stats.cpuNs + call.elapsed
  window := stats.window.add (.run cutoff
    (⟨0, call.first.1, call.first.2⟩ :: usedReadings call.us call.readings) call.elapsed)

/-- A call computed for what it was asked to, up to its last reading. -/
structure Call.Full (call : Call) : Prop where
  asked : workNs call.us ≤ call.elapsed
  last : (usedReadings call.us call.readings).getLast?.map (·.cpuElapsed) = some call.elapsed

/-- The counters of a thread are what its calls add. -/
structure Meter.Sound (cutoff : Nat) (m : Meter) : Prop where
  stats : m.stats = m.calls.foldl (CpuStats.call cutoff) {}
  full : ∀ call ∈ m.calls, call.Full

namespace Meter

variable {cutoff us : Nat} {m m' : Meter} {first : Nat × Nat} {readings : List Sample}

theorem sound_empty (cutoff : Nat) : ({} : Meter).Sound cutoff := ⟨rfl, nofun⟩

/-- A measurement adds its call to those before. -/
theorem measure_calls (h : m.measure cutoff us first readings = some m') :
    ∃ call : Call, call.us = us ∧ m'.calls = m.calls ++ [call] := by
  obtain ⟨⟨elapsed, window⟩, -, rfl⟩ := Option.map_eq_some_iff.mp h
  exact ⟨_, rfl, rfl⟩

/-- A measurement keeps the account of the CPU time. -/
theorem Sound.measure (hs : m.Sound cutoff) (hcutoff : cutoff ≠ 0)
    (h : m.measure cutoff us first readings = some m') : m'.Sound cutoff := by
  obtain ⟨⟨elapsed, window⟩, hwork, rfl⟩ := Option.map_eq_some_iff.mp h
  obtain ⟨hasked, hlast, hwindow⟩ := measuredWorkUs_eq hcutoff hwork
  constructor
  case stats =>
      rw [List.foldl_append, List.foldl_cons, List.foldl_nil, ← hs.stats, hwindow]
      rfl
  case full =>
      intro call hcall
      obtain hcall | hcall := List.mem_append.mp hcall
      · exact hs.full call hcall
      · cases List.mem_singleton.mp hcall
        exact ⟨hasked, hlast⟩

/-- Calls use at least what they are asked for. -/
theorem asked_le {calls : List Call} (hfull : ∀ call ∈ calls, call.Full)
    (hus : ∀ call ∈ calls, call.us = us) :
    calls.length * workNs us ≤ (calls.foldl (CpuStats.call cutoff) {}).cpuNs := by
  induction calls using List.reverseRecOn with
  | nil => simp
  | append_singleton l call ih =>
      have hrest := ih (fun x hx => hfull x (List.mem_append_left _ hx))
        (fun x hx => hus x (List.mem_append_left _ hx))
      have hasked := (hfull call (by simp)).asked
      rw [hus call (by simp)] at hasked
      rw [List.foldl_append, List.foldl_cons, List.foldl_nil, List.length_append,
        List.length_singleton, Nat.add_mul, Nat.one_mul]
      exact Nat.add_le_add hrest hasked

end Meter

/-! ## the IMU thread -/

/-- Before the cutoff a job that is started is completed, but for the one that
is running; after it one more may be left. -/
structure ImuCounted (cutoff now : Nat) (running : Bool) (stats : StageStats) : Prop where
  started : stats.window.started = stats.window.completed + running.toNat ∨
    (cutoff ≤ now ∧ stats.window.started = stats.window.completed + (!running).toNat)
  bound : stats.window.started ≤ stats.processed + running.toNat
  keeps : stats.window.droppedStale = 0
  late : LateCounted stats

/-- The IMU thread is in its next job, and was in all jobs before it. -/
def ImuThread.At (c : Config) (start cutoff now : Nat) (t : ImuThread) : Prop :=
  match t.pc with
  | .start | .await => t.stats = {} ∧ t.meter = {}
  | .publish _ next => next = start + t.stats.processed * imuPeriodNs ∧
      t.stats.processed ≤ c.durationS * 200 ∧ ImuCounted cutoff now false t.stats
  | .sleep _ next => next = start + t.stats.processed * imuPeriodNs ∧
      t.stats.processed < c.durationS * 200 ∧ ImuCounted cutoff now false t.stats
  | .compute _ next => next = start + t.stats.processed * imuPeriodNs ∧
      t.stats.processed < c.durationS * 200 ∧ ImuCounted cutoff now true t.stats
  | .exited => t.stats.processed = c.durationS * 200 ∧ ImuCounted cutoff now false t.stats

structure ImuThread.Sound (env : Env) (c : Config) (start cutoff now : Nat) (t : ImuThread) :
    Prop where
  position : t.At c start cutoff now
  identity : t.pc ≠ .start → t.pidTgid = env.selfImu ∧ t.actualPolicy = some env.policy
  calls : t.meter.calls.length = t.stats.processed ∧ ∀ call ∈ t.meter.calls, call.us = c.imuWorkUs
  meter : cutoff ≠ 0 → t.meter.Sound cutoff

/-- Later nothing of the count changes. -/
theorem ImuCounted.mono {cutoff now now' : Nat} {running : Bool} {stats : StageStats}
    (h : ImuCounted cutoff now running stats) (hle : now ≤ now') :
    ImuCounted cutoff now' running stats :=
  { h with started := h.started.imp_right fun ⟨hcut, heq⟩ => ⟨hcut.trans hle, heq⟩ }

/-- The thread before its first sample. -/
theorem imuCounted_empty (cutoff now : Nat) : ImuCounted cutoff now false {} :=
  ⟨.inl rfl, Nat.zero_le _, rfl, ⟨Nat.le_refl _, Nat.le_refl _, Nat.le_refl _, Nat.le_refl _⟩⟩

section Imu

variable {env : Env} {c : Config} {s s' : Demo} {next : Nat} {first : Nat × Nat}
  {readings : List Sample}

/-- A sample is counted when it is started. -/
theorem ImuCounted.start (h : ImuCounted s.net.metricsEndNs s.net.now false s.imu.stats) :
    ImuCounted s.net.metricsEndNs s.net.now true (s.imuStartStats env next) := by
  obtain ⟨hstarted, hbound, hkeeps, hlate⟩ := h
  unfold Demo.imuStartStats
  cases hinside : insideWindow s.net.metricsEndNs s.net.now with
  | true =>
      refine ⟨.inl ?_, ?_, hkeeps, ⟨hlate.1, hlate.2, hlate.3, hlate.4⟩⟩
      · have hlt : s.net.now < s.net.metricsEndNs := by
          simp only [insideWindow, Bool.and_eq_true, decide_eq_true_eq] at hinside
          exact hinside.2
        simp only [Bool.toNat_true, Bool.toNat_false, Bool.not_false] at hstarted ⊢
        omega
      · exact Nat.add_le_add_right hbound 1
  | false =>
      have hle := le_of_not_inside hinside
      refine ⟨?_, ?_, hkeeps, ⟨hlate.1, hlate.2, hlate.3, hlate.4⟩⟩
      · simp only [Bool.toNat_true, Bool.toNat_false, Bool.not_false, Bool.not_true] at hstarted ⊢
        omega
      · simp only [Bool.toNat_true, Bool.toNat_false] at hbound ⊢
        omega

/-- A sample is counted when it is finished. -/
theorem ImuCounted.finish (h : ImuCounted s.net.metricsEndNs s.net.now true s.imu.stats) :
    ImuCounted s.net.metricsEndNs s.net.now false (s.imuFinishStats env next) := by
  obtain ⟨hstarted, hbound, hkeeps, hlate⟩ := h
  refine ⟨?_, ?_, hkeeps, hlate.finish rfl rfl rfl rfl⟩
  · unfold Demo.imuFinishStats
    cases hinside : insideWindow s.net.metricsEndNs s.net.now with
    | true =>
        have hlt : s.net.now < s.net.metricsEndNs := by
          simp only [insideWindow, Bool.and_eq_true, decide_eq_true_eq] at hinside
          exact hinside.2
        simp only [Bool.toNat_true, Bool.toNat_false, Bool.not_false, Bool.not_true] at hstarted ⊢
        omega
    | false =>
        have hle := le_of_not_inside hinside
        simp only [Bool.toNat_true, Bool.toNat_false, Bool.not_false, Bool.not_true] at hstarted ⊢
        omega
  · exact hbound

/-- What was stamped in time stays so. -/
theorem ImuThread.Sound.mono {start cutoff now now' : Nat} {t : ImuThread}
    (h : t.Sound env c start cutoff now) (hle : now ≤ now') : t.Sound env c start cutoff now' := by
  refine { h with position := ?_ }
  have hpos := h.position
  unfold ImuThread.At at hpos ⊢
  cases hpc : t.pc <;> rw [hpc] at hpos <;> dsimp only at hpos ⊢
  case start => exact hpos
  case await => exact hpos
  case exited => exact ⟨hpos.1, hpos.2.mono hle⟩
  all_goals exact ⟨hpos.1, hpos.2.1, hpos.2.2.mono hle⟩

/-- What the IMU thread is after its step. -/
theorem ImuThread.Sound.step
    (h : s.imu.Sound env c s.workloadStart s.net.metricsEndNs s.net.now)
    (hstep : s.stepImu env c first readings = some s') :
    s'.imu.Sound env c s.workloadStart s.net.metricsEndNs s.net.now := by
  obtain ⟨hpos, hid, hcalls, hmeter⟩ := h
  unfold ImuThread.At at hpos
  unfold Demo.stepImu at hstep
  cases hpc : s.imu.pc with
  | start =>
      rw [hpc] at hpos hstep
      cases hstep
      exact ⟨hpos, fun _ => ⟨rfl, rfl⟩, hcalls, hmeter⟩
  | await =>
      rw [hpc] at hpos hstep
      obtain ⟨-, hs⟩ := Option.ite_none_left_eq_some.mp hstep
      cases hs
      refine ⟨?_, fun _ => hid (by simp [hpc]), hcalls, hmeter⟩
      unfold ImuThread.At
      dsimp only
      rw [hpos.1]
      exact ⟨by simp, Nat.zero_le _, imuCounted_empty ..⟩
  | publish seq next =>
      rw [hpc] at hpos hstep
      obtain ⟨hnext, hle, hcounted⟩ := hpos
      have hid := hid (by simp [hpc])
      dsimp only at hstep
      split at hstep
      · next hlt =>
        cases hstep
        refine ⟨⟨hnext, ?_, hcounted⟩, fun _ => hid, hcalls, hmeter⟩
        simp only [Demo.workloadEnd, imuPeriodNs] at hlt hnext
        dsimp only
        omega
      · next hge =>
        cases hstep
        refine ⟨⟨?_, hcounted⟩, fun _ => hid, hcalls, hmeter⟩
        simp only [Demo.workloadEnd, imuPeriodNs] at hge hnext
        dsimp only
        omega
  | sleep seq next =>
      rw [hpc] at hpos hstep
      obtain ⟨-, hs⟩ := Option.ite_none_right_eq_some.mp hstep
      cases hs
      obtain ⟨hnext, hlt, hcounted⟩ := hpos
      exact ⟨⟨hnext, hlt, hcounted.start⟩, fun _ => hid (by simp [hpc]), hcalls, hmeter⟩
  | compute seq next =>
      rw [hpc] at hpos hstep
      obtain ⟨hnext, hlt, hcounted⟩ := hpos
      obtain ⟨meter, hmeasure, rfl⟩ := Option.map_eq_some_iff.mp hstep
      obtain ⟨call, hus, hcalls'⟩ := Meter.measure_calls hmeasure
      refine ⟨⟨?_, hlt, hcounted.finish⟩, fun _ => hid (by simp [hpc]), ⟨?_, ?_⟩, ?_⟩
      · simp only [Demo.imuFinishStats, Nat.add_mul, Nat.one_mul]
        omega
      · simp [hcalls', hcalls.1, Demo.imuFinishStats]
      · intro x hx
        rw [hcalls'] at hx
        obtain hx | hx := List.mem_append.mp hx
        · exact hcalls.2 x hx
        · rw [List.mem_singleton.mp hx]
          exact hus
      · exact fun hcutoff => (hmeter hcutoff).measure hcutoff hmeasure
  | exited =>
      rw [hpc] at hstep
      contradiction

end Imu

/-! ## the stages -/

/-- No item is from the future, and the focus job was done after its release. -/
structure Stage.Timely (now : Nat) (S : Stage) : Prop where
  queued : ∀ w ∈ S.queue.q, w.tsNs ≤ now
  held : ∀ w ∈ S.worker.holds?, w.tsNs ≤ now
  focus : S.stats.focusReleaseNs ≤ S.stats.focusCompletionNs

namespace Stage.Timely

variable {args : StageArgs} {now : Nat} {S : Stage}

/-- What was stamped in time stays so. -/
theorem mono {now' : Nat} (h : S.Timely now) (hle : now ≤ now') : S.Timely now' where
  queued w hw := (h.queued w hw).trans hle
  held w hw := (h.held w hw).trans hle
  focus := h.focus

/-- An item that was stamped in time may be pushed. -/
theorem push {v : WorkItem} (h : S.Timely now) (hv : v.tsNs ≤ now) :
    (S.push args now v).stage.Timely now where
  queued w hw := by
    simp only [Stage.push, BlockingQueue.push_q, BlockingQueue.survivors_eq] at hw
    obtain hw | hw := List.mem_append.mp hw
    · exact h.queued w (List.mem_filter.mp hw).1
    · cases List.mem_singleton.mp hw
      exact hv
  held w hw := by
    refine h.held w ?_
    simp only [Stage.push] at hw
    cases hworker : S.worker <;> rw [hworker] at hw <;> exact hw
  focus := h.focus

/-- Items that wait are stamped in time. -/
theorem pop (h : S.Timely now) : (S.pop args now).stage.Timely now := by
  unfold Stage.pop
  split
  · exact ⟨h.queued, nofun, h.focus⟩
  · split
    · exact ⟨h.queued, nofun, h.focus⟩
    · next w rest hq =>
      refine ⟨?_, ?_, h.focus⟩
      · intro x hx
        have hx : x ∈ rest := by simpa [BlockingQueue.take] using hx
        exact h.queued x (hq ▸ List.mem_cons_of_mem w hx)
      · intro x hx
        cases hx
        exact h.queued w (hq ▸ List.mem_cons_self ..)

/-- A stage sends on the stamps of what it was given. -/
theorem work {running : Bool} {e : Effect} (h : S.Timely now)
    (hwork : S.work args now running = some e) :
    e.stage.Timely now ∧ ∀ w ∈ e.out, w.tsNs ≤ now := by
  unfold Stage.work at hwork
  have hheld := h.held
  cases hworker : S.worker <;> rw [hworker] at hwork hheld
  case start =>
      cases hwork
      exact ⟨⟨h.queued, nofun, h.focus⟩, nofun⟩
  case loop last =>
      cases hwork
      refine ⟨⟨h.queued, ?_, h.focus⟩, nofun⟩
      cases running
      · exact hheld
      · nofun
  case pop =>
      cases hwork
      refine ⟨h.pop, ?_⟩
      rw [(@Stage.flow_pop args now S).1]
      nofun
  case wait woken =>
      cases hwork
      have hresume : Timely now { S with queue := { S.queue with waiting := false } } :=
        ⟨h.queued, h.held, h.focus⟩
      refine ⟨hresume.pop, ?_⟩
      unfold Stage.resume
      rw [(@Stage.flow_pop args now _).1]
      nofun
  case popped w =>
      cases hwork
      refine ⟨⟨h.queued, ?_, h.focus⟩, nofun⟩
      intro x hx
      refine hheld x ?_
      unfold Stage.begin at hx
      dsimp only at hx
      split at hx <;> exact hx
  case compute w =>
      cases hwork
      refine ⟨⟨h.queued, ?_, ?_⟩, nofun⟩
      · intro x hx
        refine hheld x ?_
        unfold Stage.finish at hx
        dsimp only at hx
        split at hx <;> exact hx
      · have hw := hheld w rfl
        have hfocus := h.focus
        unfold Stage.finish Stage.finishStats
        dsimp only
        split <;> split <;> assumption
  case forward w =>
      cases hwork
      exact ⟨⟨h.queued, hheld, h.focus⟩, hheld⟩
  case exited => contradiction

end Stage.Timely

/-! ## the whole program -/

/-- How far `main` is. -/
def MainPc.rank : MainPc → Nat
  | .launch => 0
  | .join => 1
  | .sleep => 2
  | .halt => 3
  | .stop _ => 4
  | .reap => 5
  | .done _ => 6

/-- Nobody has anything to do yet. -/
structure Demo.Idle (s : Demo) : Prop where
  start : s.workloadStart = 0
  camera : s.camera = {}
  lidar : s.lidar = {}
  imu : s.imu.pc = .start ∨ s.imu.pc = .await
  meter : ∀ n, s.meter n = {}

/-- Nothing is timed before the launch, and nothing is released after the
joins. -/
structure Demo.Phase (c : Config) (s : Demo) : Prop where
  launch : s.main.rank = 0 → s.Idle
  epoch : 1 ≤ s.main.rank → 0 < s.workloadStart ∧
    (c.windowStats = true → s.net.metricsEndNs = s.workloadStart + c.windowNs)
  joined : 2 ≤ s.main.rank →
    s.cameraDone c = true ∧ s.lidarDone c = true ∧ s.imu.pc = .exited
  ended : 3 ≤ s.main.rank → c.windowStats = true → s.workloadEnd c ≤ s.net.now
  finished : ∀ t, s.main = .done t → c.windowStats = true → s.workloadEnd c ≤ t

/-- Every party keeps to its schedule. -/
structure Demo.Timed (env : Env) (c : Config) (s : Demo) : Prop where
  phase : s.Phase c
  camera : s.camera.Sound c s.net.now
  lidar : s.lidar.Sound c
  imu : s.imu.Sound env c s.workloadStart s.net.metricsEndNs s.net.now
  meter : ∀ n, s.net.metricsEndNs ≠ 0 → (s.meter n).Sound s.net.metricsEndNs
  stage : ∀ n, (s.net.line n).stage.Timely s.net.now

namespace Net

variable {setup : Setup} {s s' : Net} {n : Node}

/-- Pushing to one stage leaves the others alone. -/
theorem push_timely {v : WorkItem} (h : ∀ k, (s.line k).stage.Timely s.now) (hv : v.tsNs ≤ s.now)
    (k : Node) : ((s.push setup n v).line k).stage.Timely s.now := by
  by_cases hk : k = n
  · subst hk
    rw [push_line_self]
    exact (h k).push hv
  · rw [push_line_of_ne s v hk]
    exact h k

/-- A step of one stage's worker keeps all of them timely. -/
theorem work_timely (h : ∀ k, (s.line k).stage.Timely s.now) (hwork : s.work setup n = some s')
    (k : Node) : (s'.line k).stage.Timely s.now := by
  obtain ⟨L, e, hL, hs⟩ := work_cases hwork
  obtain ⟨hstage, hout⟩ : L.stage.Timely s.now ∧ ∀ w ∈ e.out, w.tsNs ≤ s.now := by
    obtain ⟨e', he', heq⟩ := Option.map_eq_some_iff.mp hL
    cases heq
    exact (h n).work he'
  have hmid : ∀ k, (Function.update s.line n L k).stage.Timely s.now := by
    intro k
    by_cases hk : k = n
    · subst hk
      rw [Function.update_self]
      exact hstage
    · rw [Function.update_of_ne hk]
      exact h k
  obtain ⟨-, rfl⟩ | ⟨w, m, hw, -, rfl⟩ := hs
  · exact hmid k
  · let mid : Net := {
      s with line := Function.update s.line n L, published := s.published ++ e.hints }
    exact @push_timely setup mid m w hmid (hout w hw) k

end Net

namespace Demo

variable {env : Env} {c : Config} {s s' : Demo}

/-- Nothing has been stamped yet. -/
theorem timed_initial (env : Env) (c : Config) : (initial env c).Timed env c where
  phase := ⟨fun _ => ⟨rfl, rfl, rfl, .inl rfl, fun _ => rfl⟩, nofun, nofun, nofun, nofun⟩
  camera := CameraGen.sound_empty ..
  lidar := ⟨rfl, Nat.zero_le _⟩
  imu := ⟨⟨rfl, rfl⟩, fun h => absurd rfl h, ⟨rfl, nofun⟩, fun _ => Meter.sound_empty _⟩
  meter _ _ := Meter.sound_empty _
  stage _ := ⟨nofun, nofun, Nat.le_refl _⟩

/-- The generators run once `main` has launched them. -/
theorem rank_pos (h : s.launched = true) : 1 ≤ s.main.rank := by
  unfold launched at h
  cases hmain : s.main <;> simp [hmain, MainPc.rank] at h ⊢

/-- Once it is joined, a generator has nothing left to do. -/
theorem stepCamera_of_done (h : s.cameraDone c = true) : s.stepCamera env c = none := by
  simp only [cameraDone, decide_eq_true_eq] at h
  unfold stepCamera
  rw [h.1]
  exact if_neg (by omega)

/-- A generator at its end makes no step. -/
theorem stepLidar_of_done (h : s.lidarDone c = true) : s.stepLidar env c = none := by
  simp only [lidarDone, decide_eq_true_eq] at h
  exact if_neg (by omega)

/-- A step of a party other than `main`. -/
theorem Phase.keep {t : Demo} (h : s.Phase c) (hmain : t.main = s.main)
    (hstart : t.workloadStart = s.workloadStart)
    (hend : t.net.metricsEndNs = s.net.metricsEndNs) (hnow : s.net.now ≤ t.net.now)
    (hlaunch : s.main.rank = 0 → t.Idle)
    (hjoined : 2 ≤ s.main.rank → t.camera = s.camera ∧ t.lidar = s.lidar ∧ t.imu = s.imu) :
    t.Phase c where
  launch hrank := hlaunch (hmain ▸ hrank)
  epoch hrank := by
    rw [hstart, hend]
    exact h.epoch (hmain ▸ hrank)
  joined hrank := by
    obtain ⟨hcamera, hlidar, himu⟩ := hjoined (hmain ▸ hrank)
    simp only [cameraDone, lidarDone, workloadEnd, cameraRelease, lidarRelease, hstart, hcamera,
      hlidar, himu]
    exact h.joined (hmain ▸ hrank)
  ended hrank hwindow := by
    simp only [workloadEnd, hstart]
    exact (h.ended (hmain ▸ hrank) hwindow).trans hnow
  finished f hdone hwindow := by
    simp only [workloadEnd, hstart]
    exact h.finished f (hmain ▸ hdone) hwindow

/-- Time passes. -/
theorem Timed.tick (h : s.Timed env c) (d : Nat) :
    Timed env c { s with net := { s.net with now := s.net.now + d } } where
  phase := h.phase.keep rfl rfl rfl (Nat.le_add_right ..)
    (fun hzero => { h.phase.launch hzero with }) fun _ => ⟨rfl, rfl, rfl⟩
  camera := h.camera.mono (Nat.le_add_right ..)
  lidar := h.lidar
  imu := h.imu.mono (Nat.le_add_right ..)
  meter := h.meter
  stage n := (h.stage n).mono (Nat.le_add_right ..)

/-- The camera's generator makes a step. -/
theorem Timed.stepCamera (h : s.Timed env c) (hlaunched : s.launched = true)
    (hstep : s.stepCamera env c = some s') : s'.Timed env c := by
  have hrank := rank_pos hlaunched
  have hrunning : ¬ 2 ≤ s.main.rank := by
    intro hjoined
    rw [stepCamera_of_done (h.phase.joined hjoined).1] at hstep
    contradiction
  have hzero : s.main.rank ≠ 0 := by omega
  obtain ⟨v, rest, hsending, rfl⟩ | ⟨hsending, hlt, hle, rfl⟩ := stepCamera_cases hstep
  · refine ⟨h.phase.keep rfl rfl rfl (Nat.le_refl _) (absurd · hzero) (absurd · hrunning),
      h.camera.push hsending, h.lidar, h.imu, h.meter, ?_⟩
    have hreleased := h.camera.released v (.inl (hsending ▸ List.mem_cons_self ..))
    exact @Net.push_timely (c.setup env) s.net .vis v h.stage hreleased
  · refine ⟨h.phase.keep rfl rfl rfl (Nat.le_refl _) (absurd · hzero) (absurd · hrunning),
      nextFrame_sound h.camera hsending ?_ hle, h.lidar, h.imu, h.meter, h.stage⟩
    exact Nat.lt_of_add_lt_add_left hlt

/-- The LiDAR's generator makes a step. -/
theorem Timed.stepLidar (h : s.Timed env c) (hlaunched : s.launched = true)
    (hstep : s.stepLidar env c = some s') : s'.Timed env c := by
  have hrank := rank_pos hlaunched
  have hrunning : ¬ 2 ≤ s.main.rank := by
    intro hjoined
    rw [stepLidar_of_done (h.phase.joined hjoined).2.1] at hstep
    contradiction
  have hzero : s.main.rank ≠ 0 := by omega
  obtain ⟨hlt, hle, rfl⟩ := stepLidar_cases hstep
  refine ⟨h.phase.keep rfl rfl rfl (Nat.le_refl _) (absurd · hzero) (absurd · hrunning),
    h.camera, h.lidar.next (Nat.lt_of_add_lt_add_left hlt), h.imu, h.meter, ?_⟩
  exact @Net.push_timely (c.setup env) s.net .lpre
    { seq := s.lidar.scan + 1, tsNs := s.lidarRelease s.lidar.scan } h.stage hle

/-- The IMU thread makes a step. -/
theorem Timed.stepImu {first : Nat × Nat} {readings : List Sample} (h : s.Timed env c)
    (hstep : s.stepImu env c first readings = some s') : s'.Timed env c := by
  have himu := h.imu.step hstep
  have hrunning : ¬ 2 ≤ s.main.rank := by
    intro hjoined
    rw [Demo.stepImu, (h.phase.joined hjoined).2.2] at hstep
    contradiction
  have hearly : s.main.rank = 0 → s'.imu.pc = .start ∨ s'.imu.pc = .await := by
    intro hzero
    have hidle := h.phase.launch hzero
    unfold Demo.stepImu at hstep
    obtain hpc | hpc := hidle.imu <;> rw [hpc] at hstep <;> dsimp only at hstep
    · cases hstep
      exact .inr rfl
    · rw [if_pos hidle.start] at hstep
      contradiction
  obtain ⟨published, imu, rfl⟩ := stepImu_net hstep
  exact ⟨h.phase.keep rfl rfl rfl (Nat.le_refl _)
    (fun hzero => { h.phase.launch hzero with imu := hearly hzero }) (absurd · hrunning),
    h.camera, h.lidar, himu, h.meter, h.stage⟩

/-- A stage's worker makes a step. -/
theorem Timed.stepWork {n : Node} {first : Nat × Nat} {readings : List Sample}
    (h : s.Timed env c) (hsound : s.Sound env c)
    (hstep : s.stepWork env c n first readings = some s') : s'.Timed env c := by
  obtain ⟨-, net, hwork, hs⟩ := stepWork_cases hstep
  obtain ⟨hnow, hend⟩ := Net.work_clock hwork
  have hstage := Net.work_timely h.stage hwork
  have hkeep : ∀ meter, (s.main.rank = 0 → ∀ n, meter n = {}) →
      (∀ n, s.net.metricsEndNs ≠ 0 → (meter n).Sound s.net.metricsEndNs) →
      Timed env c { s with net := net, meter := meter } := by
    intro meter hzero hmeter
    refine ⟨h.phase.keep rfl rfl hend hnow.ge
      (fun hrank => { h.phase.launch hrank with meter := hzero hrank }) fun _ => ⟨rfl, rfl, rfl⟩,
      ?_, h.lidar, ?_, ?_, ?_⟩
    · exact hnow ▸ h.camera
    · exact hnow ▸ hend ▸ h.imu
    · exact hend ▸ hmeter
    · exact hnow ▸ hstage
  obtain rfl | ⟨w, meter, hworker, hmeasure, rfl⟩ := hs
  · exact hkeep s.meter (fun hrank => (h.phase.launch hrank).meter) h.meter
  · refine hkeep _ (fun hrank => ?_) fun k hcutoff => ?_
    · -- nothing is computed before the launch
      have hlaunch : s.main = .launch := by
        cases hmain : s.main <;> simp [hmain, MainPc.rank] at hrank ⊢
      have hworking := hsound.net.working_of_fresh (hsound.fresh hlaunch) n
      rw [hworker] at hworking
      contradiction
    · by_cases hk : k = n
      · subst hk
        rw [Function.update_self]
        exact (h.meter k hcutoff).measure hcutoff hmeasure
      · rw [Function.update_of_ne hk]
        exact h.meter k hcutoff

/-- The launch sets the epoch, before anybody has done anything. -/
theorem Timed.launch (h : s.Timed env c) (hmain : s.main = .launch)
    (hstep : s.stepMain c = some s') : s'.Timed env c := by
  unfold Demo.stepMain at hstep
  rw [hmain] at hstep
  cases hstep
  have hidle := h.phase.launch (by rw [hmain]; rfl)
  constructor
  case phase =>
      refine ⟨nofun, fun _ => ⟨by dsimp only; omega, fun hwindow => if_pos hwindow⟩, ?_, ?_,
        nofun⟩
      · exact fun hrank => absurd hrank (by simp [MainPc.rank])
      · exact fun hrank => absurd hrank (by simp [MainPc.rank])
  case camera =>
      dsimp only
      rw [hidle.camera]
      exact CameraGen.sound_empty ..
  case lidar => exact h.lidar
  case imu =>
      have hpos := h.imu.position
      refine ⟨?_, h.imu.identity, h.imu.calls, fun _ => ?_⟩
      · unfold ImuThread.At at hpos ⊢
        obtain hpc | hpc := hidle.imu <;> rw [hpc] at hpos ⊢ <;> exact hpos
      · have hmeter : s.imu.meter = {} := by
          unfold ImuThread.At at hpos
          obtain hpc | hpc := hidle.imu <;> rw [hpc] at hpos <;> exact hpos.2
        dsimp only
        rw [hmeter]
        exact Meter.sound_empty _
  case meter =>
      intro n _
      dsimp only
      rw [hidle.meter n]
      exact Meter.sound_empty _
  case stage => exact h.stage

/-- Behind the sleep `main` only moves on. -/
theorem Phase.behind (h : s.Phase c) {net : Net} {pc : MainPc} (hrank : 3 ≤ s.main.rank)
    (hnow : net.now = s.net.now) (hend : net.metricsEndNs = s.net.metricsEndNs)
    (hpc : pc.rank ≠ 0) (hdone : ∀ f, pc = .done f → f = s.net.now) :
    Phase c { s with net := net, main := pc } where
  launch hzero := absurd hzero hpc
  epoch _ := by
    dsimp only
    rw [hend]
    exact h.epoch (by omega)
  joined _ := h.joined (by omega)
  ended _ hwindow := by
    dsimp only
    rw [hnow]
    exact h.ended hrank hwindow
  finished f hf hwindow := by
    rw [hdone f hf]
    exact h.ended hrank hwindow

/-- A step of `main` behind the joins of the generators. -/
theorem Timed.behind (h : s.Timed env c) {pc : MainPc} (hrank : 3 ≤ s.main.rank)
    (hpc : pc.rank ≠ 0) (hdone : ∀ f, pc = .done f → f = s.net.now) :
    Timed env c { s with main := pc } where
  phase := h.phase.behind hrank rfl rfl hpc hdone
  camera := h.camera
  lidar := h.lidar
  imu := h.imu
  meter := h.meter
  stage := h.stage

/-- A step of `main`. -/
theorem Timed.stepMain (h : s.Timed env c) (hstep : s.stepMain c = some s') :
    s'.Timed env c := by
  have hfrom := hstep
  unfold Demo.stepMain at hstep
  cases hmain : s.main <;> rw [hmain] at hstep <;> dsimp only at hstep
  case launch => exact h.launch hmain hfrom
  case join =>
      obtain ⟨hjoined, hs⟩ := Option.ite_none_right_eq_some.mp hstep
      cases hs
      have hepoch := h.phase.epoch (by simp [hmain, MainPc.rank])
      exact ⟨⟨nofun, fun _ => hepoch, fun _ => hjoined,
        fun hrank => absurd hrank (by simp [MainPc.rank]), nofun⟩,
        h.camera, h.lidar, h.imu, h.meter, h.stage⟩
  case sleep =>
      obtain ⟨hslept, hs⟩ := Option.ite_none_left_eq_some.mp hstep
      cases hs
      have hepoch := h.phase.epoch (by simp [hmain, MainPc.rank])
      have hjoined := h.phase.joined (by simp [hmain, MainPc.rank])
      refine ⟨⟨nofun, fun _ => hepoch, fun _ => hjoined, fun _ hwindow => ?_, nofun⟩,
        h.camera, h.lidar, h.imu, h.meter, h.stage⟩
      exact Nat.le_of_not_lt fun hlt => hslept ⟨hwindow, hlt⟩
  case halt =>
      cases hstep
      have hrank : 3 ≤ s.main.rank := by simp [hmain, MainPc.rank]
      exact ⟨h.phase.behind hrank rfl rfl (by simp [MainPc.rank]) nofun,
        h.camera, h.lidar, h.imu, h.meter, h.stage⟩
  case stop rest =>
      have hrank : 3 ≤ s.main.rank := by simp [hmain, MainPc.rank]
      cases rest with
      | nil =>
          cases hstep
          exact h.behind hrank (by simp [MainPc.rank]) nofun
      | cons n rest =>
          cases hstep
          refine ⟨h.phase.behind hrank rfl rfl (by simp [MainPc.rank]) nofun,
            h.camera, h.lidar, h.imu, h.meter, fun k => ?_⟩
          have hk := h.stage k
          by_cases hkn : k = n
          · subst hkn
            dsimp only
            rw [Function.update_self]
            exact ⟨hk.queued, hk.held, hk.focus⟩
          · dsimp only
            rw [Function.update_of_ne hkn]
            exact hk
  case reap =>
      obtain ⟨-, hs⟩ := Option.ite_none_right_eq_some.mp hstep
      cases hs
      refine h.behind (by simp [hmain, MainPc.rank]) (by simp [MainPc.rank]) fun f hf => ?_
      cases hf
      rfl
  case done => contradiction

/-- Every step keeps the times. -/
theorem Timed.step {a : Action} (h : s.Timed env c) (hsound : s.Sound env c)
    (hstep : Demo.step env c s a = some s') : s'.Timed env c := by
  cases a with
  | tick d =>
      cases hstep
      exact h.tick d
  | main => exact h.stepMain hstep
  | camera =>
      obtain ⟨hlaunched, hs⟩ := Option.ite_none_right_eq_some.mp hstep
      exact h.stepCamera hlaunched hs
  | lidar =>
      obtain ⟨hlaunched, hs⟩ := Option.ite_none_right_eq_some.mp hstep
      exact h.stepLidar hlaunched hs
  | imu first readings => exact h.stepImu hstep
  | work n first readings => exact h.stepWork hsound hstep
  | hog i readings =>
      obtain ⟨pc, rfl⟩ := stepHog_hogs hstep
      exact ⟨h.phase.keep rfl rfl rfl (Nat.le_refl _) (fun hzero => { h.phase.launch hzero with })
        fun _ => ⟨rfl, rfl, rfl⟩, h.camera, h.lidar, h.imu, h.meter, h.stage⟩

/-- Every run keeps its schedule. -/
theorem timed_of_exec {actions : List Action}
    (h : Steps.exec (Demo.step env c) (initial env c) actions = some s) : s.Timed env c := by
  have hboth : s.Sound env c ∧ s.Timed env c :=
    @Steps.Preserved.exec _ _ (Demo.step env c) (fun s => s.Sound env c ∧ s.Timed env c)
      (fun _ _ _ hs hstep => ⟨hs.1.step hstep, hs.2.step hs.1 hstep⟩) _ _ _
      ⟨sound_initial env c, timed_initial env c⟩ h
  exact hboth.2

end Demo

end ScxSlam.PipelineDemo
