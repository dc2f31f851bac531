import ScxSlam.PipelineDemo.Report

/-!
# ScxSlam.PipelineDemo.Honest

The numbers that `slam_pipeline_demo` prints are what they are meant to be:
the counters of each thread are in order, and the CPU time in its rows is the
CPU time of its compute calls.
-/

namespace ScxSlam.PipelineDemo

open Account

/-- The counters of a thread that keeps stale items.  No difference of them
wraps. -/
structure Honest (stats : StageStats) (cpu : CpuStats) (queue : WindowQueueStats) : Prop where
  pending : queue.dequeued + queue.evicted ≤ queue.offered
  inflight : stats.window.completed + stats.window.droppedStale ≤ queue.dequeued
  inflight_le : queue.dequeued ≤ stats.window.completed + stats.window.droppedStale + 1
  kept : stats.window.droppedStale = 0 ∧ queue.evicted = 0
  late : LateCounted stats
  cpu : cpu.window.cpuNs + cpu.window.cpuUncertaintyNs ≤ cpu.cpuNs

/-! ## jobs -/

/-- A compute call read the CPU time of a job. -/
def Samples (call : Call) (j : SampledJob) : Prop :=
  j.samples = ⟨0, call.first.1, call.first.2⟩ :: usedReadings call.us call.readings

/-- The CPU time of a run on one core: each compute call read the CPU time of a
job, and together the jobs did not use more than there was before the cutoff. -/
structure Pinned (c : Config) (s : Demo) (jobs : StageName → List SampledJob) : Prop where
  sampled : ∀ p, List.Forall₂ Samples (s.threadMeter p).calls (jobs p)
  oneCore : windowCpu (s.workloadEnd c) (jobs .imuProp) +
      windowCpu (s.workloadEnd c) (jobs (.stage .vis)) +
      windowCpu (s.workloadEnd c) (jobs (.stage .est)) +
      windowCpu (s.workloadEnd c) (jobs (.stage .lpre)) +
      windowCpu (s.workloadEnd c) (jobs (.stage .lreg)) +
      windowCpu (s.workloadEnd c) (jobs (.stage .map)) ≤ c.windowNs

section Cpu

variable {cutoff : Nat}

theorem Samples.total {call : Call} {j : SampledJob} (h : Samples call j) (hfull : call.Full) :
    call.elapsed = j.total := by
  have hlast := j.last
  have hread := hfull.last
  rw [h, List.getLast?_cons] at hlast
  cases hused : (usedReadings call.us call.readings).getLast? with
  | none => simp [hused] at hread
  | some x =>
      rw [hused] at hlast hread
      exact Option.some.inj (hread.symm.trans hlast)

/-- Adding calls adds their jobs. -/
theorem foldl_call {calls : List Call} {jobs : List SampledJob} {stats : CpuStats}
    (h : List.Forall₂ Samples calls jobs) (hfull : ∀ call ∈ calls, call.Full) :
    calls.foldl (CpuStats.call cutoff) stats = jobs.foldl (CpuStats.add cutoff) stats := by
  induction h generalizing stats with
  | nil => rfl
  | @cons call j calls jobs hsamples _ ih =>
      have htotal := hsamples.total (hfull call (List.mem_cons_self ..))
      have hadd : stats.call cutoff call = stats.add cutoff j := by
        unfold CpuStats.call CpuStats.add
        rw [hsamples, htotal]
      rw [List.foldl_cons, List.foldl_cons, hadd]
      exact ih fun x hx => hfull x (List.mem_cons_of_mem _ hx)

/-- The bounds of jobs are within what they used. -/
theorem bounds_le_total (jobs : List SampledJob) :
    let stats := jobs.foldl (CpuStats.add cutoff) {}
    stats.window.cpuNs + stats.window.cpuUncertaintyNs ≤ stats.cpuNs := by
  rw [foldl_add]
  dsimp only
  induction jobs with
  | nil => exact Nat.le_refl _
  | cons j jobs ih =>
      have hlower := @SampledJob.lower_le j cutoff
      have hmiddle := @SampledJob.le_upper j cutoff
      have hupper := @SampledJob.upper_le j cutoff
      simp only [List.map_cons, List.sum_cons] at ih ⊢
      omega

end Cpu

/-! ## lines -/

/-- Where stale items are kept, none is dropped or evicted in the window. -/
theorem Line.Sound.keeps_window {args : StageArgs} {now : Nat} {L : Line} (h : L.Sound args now)
    (hkeep : args.dropStale = false) :
    L.stage.stats.window.droppedStale = 0 ∧ L.stage.queue.window.evicted = 0 := by
  have hnone : ∀ e ∈ L.book.entries, e.prunedAt = none ∧ e.droppedAt = none := by
    intro e he
    have hstale := h.stale e he
    constructor
    · by_contra hne
      obtain ⟨t, ht⟩ := Option.ne_none_iff_exists'.mp hne
      exact absurd (hstale t (.inl ht)).1 (by simp [hkeep])
    · by_contra hne
      obtain ⟨t, ht⟩ := Option.ne_none_iff_exists'.mp hne
      exact absurd (hstale t (.inr ht)).1 (by simp [hkeep])
  rw [h.counted.droppedStale, h.counted.evicted]
  constructor
  · exact List.countP_eq_zero.mpr fun e he => by simp [(hnone e he).2]
  · exact List.countP_eq_zero.mpr fun e he => by simp [(hnone e he).1]

/-! ## runs -/

section Run

variable {env : Env} {c : Config} {s : Demo} {jobs : StageName → List SampledJob}

/-- The window closes at the end of the workload. -/
theorem Demo.Timed.cutoff (h : s.Timed env c) (hrank : 1 ≤ s.main.rank)
    (hwindow : c.windowStats = true) :
    s.net.metricsEndNs = s.workloadEnd c ∧ s.net.metricsEndNs ≠ 0 := by
  obtain ⟨hpos, hend⟩ := h.phase.epoch hrank
  have hend := hend hwindow
  exact ⟨hend, by omega⟩

theorem Demo.Timed.meter_sound (h : s.Timed env c) (hcutoff : s.net.metricsEndNs ≠ 0)
    (p : StageName) : (s.threadMeter p).Sound s.net.metricsEndNs := by
  cases p with
  | imuProp => exact h.imu.meter hcutoff
  | stage n => exact h.meter n hcutoff

/-- The CPU counters of a thread are those of its jobs. -/
theorem Pinned.cpu (hp : Pinned c s jobs) (h : s.Timed env c) (hcutoff : s.net.metricsEndNs ≠ 0)
    (p : StageName) :
    (s.threadMeter p).stats = (jobs p).foldl (CpuStats.add s.net.metricsEndNs) {} := by
  have hmeter := h.meter_sound hcutoff p
  rw [hmeter.stats]
  exact foldl_call (hp.sampled p) hmeter.full

/-- The counters of every thread are in order. -/
theorem Pinned.honest (hp : Pinned c s jobs) (hsound : s.Sound env c) (h : s.Timed env c)
    (hrank : 1 ≤ s.main.rank) (hwindow : c.windowStats = true) (hkeep : c.dropStale = false)
    (hexited : s.imu.pc = .exited) (p : StageName) :
    Honest (s.stats p) (s.threadMeter p).stats (s.windowQueue c p) := by
  obtain ⟨-, hcutoff⟩ := h.cutoff hrank hwindow
  have hcpu : (s.threadMeter p).stats.window.cpuNs +
      (s.threadMeter p).stats.window.cpuUncertaintyNs ≤ (s.threadMeter p).stats.cpuNs := by
    rw [hp.cpu h hcutoff p]
    exact bounds_le_total (jobs p)
  cases p with
  | imuProp =>
      have hpos := h.imu.position
      rw [ImuThread.At, hexited] at hpos
      obtain ⟨hprocessed, hstarted, hbound, hkeeps, hlate⟩ := hpos
      simp only [Bool.toNat_false, Bool.not_false, Bool.toNat_true] at hstarted hbound
      constructor <;> simp only [Demo.stats, Demo.windowQueue, Demo.threadMeter]
      case pending => omega
      case inflight => omega
      case inflight_le => omega
      case kept => exact ⟨hkeeps, trivial⟩
      case late => exact hlate
      case cpu => exact hcpu
  | stage n =>
      have hline := hsound.net.line n
      have hoffered := hline.offered_eq
      obtain ⟨hle, hge⟩ := hline.dequeued_le
      exact {
        pending := by
          simp only [Demo.windowQueue]
          omega
        inflight := hle
        inflight_le := hge
        kept := hline.keeps_window hkeep
        late := hline.late
        cpu := hcpu }

end Run

end ScxSlam.PipelineDemo
