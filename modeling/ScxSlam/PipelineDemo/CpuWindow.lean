import Mathlib.Data.List.Induction
import Mathlib.Order.Monotone.Basic
import ScxSlam.Lib.Word

/-!
# ScxSlam.PipelineDemo.CpuWindow

`CpuWindowBounds`: how much CPU time a job has used at the cutoff, when the
CPU clock and the wall clock cannot be read at once.  Each reading of the CPU
clock stands between two readings of the wall clock; `measured_work_us` takes
such samples while it computes, and stops taking them once the bounds are
closed.

Times are `uint64_t` and are naturals here; no difference below wraps, but the
duration of a job may.
-/

namespace ScxSlam.PipelineDemo

/-! ## bounds -/

/-- A CPU time between two wall times. -/
structure Sample where
  cpuElapsed : Nat
  wallBefore : Nat
  wallAfter : Nat
  deriving DecidableEq, Repr

structure CpuWindowBounds where
  cutoffNs : Nat
  lowerNs : Nat := 0
  upperNs : Nat := 0
  closed : Bool := false
  deriving DecidableEq, Repr

namespace CpuWindowBounds

def sample (b : CpuWindowBounds) (x : Sample) : CpuWindowBounds :=
  if b.closed then b
  else
    let b := if x.wallAfter ≤ b.cutoffNs then { b with lowerNs := x.cpuElapsed } else b
    if b.cutoffNs ≤ x.wallBefore then { b with upperNs := x.cpuElapsed, closed := true } else b

def finish (b : CpuWindowBounds) (totalNs : Nat) : CpuWindowBounds :=
  if b.closed then b else { b with upperNs := totalNs }

/-- `sample` for each sample, then `finish`. -/
def run (cutoff : Nat) (samples : List Sample) (totalNs : Nat) : CpuWindowBounds :=
  (samples.foldl sample { cutoffNs := cutoff }).finish totalNs

end CpuWindowBounds

/-! ## measured work -/

/-- The CPU counters of `WindowStageStats`. -/
structure WindowCpu where
  cpuNs : Nat := 0
  cpuUncertaintyNs : Nat := 0
  deriving DecidableEq, Repr

/-- The CPU counters of `StageStats`. -/
structure CpuStats where
  cpuNs : Nat := 0
  window : WindowCpu := {}
  deriving DecidableEq, Repr

/-- The end of `measured_work_us`. -/
def WindowCpu.add (w : WindowCpu) (bounds : CpuWindowBounds) : WindowCpu where
  cpuNs := w.cpuNs + bounds.lowerNs
  cpuUncertaintyNs := w.cpuUncertaintyNs + (bounds.upperNs - bounds.lowerNs)

/-- The duration of a job, `us * 1000ULL`. -/
def workNs (us : Nat) : Nat := Word.mul 64 us 1000

/-- `busy_work_us` on the readings of the thread's CPU clock that follow its
first one; the readings it leaves over. -/
def busyWorkUs (us start : Nat) : List Nat → Option (List Nat)
  | [] => none
  | cpu :: rest => if cpu - start < workNs us then busyWorkUs us start rest else some rest

/-- The loop of `measured_work_us`.  Closed bounds are not sampled: the wall
times of a sample are then not read. -/
def measuredLoop (us : Nat) : CpuWindowBounds → List Sample → Option (Nat × CpuWindowBounds)
  | _, [] => none
  | bounds, x :: rest =>
      let bounds := if bounds.closed then bounds else bounds.sample x
      if x.cpuElapsed < workNs us then measuredLoop us bounds rest
      else some (x.cpuElapsed, bounds.finish x.cpuElapsed)

/-- `measured_work_us`.  The readings of the CPU clock are relative to its
first one, which stands between the wall times `first`; `none` where they end
too soon. -/
def measuredWorkUs (cutoff us : Nat) (window : WindowCpu) (first : Nat × Nat)
    (readings : List Sample) : Option (Nat × WindowCpu) :=
  if cutoff = 0 then
    match readings.map (·.cpuElapsed) with
    | [] => none
    | start :: rest => match busyWorkUs us start rest with
        | some (elapsed :: _) => some (elapsed, window)
        | _ => none
  else
    let bounds : CpuWindowBounds := { cutoffNs := cutoff }
    match measuredLoop us (bounds.sample ⟨0, first.1, first.2⟩) readings with
    | some (elapsed, bounds) => some (elapsed, window.add bounds)
    | none => none

/-! ## what a job really used -/

/-- The CPU time of one job as a function of wall time, and the samples taken
of it, each between its wall readings and the last one at the job's end. -/
structure SampledJob where
  cpu : Nat → Nat
  total : Nat
  samples : List Sample
  mono : Monotone cpu
  starts : ∃ t, cpu t = 0
  ends : ∃ t, ∀ t', t ≤ t' → cpu t' = total
  bracketed : ∀ x ∈ samples, cpu x.wallBefore ≤ x.cpuElapsed ∧ x.cpuElapsed ≤ cpu x.wallAfter
  forward : ∀ x ∈ samples, x.wallBefore ≤ x.wallAfter
  ordered : samples.IsChain fun x y => x.wallAfter ≤ y.wallBefore
  last : samples.getLast?.map (·.cpuElapsed) = some total

/-- The CPU time of the last sample wholly at or before the cutoff. -/
def lastBefore (cutoff : Nat) (samples : List Sample) : Option Nat :=
  (samples.filter (·.wallAfter ≤ cutoff)).getLast?.map (·.cpuElapsed)

/-- The CPU time of the first sample wholly at or after the cutoff. -/
def firstAfter (cutoff : Nat) (samples : List Sample) : Option Nat :=
  (samples.find? (cutoff ≤ ·.wallBefore)).map (·.cpuElapsed)

/-- The readings of `measured_work_us` up to the one that ends its loop. -/
def usedReadings (us : Nat) : List Sample → List Sample
  | [] => []
  | x :: rest => if x.cpuElapsed < workNs us then x :: usedReadings us rest else [x]

/-- A finished job, added to a stage's counters. -/
def CpuStats.add (cutoff : Nat) (stats : CpuStats) (j : SampledJob) : CpuStats where
  cpuNs := stats.cpuNs + j.total
  window := stats.window.add (.run cutoff j.samples j.total)

/-- The CPU time of some jobs before the cutoff. -/
def windowCpu (cutoff : Nat) (jobs : List SampledJob) : Nat := (jobs.map (·.cpu cutoff)).sum

/-- The CPU time of some jobs after the cutoff. -/
def drainCpu (cutoff : Nat) (jobs : List SampledJob) : Nat :=
  (jobs.map fun j => j.total - j.cpu cutoff).sum

/-! ## sampling -/

namespace CpuWindowBounds

variable {cutoff total : Nat} {b : CpuWindowBounds} {x : Sample} {samples : List Sample}

/-- Closed bounds are not sampled. -/
theorem sample_of_closed (h : b.closed = true) : b.sample x = b := by
  simp [sample, h]

/-- A sample leaves the cutoff alone. -/
@[simp] theorem cutoffNs_sample : (b.sample x).cutoffNs = b.cutoffNs := by
  unfold sample
  dsimp only
  repeat' split
  all_goals rfl

@[simp] theorem cutoffNs_foldl : (samples.foldl sample b).cutoffNs = b.cutoffNs := by
  induction samples generalizing b with
  | nil => rfl
  | cons x rest ih => rw [List.foldl_cons, ih, cutoffNs_sample]

/-- Once closed, sampling changes nothing. -/
theorem foldl_of_closed (h : b.closed = true) : samples.foldl sample b = b := by
  induction samples with
  | nil => rfl
  | cons x rest ih => rw [List.foldl_cons, sample_of_closed h, ih]

/-- The first sample behind the cutoff closes the bounds. -/
theorem closed_sample : (b.sample x).closed = (b.closed || decide (b.cutoffNs ≤ x.wallBefore)) := by
  unfold sample
  by_cases hc : b.closed = true
  · simp [hc]
  · by_cases ha : x.wallAfter ≤ b.cutoffNs <;>
      by_cases hb : b.cutoffNs ≤ x.wallBefore <;> simp [hc, ha, hb]

/-- A sample up to the cutoff moves the lower bound. -/
theorem lowerNs_sample (h : b.closed = false) :
    (b.sample x).lowerNs = if x.wallAfter ≤ b.cutoffNs then x.cpuElapsed else b.lowerNs := by
  unfold sample
  by_cases ha : x.wallAfter ≤ b.cutoffNs <;>
    by_cases hb : b.cutoffNs ≤ x.wallBefore <;> simp [h, ha, hb]

/-- A sample from the cutoff on sets the upper bound. -/
theorem upperNs_sample (h : b.closed = false) :
    (b.sample x).upperNs = if b.cutoffNs ≤ x.wallBefore then x.cpuElapsed else b.upperNs := by
  unfold sample
  by_cases ha : x.wallAfter ≤ b.cutoffNs <;>
    by_cases hb : b.cutoffNs ≤ x.wallBefore <;> simp [h, ha, hb]

/-- The bounds are closed by the first sample wholly at or after the cutoff. -/
theorem closed_foldl (samples : List Sample) :
    (samples.foldl sample { cutoffNs := cutoff }).closed =
      (firstAfter cutoff samples).isSome := by
  induction samples using List.reverseRecOn with
  | nil => rfl
  | append_singleton l x ih =>
      simp only [List.foldl_append, List.foldl_cons, List.foldl_nil, closed_sample, ih,
        cutoffNs_foldl, firstAfter, List.find?_append, Option.isSome_map, Option.isSome_or]
      by_cases hb : cutoff ≤ x.wallBefore <;> simp [hb]

/-- Its CPU time is the upper bound. -/
theorem upperNs_foldl {v : Nat} (h : firstAfter cutoff samples = some v) :
    (samples.foldl sample { cutoffNs := cutoff }).upperNs = v := by
  induction samples using List.reverseRecOn with
  | nil => contradiction
  | append_singleton l x ih =>
      rw [List.foldl_append, List.foldl_cons, List.foldl_nil]
      cases hl : firstAfter cutoff l with
      | some u =>
          have hclosed : (l.foldl sample { cutoffNs := cutoff }).closed = true := by
            rw [closed_foldl, hl]
            rfl
          have hv : firstAfter cutoff (l ++ [x]) = some u := by
            obtain ⟨y, hy, rfl⟩ := Option.map_eq_some_iff.mp hl
            simp [firstAfter, List.find?_append, hy]
          rw [sample_of_closed hclosed, ih (hl.trans (hv.symm.trans h))]
      | none =>
          have hopen : (l.foldl sample { cutoffNs := cutoff }).closed = false := by
            rw [closed_foldl, hl]
            rfl
          have hnone : l.find? (cutoff ≤ ·.wallBefore) = none := Option.map_eq_none_iff.mp hl
          rw [upperNs_sample hopen, cutoffNs_foldl]
          by_cases hb : cutoff ≤ x.wallBefore
          · have hx : x.cpuElapsed = v := by
              simpa [firstAfter, List.find?_append, hnone, hb] using h
            rw [if_pos hb, hx]
          · simp [firstAfter, List.find?_append, hnone, hb] at h

/-- The upper bound is the first sample from the cutoff on, or the total. -/
theorem run_upperNs :
    (run cutoff samples total).upperNs = (firstAfter cutoff samples).getD total := by
  unfold run finish
  rw [closed_foldl]
  cases h : firstAfter cutoff samples with
  | none => rfl
  | some v => simpa using upperNs_foldl h

theorem run_lowerNs :
    (run cutoff samples total).lowerNs = (samples.foldl sample { cutoffNs := cutoff }).lowerNs := by
  unfold run finish
  split <;> rfl

end CpuWindowBounds

/-! ## one job -/

namespace SampledJob

variable (j : SampledJob) {cutoff : Nat} {l post : List Sample} {x y : Sample}

/-- A job uses no more than its total. -/
theorem cpu_le (t : Nat) : j.cpu t ≤ j.total := by
  obtain ⟨stop, hstop⟩ := j.ends
  calc j.cpu t ≤ j.cpu (max t stop) := j.mono (Nat.le_max_left ..)
    _ = j.total := hstop _ (Nat.le_max_right ..)

/-- Earlier samples end before later ones begin. -/
theorem pairwise : j.samples.Pairwise fun x y => x.wallAfter ≤ y.wallBefore := by
  have hchain := j.ordered
  have hforward := j.forward
  revert hchain hforward
  generalize j.samples = samples
  intro hchain hforward
  induction samples with
  | nil => exact .nil
  | cons x rest ih =>
      cases rest with
      | nil => exact List.pairwise_singleton ..
      | cons y rest =>
          obtain ⟨hxy, hrest⟩ := List.isChain_cons_cons.mp hchain
          have hpair := ih hrest fun z hz => hforward z (List.mem_cons_of_mem _ hz)
          refine List.pairwise_cons.mpr ⟨?_, hpair⟩
          intro z hz
          obtain rfl | hz := List.mem_cons.mp hz
          · exact hxy
          · have hy := hforward y (by simp)
            have hyz := (List.pairwise_cons.mp hpair).1 z hz
            omega

/-- A sample taken entirely at the cutoff reads the CPU time there. -/
theorem at_cutoff (hx : x ∈ j.samples) (hb : cutoff ≤ x.wallBefore) (ha : x.wallAfter ≤ cutoff) :
    x.cpuElapsed = j.cpu cutoff := by
  have hf := j.forward x hx
  have hbefore : x.wallBefore = cutoff := by omega
  have hafter : x.wallAfter = cutoff := by omega
  have hbr := j.bracketed x hx
  rw [hbefore, hafter] at hbr
  omega

/-- Samples after the closing one that still end by the cutoff repeat its
reading. -/
theorem lastBefore_closed (hl : j.samples = l ++ x :: post) (hy : y ∈ l)
    (hyb : cutoff ≤ y.wallBefore) (hx : x.wallAfter ≤ cutoff) :
    lastBefore cutoff l = some x.cpuElapsed := by
  have hpair := j.pairwise
  rw [hl, List.pairwise_append] at hpair
  have hxmem : x ∈ j.samples := by simp [hl]
  have hyx := hpair.2.2 y hy x (List.mem_cons_self ..)
  have hymem : y ∈ j.samples := by simp [hl, hy]
  have hfy := j.forward y hymem
  have hfx := j.forward x hxmem
  have hyin : y ∈ l.filter (·.wallAfter ≤ cutoff) := by
    simp only [List.mem_filter, decide_eq_true_eq]
    exact ⟨hy, by omega⟩
  obtain ⟨z, hz⟩ : ∃ z, (l.filter (·.wallAfter ≤ cutoff)).getLast? = some z :=
    Option.isSome_iff_exists.mp (List.getLast?_isSome.mpr (List.ne_nil_of_mem hyin))
  obtain ⟨init, hinit⟩ := List.getLast?_eq_some_iff.mp hz
  have hzin : z ∈ l.filter (·.wallAfter ≤ cutoff) := by simp [hinit]
  obtain ⟨hzl, hza⟩ := List.mem_filter.mp hzin
  have hzmem : z ∈ j.samples := by simp [hl, hzl]
  have hyz : cutoff ≤ z.wallBefore := by
    rw [hinit] at hyin
    obtain hyi | hyi := List.mem_append.mp hyin
    · have hsub := hpair.1.filter (·.wallAfter ≤ cutoff)
      rw [hinit] at hsub
      have := (List.pairwise_append.mp hsub).2.2 y hyi z (List.mem_singleton_self z)
      omega
    · rwa [← List.mem_singleton.mp hyi]
  have hxb : cutoff ≤ x.wallBefore := by omega
  rw [lastBefore, hz, Option.map_some, j.at_cutoff hzmem hyz (by simpa using hza),
    j.at_cutoff hxmem hxb hx]

/-- The lower bound is the last sample wholly at or before the cutoff. -/
theorem lowerNs_foldl (hl : j.samples = l ++ post) :
    (l.foldl CpuWindowBounds.sample { cutoffNs := cutoff }).lowerNs =
      (lastBefore cutoff l).getD 0 := by
  induction l using List.reverseRecOn generalizing post with
  | nil => rfl
  | append_singleton l x ih =>
      have hl' : j.samples = l ++ x :: post := by simpa using hl
      have hlower := ih hl'
      rw [List.foldl_append, List.foldl_cons, List.foldl_nil]
      have hlast : lastBefore cutoff (l ++ [x]) =
          if x.wallAfter ≤ cutoff then some x.cpuElapsed else lastBefore cutoff l := by
        by_cases hx : x.wallAfter ≤ cutoff <;> simp [lastBefore, List.filter_append, hx]
      cases hfirst : firstAfter cutoff l with
      | none =>
          have hopen : (l.foldl CpuWindowBounds.sample { cutoffNs := cutoff }).closed = false := by
            rw [CpuWindowBounds.closed_foldl, hfirst]
            rfl
          rw [CpuWindowBounds.lowerNs_sample hopen, CpuWindowBounds.cutoffNs_foldl, hlower, hlast]
          by_cases hx : x.wallAfter ≤ cutoff <;> simp [hx]
      | some v =>
          have hclosed : (l.foldl CpuWindowBounds.sample { cutoffNs := cutoff }).closed = true := by
            rw [CpuWindowBounds.closed_foldl, hfirst]
            rfl
          rw [CpuWindowBounds.sample_of_closed hclosed, hlower, hlast]
          obtain ⟨y, hy, -⟩ := Option.map_eq_some_iff.mp hfirst
          by_cases hx : x.wallAfter ≤ cutoff
          · have hyb : cutoff ≤ y.wallBefore := by simpa using List.find?_some hy
            rw [if_pos hx, j.lastBefore_closed hl' (List.mem_of_find?_eq_some hy) hyb hx]
          · rw [if_neg hx]

theorem run_lowerNs : (CpuWindowBounds.run cutoff j.samples j.total).lowerNs =
    (lastBefore cutoff j.samples).getD 0 := by
  rw [CpuWindowBounds.run_lowerNs]
  exact j.lowerNs_foldl (List.append_nil _).symm

/-- The lower bound is one. -/
theorem lower_le : (CpuWindowBounds.run cutoff j.samples j.total).lowerNs ≤ j.cpu cutoff := by
  rw [run_lowerNs]
  cases h : lastBefore cutoff j.samples with
  | none => exact Nat.zero_le _
  | some v =>
      obtain ⟨x, hx, rfl⟩ := Option.map_eq_some_iff.mp h
      obtain ⟨hmem, ha⟩ := List.mem_filter.mp (List.mem_of_getLast? hx)
      exact (j.bracketed x hmem).2.trans (j.mono (by simpa using ha))

/-- The upper bound is one. -/
theorem le_upper : j.cpu cutoff ≤ (CpuWindowBounds.run cutoff j.samples j.total).upperNs := by
  rw [CpuWindowBounds.run_upperNs]
  cases h : firstAfter cutoff j.samples with
  | none => exact j.cpu_le cutoff
  | some v =>
      obtain ⟨x, hx, rfl⟩ := Option.map_eq_some_iff.mp h
      have hb : cutoff ≤ x.wallBefore := by simpa using List.find?_some hx
      exact (j.mono hb).trans (j.bracketed x (List.mem_of_find?_eq_some hx)).1

/-- The upper bound is within the total. -/
theorem upper_le : (CpuWindowBounds.run cutoff j.samples j.total).upperNs ≤ j.total := by
  rw [CpuWindowBounds.run_upperNs]
  cases h : firstAfter cutoff j.samples with
  | none => exact Nat.le_refl _
  | some v =>
      obtain ⟨x, hx, rfl⟩ := Option.map_eq_some_iff.mp h
      exact (j.bracketed x (List.mem_of_find?_eq_some hx)).2.trans (j.cpu_le _)

end SampledJob

/-! ## the loop of the program -/

section Loop

variable {us elapsed : Nat} {b b' : CpuWindowBounds} {readings : List Sample}

/-- The loop ends as if every reading up to its last had been sampled. -/
theorem measuredLoop_eq (h : measuredLoop us b readings = some (elapsed, b')) :
    workNs us ≤ elapsed ∧ (usedReadings us readings).getLast?.map (·.cpuElapsed) = some elapsed ∧
      b' = ((usedReadings us readings).foldl CpuWindowBounds.sample b).finish elapsed := by
  induction readings generalizing b with
  | nil => contradiction
  | cons x rest ih =>
      have hsample : (if b.closed then b else b.sample x) = b.sample x := by
        split
        · next hc => exact (CpuWindowBounds.sample_of_closed hc).symm
        · rfl
      unfold measuredLoop at h
      rw [hsample] at h
      dsimp only at h
      split at h
      · next hlt =>
        obtain ⟨h1, h2, h3⟩ := ih h
        have hused : usedReadings us (x :: rest) = x :: usedReadings us rest := by
          simp [usedReadings, hlt]
        refine ⟨h1, ?_, ?_⟩
        · rw [hused, List.getLast?_cons]
          cases hlast : (usedReadings us rest).getLast? with
          | none => simp [hlast] at h2
          | some y => simpa [hlast] using h2
        · rw [hused, List.foldl_cons, h3]
      · next hge =>
        cases h
        have hused : usedReadings us (x :: rest) = [x] := by simp [usedReadings, hge]
        exact ⟨by omega, by rw [hused]; rfl, by rw [hused]; rfl⟩

/-- `measured_work_us` inside a window. -/
theorem measuredWorkUs_eq {cutoff : Nat} {w w' : WindowCpu} {first : Nat × Nat}
    (hcutoff : cutoff ≠ 0) (h : measuredWorkUs cutoff us w first readings = some (elapsed, w')) :
    workNs us ≤ elapsed ∧ (usedReadings us readings).getLast?.map (·.cpuElapsed) = some elapsed ∧
      w' = w.add (.run cutoff (⟨0, first.1, first.2⟩ :: usedReadings us readings) elapsed) := by
  simp only [measuredWorkUs, if_neg hcutoff] at h
  split at h
  · next hloop =>
    cases h
    obtain ⟨h1, h2, rfl⟩ := measuredLoop_eq hloop
    exact ⟨h1, h2, rfl⟩
  · contradiction

/-- `busy_work_us` ends at the reading that is far enough from its first. -/
theorem busyWorkUs_eq {start : Nat} {cpus rest : List Nat}
    (h : busyWorkUs us start cpus = some rest) :
    ∃ pre cpu, cpus = pre ++ cpu :: rest ∧ workNs us ≤ cpu - start := by
  induction cpus with
  | nil => cases h
  | cons cpu cpus ih =>
      unfold busyWorkUs at h
      split at h
      · obtain ⟨pre, last, rfl, hlast⟩ := ih h
        exact ⟨cpu :: pre, last, rfl, hlast⟩
      · next hge =>
        cases h
        exact ⟨[], cpu, rfl, Nat.le_of_not_lt hge⟩

/-- `measured_work_us` uses up its duration, window or not. -/
theorem le_measuredWorkUs {cutoff : Nat} {w w' : WindowCpu} {first : Nat × Nat}
    (hclock : (readings.map (·.cpuElapsed)).Pairwise (· ≤ ·))
    (h : measuredWorkUs cutoff us w first readings = some (elapsed, w')) :
    workNs us ≤ elapsed := by
  by_cases hcutoff : cutoff = 0
  · unfold measuredWorkUs at h
    rw [if_pos hcutoff] at h
    split at h
    · cases h
    · next start cpus hreadings =>
      split at h
      · next last rest hbusy =>
        cases h
        obtain ⟨pre, cpu, rfl, hdur⟩ := busyWorkUs_eq hbusy
        rw [hreadings] at hclock
        have htail := (List.pairwise_append.mp (List.pairwise_cons.mp hclock).2).2.1
        have hle := (List.pairwise_cons.mp htail).1 elapsed List.mem_cons_self
        omega
      · cases h
  · exact (measuredWorkUs_eq hcutoff h).1

end Loop

/-! ## a stage -/

section Stage

variable {cutoff : Nat}

/-- Adding jobs one after another adds up their totals and bounds. -/
theorem foldl_add (stats : CpuStats) (jobs : List SampledJob) :
    let b := fun j : SampledJob => CpuWindowBounds.run cutoff j.samples j.total
    jobs.foldl (CpuStats.add cutoff) stats = {
      cpuNs := stats.cpuNs + (jobs.map (·.total)).sum
      window := {
        cpuNs := stats.window.cpuNs + (jobs.map fun j => (b j).lowerNs).sum
        cpuUncertaintyNs := stats.window.cpuUncertaintyNs +
          (jobs.map fun j => (b j).upperNs - (b j).lowerNs).sum } } := by
  induction jobs generalizing stats with
  | nil => rfl
  | cons j jobs ih =>
      rw [List.foldl_cons, ih]
      simp only [CpuStats.add, WindowCpu.add, List.map_cons, List.sum_cons, CpuStats.mk.injEq,
        WindowCpu.mk.injEq]
      exact ⟨Nat.add_assoc .., Nat.add_assoc .., Nat.add_assoc ..⟩

/-- The counters of a stage against what its jobs really used. -/
structure WindowBounds (cutoff : Nat) (jobs : List SampledJob) (stats : CpuStats) : Prop where
  total : stats.cpuNs = windowCpu cutoff jobs + drainCpu cutoff jobs
  lower : stats.window.cpuNs ≤ windowCpu cutoff jobs
  upper : windowCpu cutoff jobs ≤ stats.window.cpuNs + stats.window.cpuUncertaintyNs
  /-- The drain CPU that `print_window_stage` prints. -/
  drain : drainCpu cutoff jobs ≤ stats.cpuNs - stats.window.cpuNs
  drainUncertainty : stats.cpuNs - stats.window.cpuNs ≤
    drainCpu cutoff jobs + stats.window.cpuUncertaintyNs

/-- The sums over all jobs bound the CPU time within the window. -/
theorem windowBounds (cutoff : Nat) (jobs : List SampledJob) :
    WindowBounds cutoff jobs (jobs.foldl (CpuStats.add cutoff) {}) := by
  have hsum : (jobs.map (·.total)).sum = windowCpu cutoff jobs + drainCpu cutoff jobs ∧
      (jobs.map fun j => (CpuWindowBounds.run cutoff j.samples j.total).lowerNs).sum ≤
        windowCpu cutoff jobs ∧
      windowCpu cutoff jobs ≤
        (jobs.map fun j => (CpuWindowBounds.run cutoff j.samples j.total).lowerNs).sum +
        (jobs.map fun j => (CpuWindowBounds.run cutoff j.samples j.total).upperNs -
          (CpuWindowBounds.run cutoff j.samples j.total).lowerNs).sum := by
    unfold windowCpu drainCpu
    induction jobs with
    | nil => exact ⟨rfl, Nat.le_refl _, Nat.le_refl _⟩
    | cons j jobs ih =>
        obtain ⟨h1, h2, h3⟩ := ih
        have hle := j.cpu_le cutoff
        have hlower := @SampledJob.lower_le j cutoff
        have hupper := @SampledJob.le_upper j cutoff
        simp only [List.map_cons, List.sum_cons]
        omega
  obtain ⟨h1, h2, h3⟩ := hsum
  rw [foldl_add]
  constructor <;> simp only [Nat.zero_add] <;> omega

end Stage

/-! ## soundness -/

/-- What the bounds of one job say. -/
structure BoundsSound (cutoff : Nat) (j : SampledJob) (b : CpuWindowBounds) : Prop where
  lower : b.lowerNs ≤ j.cpu cutoff
  upper : j.cpu cutoff ≤ b.upperNs ∧ b.upperNs ≤ j.total
  lowerIs : b.lowerNs = (lastBefore cutoff j.samples).getD 0
  upperIs : b.upperNs = (firstAfter cutoff j.samples).getD j.total
  /-- Sampling may stop as soon as the bounds are closed. -/
  early : ∀ pre post, j.samples = pre ++ post →
    (pre.foldl CpuWindowBounds.sample { cutoffNs := cutoff }).closed = true →
    .run cutoff pre j.total = b

/-- **Window CPU**: whatever the CPU clock did between the readings, the
bounds hold for every job, the program's own loop computes them, and a
stage's counters bound its window and its drain. -/
theorem cpu_window_sound (cutoff : Nat) :
    (∀ j : SampledJob, BoundsSound cutoff j (.run cutoff j.samples j.total)) ∧
    (∀ (j : SampledJob) (us : Nat) (w w' : WindowCpu) (first : Nat × Nat)
      (readings : List Sample) (elapsed : Nat), cutoff ≠ 0 →
      j.samples = ⟨0, first.1, first.2⟩ :: usedReadings us readings →
      measuredWorkUs cutoff us w first readings = some (elapsed, w') →
      workNs us ≤ elapsed ∧ elapsed = j.total ∧
        w' = w.add (.run cutoff j.samples j.total)) ∧
    ∀ jobs, WindowBounds cutoff jobs (jobs.foldl (CpuStats.add cutoff) {}) := by
  refine ⟨?_, ?_, windowBounds cutoff⟩
  · intro j
    refine ⟨j.lower_le, ⟨j.le_upper, j.upper_le⟩, j.run_lowerNs, CpuWindowBounds.run_upperNs, ?_⟩
    intro pre post hsplit hclosed
    rw [CpuWindowBounds.run, CpuWindowBounds.run, hsplit, List.foldl_append,
      CpuWindowBounds.foldl_of_closed hclosed]
  · intro j us w w' first readings elapsed hcutoff hsamples h
    obtain ⟨hdur, hlast, hw⟩ := measuredWorkUs_eq hcutoff h
    have htotal : elapsed = j.total := by
      have hj := j.last
      rw [hsamples, List.getLast?_cons] at hj
      cases hl : (usedReadings us readings).getLast? with
      | none => simp [hl] at hlast
      | some x => simp_all
    rw [hsamples, ← htotal]
    exact ⟨hdur, rfl, hw⟩

/-- A job of three microseconds that starts at 1000; its third sample
straddles the cutoff 3200. -/
def straddlingReadings : List Sample := [⟨1500, 2400, 2600⟩, ⟨2200, 3000, 3400⟩, ⟨3000, 4000, 4100⟩]

def straddlingJob : SampledJob where
  cpu t := min (t - 1000) 3000
  total := 3000
  samples := ⟨0, 900, 1000⟩ :: straddlingReadings
  mono := fun _ _ _ => by dsimp only; omega
  starts := ⟨1000, rfl⟩
  ends := ⟨4000, fun _ _ => by omega⟩
  bracketed := by decide
  forward := by decide
  ordered := by decide
  last := rfl

/-- A job that goes on over the cutoff. -/
theorem cpu_window_sound_straddle :
    BoundsSound 3200 straddlingJob (.run 3200 straddlingJob.samples straddlingJob.total) ∧
      WindowCpu.mk 1500 1500 =
        ({} : WindowCpu).add (.run 3200 straddlingJob.samples straddlingJob.total) :=
  ⟨(cpu_window_sound 3200).1 straddlingJob,
    ((cpu_window_sound 3200).2.1 straddlingJob 3 {} ⟨1500, 1500⟩ (900, 1000) straddlingReadings 3000
      (by decide) rfl rfl).2.2⟩

end ScxSlam.PipelineDemo
