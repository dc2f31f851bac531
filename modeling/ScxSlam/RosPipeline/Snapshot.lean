import Mathlib.Data.List.MinMax
import ScxSlam.Lib.Percentile
import ScxSlam.RosPipeline.Pipeline

/-!
# ScxSlam.RosPipeline.Snapshot

`snapshot` of `slam_pipeline`: a copy of a stage's counters, the CPU time of a
callback in flight read off the clock of its thread, and `percentile_99` and
maximum of the two age samples.
-/

namespace ScxSlam.RosPipeline

/-! ## percentiles -/

/-- `(size * 99 + 99) / 100 - 1` in 64-bit words. -/
def p99Index (size : Nat) : Nat :=
  Word.sub 64 (Word.add 64 (Word.mul 64 size 99) 99 / 100) 1

/-- `percentile_99`. -/
def percentile99 (values : List Nat) : Nat :=
  if values = [] then 0
  else (values.insertionSort (· ≤ ·)).getD (p99Index values.length) 0

/-- `*std::max_element`, or zero when there is none. -/
def maxElement (values : List Nat) : Nat := values.max?.getD 0

/-! ## snapshots -/

structure StageSnapshot where
  offered : Nat
  arrivals : Nat
  executed : Nat
  dropped : Nat
  upstreamDropped : Nat
  completed : Nat
  late : Nat
  stale : Nat
  cpuNs : Nat
  firstJobId : Nat
  lastJobId : Nat
  firstSourceTsNs : Nat
  lastSourceTsNs : Nat
  p99StartAgeNs : Nat
  maxStartAgeNs : Nat
  p99AgeNs : Nat
  maxAgeNs : Nat
  deriving DecidableEq, Repr

/-- `snapshot`, with what the clock of the active thread reads. -/
def StageStats.snapshot (stats : StageStats) (clock : Nat) : StageSnapshot where
  offered := stats.offered
  arrivals := stats.arrivals
  executed := stats.executed
  dropped := stats.dropped
  upstreamDropped := stats.upstreamDropped
  completed := stats.completed
  late := stats.late
  stale := stats.stale
  cpuNs := stats.cpuNs + if stats.active then Word.sub 64 clock stats.activeCpuStart else 0
  firstJobId := stats.firstJobId
  lastJobId := stats.lastJobId
  firstSourceTsNs := stats.firstSourceTsNs
  lastSourceTsNs := stats.lastSourceTsNs
  p99StartAgeNs := percentile99 stats.startAgesNs
  maxStartAgeNs := maxElement stats.startAgesNs
  p99AgeNs := percentile99 stats.completionAgesNs
  maxAgeNs := maxElement stats.completionAgesNs

/-! ## the index -/

section Index

variable {size : Nat} {values values' : List Nat}

/-- Without a wrap the index is 99 percent of the size, rounded up, less one. -/
theorem p99Index_spec (hpos : 0 < size) (hword : 99 * size + 99 < Word.size 64) :
    99 * size ≤ 100 * (p99Index size + 1) ∧ 100 * (p99Index size + 1) < 99 * size + 100 ∧
      p99Index size < size := by
  have hmul : Word.mul 64 size 99 = size * 99 := Word.mul_of_lt (by omega)
  have hadd : Word.add 64 (size * 99) 99 = size * 99 + 99 := Word.add_of_lt (by omega)
  have hindex : p99Index size = (size * 99 + 99) / 100 - 1 := by
    rw [p99Index, hmul, hadd, Word.sub_of_le (by omega) (by omega)]
  omega

/-- The percentile of some values is one of them in order. -/
theorem percentile99_of_ne_nil (hne : values ≠ []) : percentile99 values =
    (values.insertionSort (· ≤ ·)).getD (p99Index values.length) 0 := if_neg hne

/-- `percentile_99` is the nearest-rank percentile. -/
theorem nearest_percentile99 (hne : values ≠ []) (hword : 99 * values.length + 99 < Word.size 64) :
    Percentile.Nearest 99 values (percentile99 values) := by
  obtain ⟨hlow, hhigh, hlt⟩ := p99Index_spec (List.length_pos_of_ne_nil hne) hword
  rw [percentile99_of_ne_nil hne]
  exact (Percentile.atRank_insertionSort hlt 0).nearest hlow hhigh

/-- The order of the values does not matter. -/
theorem percentile99_perm (hperm : values.Perm values') :
    percentile99 values = percentile99 values' := by
  have hsort : values.insertionSort (· ≤ ·) = values'.insertionSort (· ≤ ·) := by
    refine List.Perm.eq_of_pairwise' (List.pairwise_insertionSort (· ≤ ·) values)
      (List.pairwise_insertionSort (· ≤ ·) values') ?_
    exact (List.perm_insertionSort _ values).trans
      (hperm.trans (List.perm_insertionSort _ values').symm)
  have hnil : values = [] ↔ values' = [] := by
    rw [← List.length_eq_zero_iff, hperm.length_eq, List.length_eq_zero_iff]
  simp only [percentile99, hsort, hnil, hperm.length_eq]

/-- No value passes the maximum. -/
theorem le_maxElement {v : Nat} (hv : v ∈ values) : v ≤ maxElement values := by
  obtain ⟨m, hm⟩ : ∃ m, values.max? = some m := by
    cases hmax : values.max? with
    | none => exact absurd hv (by simp [List.max?_eq_none_iff.mp hmax])
    | some m => exact ⟨m, rfl⟩
  rw [maxElement, hm, Option.getD_some]
  exact (List.max?_eq_some_iff.mp hm).2 v hv

end Index

end ScxSlam.RosPipeline
