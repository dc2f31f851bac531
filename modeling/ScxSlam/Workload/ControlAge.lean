import Mathlib.Data.List.Pairwise
import ScxSlam.RosPipeline.Snapshot
import ScxSlam.Workload.Loop

/-!
# ScxSlam.Workload.ControlAge

The 99th percentiles of the repository: `percentile_99` of `slam_pipeline`,
which `snapshot` takes of both age samples, and the `control_age` line of
`dependent_workload`, which computes the same index in `main`.
-/

namespace ScxSlam.Workload

open RosPipeline

/-- The `control_age` line. -/
structure ControlAge where
  samples : Nat
  p99Us : Nat
  maxUs : Nat
  deriving DecidableEq, Repr

/-- The end of `main`, where `control_ages` is sorted and printed. -/
def State.controlAge (s : State) : ControlAge :=
  let sorted := s.controlAges.insertionSort (· ≤ ·)
  { samples := sorted.length
    p99Us := if sorted = [] then 0 else sorted.getD (p99Index sorted.length) 0 / 1000
    maxUs := if sorted = [] then 0 else sorted.getLastD 0 / 1000 }

/-- What is reported of a sample of ages. -/
structure P99 (values : List Nat) : Prop where
  index : p99Index values.length < values.length
  nearest : Percentile.Nearest 99 values (percentile99 values)
  order : ∀ values', values.Perm values' → percentile99 values' = percentile99 values
  /-- the start ages of a snapshot -/
  start : ∀ (stats : StageStats) clock, stats.startAgesNs = values →
    (stats.snapshot clock).p99StartAgeNs = percentile99 values ∧
      (stats.snapshot clock).p99StartAgeNs ≤ (stats.snapshot clock).maxStartAgeNs
  /-- its completion ages -/
  completion : ∀ (stats : StageStats) clock, stats.completionAgesNs = values →
    (stats.snapshot clock).p99AgeNs = percentile99 values ∧
      (stats.snapshot clock).p99AgeNs ≤ (stats.snapshot clock).maxAgeNs
  /-- the ages of `dependent_workload`, in microseconds -/
  control : ∀ s : State, s.controlAges = values →
    s.controlAge.p99Us = percentile99 values / 1000 ∧
      s.controlAge.maxUs = maxElement values / 1000 ∧ s.controlAge.p99Us ≤ s.controlAge.maxUs

section Sorted

variable {values : List Nat}

/-- The last entry of the sorted list is the largest. -/
theorem getLastD_insertionSort (hne : values ≠ []) :
    (values.insertionSort (· ≤ ·)).getLastD 0 = maxElement values := by
  have hperm := List.perm_insertionSort (· ≤ ·) values
  have hsorted : values.insertionSort (· ≤ ·) ≠ [] := fun h => hne (List.nil_perm.mp (h ▸ hperm))
  rw [List.getLastD_eq_getLast?, List.getLast?_eq_some_getLast hsorted, Option.getD_some]
  refine le_antisymm (le_maxElement (hperm.mem_iff.mp (List.getLast_mem hsorted))) ?_
  obtain ⟨m, hm⟩ := Option.ne_none_iff_exists'.mp
    (fun h => hne (List.max?_eq_none_iff.mp h) : values.max? ≠ none)
  rw [maxElement, hm, Option.getD_some]
  exact (List.pairwise_insertionSort (· ≤ ·) values).rel_getLast
    (hperm.mem_iff.mpr (List.max?_eq_some_iff.mp hm).1)

/-- The line says what `percentile_99` and `std::max_element` would. -/
theorem controlAge_eq (s : State) : s.controlAge = ⟨s.controlAges.length,
    percentile99 s.controlAges / 1000, maxElement s.controlAges / 1000⟩ := by
  by_cases hne : s.controlAges = []
  · simp [State.controlAge, hne, percentile99, maxElement]
  · have hsorted : s.controlAges.insertionSort (· ≤ ·) ≠ [] := fun h =>
      hne (List.nil_perm.mp (h ▸ List.perm_insertionSort (· ≤ ·) s.controlAges))
    simp only [State.controlAge, if_neg hsorted, List.length_insertionSort,
      percentile99_of_ne_nil hne, getLastD_insertionSort hne]

end Sorted

/-- **Percentiles**: the 99th percentile of every sample of ages is the
nearest-rank one, for the snapshots of a stage and the control ages alike. -/
theorem p99_nearest_rank {values : List Nat} (hne : values ≠ [])
    (hword : 99 * values.length + 99 < Word.size 64) : P99 values := by
  have hnearest := nearest_percentile99 hne hword
  have hmax : percentile99 values ≤ maxElement values := le_maxElement hnearest.mem
  constructor
  case index => exact (p99Index_spec (List.length_pos_of_ne_nil hne) hword).2.2
  case nearest => exact hnearest
  case order => exact fun values' hperm => (percentile99_perm hperm).symm
  case start =>
      rintro stats clock rfl
      exact ⟨rfl, hmax⟩
  case completion =>
      rintro stats clock rfl
      exact ⟨rfl, hmax⟩
  case control =>
      rintro s rfl
      rw [controlAge_eq]
      exact ⟨rfl, rfl, Nat.div_le_div_right hmax⟩

/-- One of a hundred values exceeds the percentile, and of a few none does. -/
theorem p99_nearest_rank_hundred :
    P99 (List.range' 1 100) ∧ percentile99 (List.range' 1 100) = 99 ∧
      P99 [7, 3, 7] ∧ percentile99 [7, 3, 7] = 7 :=
  ⟨p99_nearest_rank (by decide) (by decide), by decide +kernel, p99_nearest_rank (by decide)
    (by decide), by decide⟩

end ScxSlam.Workload
