import Mathlib.Order.Basic
import Mathlib.Tactic.Common
import ScxSlam.RosPipeline.Pipeline

/-!
# ScxSlam.RosPipeline.Periodic

The synthetic sources of `slam_pipeline`: `publish_periodic`, the window that
`main` measures and the counts that it expects at the end.

Every release is computed from the epoch.  A truncated quotient is never late
by a nanosecond or more, so nothing adds up, and for a rate of a billion or
less no two of them are the same.
-/

namespace ScxSlam.RosPipeline

/-! ## the generator -/

def nsPerS : Nat := 1000000000

/-- `release_ns` of an index. -/
def releaseNs (rateHz startNs index : Nat) : Nat :=
  Word.add 64 startNs (Word.mul 64 index nsPerS / rateHz)

/-- The message of an index. -/
def periodicMessage (rateHz startNs index : Nat) : Message where
  jobId := index + 1
  sourceTsNs := 0
  releaseTsNs := releaseNs rateHz startNs index

/-- The loop of `publish_periodic`, for so many indices more; `ok` is what
`rclcpp::ok` says at each. -/
def periodicLoop (rateHz startNs : Nat) (ok : Nat → Bool) (index : Nat) : Nat → List Message
  | 0 => []
  | left + 1 =>
      if ok index then
        periodicMessage rateHz startNs index :: periodicLoop rateHz startNs ok (index + 1) left
      else []

/-- What `publish_periodic` publishes. -/
def publishPeriodic (rateHz durationS startNs : Nat) (ok : Nat → Bool) : List Message :=
  periodicLoop rateHz startNs ok 0 (Word.mul 64 rateHz durationS)

/-! ## the window -/

/-- What `main` stores before it starts the generators. -/
structure Measurement where
  startNs : Nat
  endNs : Nat
  deriving DecidableEq, Repr

/-- The window of a synthetic run. -/
def Measurement.make (durationS startNs : Nat) : Measurement where
  startNs := startNs
  endNs := Word.add 64 startNs (Word.mul 64 durationS nsPerS)

/-- `measured_message` with synthetic input. -/
def Measurement.measured (w : Measurement) (m : Message) : Bool :=
  decide (w.startNs ≤ m.releaseTsNs) && decide (m.releaseTsNs < w.endNs)

/-- The rate `main` gives a generator. -/
def Source.rateHz : Source → Nat
  | .imu => 200
  | .camera => 30

/-- `expected_imu` and `expected_vision` of a synthetic run. -/
def Source.expected (src : Source) (durationS : Nat) : Nat := Word.mul 64 durationS src.rateHz

/-! ## runs of the loop -/

section Loop

variable {rate start index left : Nat} {ok : Nat → Bool}

theorem periodicLoop_eq (hok : ∀ i, index ≤ i → i < index + left → ok i = true) :
    periodicLoop rate start ok index left =
      (List.range' index left).map (periodicMessage rate start) := by
  induction left generalizing index with
  | zero => rfl
  | succ left ih =>
      rw [periodicLoop, if_pos (hok index (Nat.le_refl _) (by omega)), List.range'_succ,
        List.map_cons, ih fun i hi hlt => hok i (by omega) (by omega)]

theorem periodicLoop_prefix (rate start : Nat) (ok : Nat → Bool) (index left : Nat) :
    periodicLoop rate start ok index left <+:
      (List.range' index left).map (periodicMessage rate start) := by
  induction left generalizing index with
  | zero => exact List.prefix_rfl
  | succ left ih =>
      rw [periodicLoop, List.range'_succ, List.map_cons]
      split
      · exact List.cons_prefix_cons.mpr ⟨rfl, ih (index + 1)⟩
      · exact List.nil_prefix

/-- A generator that is shut down has published the beginning. -/
theorem publishPeriodic_prefix (rate duration start : Nat) (ok : Nat → Bool) :
    publishPeriodic rate duration start ok <+:
      publishPeriodic rate duration start fun _ => true := by
  have hall := @periodicLoop_eq rate start 0 (Word.mul 64 rate duration) (fun _ => true)
    fun _ _ _ => rfl
  rw [publishPeriodic, publishPeriodic, hall]
  exact periodicLoop_prefix rate start ok 0 _

end Loop

/-! ## the series -/

section Series

variable {rate duration i j : Nat}

/-- Up to a billion releases a second are all different. -/
theorem release_lt (hpos : 0 < rate) (hrate : rate ≤ nsPerS) (hij : i < j) :
    i * nsPerS / rate < j * nsPerS / rate := by
  have hstep : i * nsPerS + rate ≤ j * nsPerS := by
    calc i * nsPerS + rate ≤ i * nsPerS + nsPerS := by omega
      _ = (i + 1) * nsPerS := (Nat.succ_mul i nsPerS).symm
      _ ≤ j * nsPerS := Nat.mul_le_mul_right nsPerS hij
  have hnext : (i * nsPerS + rate) / rate ≤ j * nsPerS / rate := Nat.div_le_div_right hstep
  rw [Nat.add_div_right _ hpos] at hnext
  omega

/-- A release is before the end of the duration exactly for the indices that
the rate allows. -/
theorem release_lt_iff (hpos : 0 < rate) :
    i * nsPerS / rate < duration * nsPerS ↔ i < rate * duration := by
  rw [Nat.div_lt_iff_lt_mul hpos, Nat.mul_right_comm, Nat.mul_comm duration rate]
  exact Nat.mul_lt_mul_right (by decide)

end Series

/-! ## the schedule -/

/-- A run of the generator to its end. -/
structure Scheduled (rate duration start : Nat) (published : List Message) : Prop where
  ids : published.map Message.jobId = List.range' 1 (rate * duration)
  release : ∀ k m, published[k]? = some m → m.releaseTsNs = start + k * nsPerS / rate
  increasing : (published.map Message.releaseTsNs).Pairwise (· < ·)
  window : ∀ m ∈ published, (Measurement.make duration start).measured m = true
  /-- the release that would be the next one -/
  next : start + duration * nsPerS ≤ start + rate * duration * nsPerS / rate
  counted : (published.filter (Measurement.make duration start).measured).length = rate * duration

section Schedule

variable {rate duration start : Nat} {ok : Nat → Bool}

/-- Without a wrap the release of an index is the exact one. -/
theorem releaseNs_eq {index : Nat} (hpos : 0 < rate) (hindex : index < rate * duration)
    (hproduct : index * nsPerS < Word.size 64) (hsum : start + duration * nsPerS < Word.size 64) :
    releaseNs rate start index = start + index * nsPerS / rate := by
  have hlt := (@release_lt_iff rate duration index hpos).mpr hindex
  rw [releaseNs, Word.mul_of_lt hproduct]
  exact Word.add_of_lt (by omega)

theorem measurement_make (hsum : start + duration * nsPerS < Word.size 64) :
    Measurement.make duration start = ⟨start, start + duration * nsPerS⟩ := by
  rw [Measurement.make, Word.mul_of_lt (by omega), Word.add_of_lt hsum]

theorem scheduled_messages (hpos : 0 < rate) (hrate : rate ≤ nsPerS)
    (hproduct : ∀ index < rate * duration, index * nsPerS < Word.size 64)
    (hsum : start + duration * nsPerS < Word.size 64) :
    Scheduled rate duration start
      ((List.range' 0 (rate * duration)).map (periodicMessage rate start)) := by
  have hrelease : ∀ index < rate * duration, (periodicMessage rate start index).releaseTsNs =
      start + index * nsPerS / rate := fun index hindex =>
    releaseNs_eq hpos hindex (hproduct index hindex) hsum
  have hwindow : ∀ m ∈ (List.range' 0 (rate * duration)).map (periodicMessage rate start),
      (Measurement.make duration start).measured m = true := by
    intro m hm
    obtain ⟨index, hindex, rfl⟩ := List.mem_map.mp hm
    have hindex : index < rate * duration := by simpa using hindex
    have hlt := (@release_lt_iff rate duration index hpos).mpr hindex
    rw [measurement_make hsum, Measurement.measured, hrelease index hindex]
    simp [hlt]
  constructor
  case ids =>
      rw [List.map_map, List.range'_eq_map_range, List.map_map, List.range'_eq_map_range]
      exact List.map_congr_left fun i _ => by simp [periodicMessage, Nat.add_comm]
  case release =>
      intro k m hm
      rw [List.getElem?_map] at hm
      obtain ⟨index, hindex, rfl⟩ := Option.map_eq_some_iff.mp hm
      obtain ⟨hk, rfl⟩ := List.getElem?_eq_some_iff.mp hindex
      rw [List.length_range'] at hk
      rw [List.getElem_range', Nat.zero_add, Nat.one_mul, hrelease k hk]
  case increasing =>
      rw [List.map_map, List.pairwise_map]
      refine List.Pairwise.imp_of_mem ?_ List.pairwise_lt_range'
      intro i j hi hj hij
      have hi : i < rate * duration := by simpa using hi
      have hj : j < rate * duration := by simpa using hj
      rw [Function.comp_apply, Function.comp_apply, hrelease i hi, hrelease j hj]
      exact Nat.add_lt_add_left (release_lt hpos hrate hij) start
  case window => exact hwindow
  case next =>
      have hexact : rate * duration * nsPerS / rate = duration * nsPerS := by
        rw [Nat.mul_assoc, Nat.mul_div_cancel_left _ hpos]
      omega
  case counted =>
      rw [List.filter_eq_self.mpr hwindow, List.length_map, List.length_range']

/-- **Periodic sources**: a generator that runs to completion publishes one
message for every release in the window, and `main` expects as many. -/
theorem periodic_fits_window (hpos : 1 ≤ rate) (hrate : rate ≤ nsPerS)
    (hoffered : rate * duration < Word.size 64)
    (hproduct : ∀ index < rate * duration, index * nsPerS < Word.size 64)
    (hsum : start + duration * nsPerS < Word.size 64)
    (hok : ∀ index < rate * duration, ok index = true) :
    Scheduled rate duration start (publishPeriodic rate duration start ok) ∧
      ∀ src : Source, src.rateHz = rate → src.expected duration =
        ((publishPeriodic rate duration start ok).filter
          (Measurement.make duration start).measured).length := by
  have hpublished : publishPeriodic rate duration start ok =
      (List.range' 0 (rate * duration)).map (periodicMessage rate start) := by
    rw [publishPeriodic, Word.mul_of_lt hoffered]
    exact periodicLoop_eq fun i _ hi => hok i (by omega)
  have hscheduled := scheduled_messages hpos hrate hproduct hsum
  rw [← hpublished] at hscheduled
  refine ⟨hscheduled, ?_⟩
  rintro src rfl
  rw [hscheduled.counted, Source.expected, Nat.mul_comm src.rateHz]
  exact Word.mul_of_lt (by rw [Nat.mul_comm]; exact hoffered)

/-- A second of the camera. -/
theorem periodic_fits_window_camera :
    Scheduled 30 1 5000 (publishPeriodic 30 1 5000 fun _ => true) ∧
      ∀ src : Source, src.rateHz = 30 → src.expected 1 =
        ((publishPeriodic 30 1 5000 fun _ => true).filter
          (Measurement.make 1 5000).measured).length :=
  periodic_fits_window (by decide) (by decide) (by decide)
    (fun index hindex => Nat.lt_of_le_of_lt (Nat.mul_le_mul_right nsPerS (Nat.le_of_lt hindex))
      (by decide)) (by decide) fun _ _ => rfl

end Schedule

end ScxSlam.RosPipeline
