import Mathlib.Data.List.Nodup
import Mathlib.Data.List.Perm.Subperm
import ScxSlam.Lib.Raise
import ScxSlam.PipelineDemo.Validator

/-!
# ScxSlam.PipelineDemo.Parsed

What is in the data that `parse_metrics` has returned: every key that a summary
of it reads, and a window that is as long as the run was asked to be.
-/

namespace ScxSlam.PipelineDemo

open Raise

/-! ## data -/

/-- `data[name][key]`, where both are there. -/
def Data.value? (data : Data) (name : RowName) (key : Key) : Option Nat :=
  (data.get? name).bind (·.get? key)

section Data

variable {data data' : Data} {name : RowName} {key : Key} {keys : List Key}

/-- A key that was checked for is there. -/
theorem Data.value?_eq (h : (data.get name).hasKeys keys = true) (hkey : key ∈ keys) :
    data.value? name key = some ((data.get name).get key) := by
  have hsome := List.all_eq_true.mp h key hkey
  unfold Data.get at hsome ⊢
  unfold Data.value?
  cases hname : data.get? name with
  | none => rw [hname] at hsome; exact nomatch hsome
  | some d =>
      rw [hname, Option.getD_some] at hsome
      obtain ⟨v, hv⟩ := Option.isSome_iff_exists.mp hsome
      rw [Option.bind_some, Option.getD_some, Dictionary.get, hv, Option.getD_some]

/-- Filling in a stage's offers changes its section only. -/
theorem Data.get?_setOffered (p : StageName) (v : Nat) : (data.setOffered p v).get? name =
    (data.get? name).map fun d => if name = .stage p then d.set .offered v else d := by
  have hrows : data.setOffered p v =
      data.map fun row => (row.1, if row.1 = .stage p then row.2.set .offered v else row.2) := by
    refine List.map_congr_left fun row _ => ?_
    split <;> rfl
  rw [hrows]
  exact Dictionary.get?_map fun (name : RowName) (d : Dict) =>
    if name = .stage p then d.set .offered v else d

/-- The counts of deliveries go to the stages' own rows. -/
theorem Data.get?_foldl_setOffered (hname : ∀ p, name ≠ .stage p) (v : StageName → Nat)
    (ps : List StageName) :
    (ps.foldl (fun data p => data.setOffered p (v p)) data).get? name = data.get? name := by
  induction ps generalizing data with
  | nil => rfl
  | cons p ps ih =>
      rw [List.foldl_cons, ih, get?_setOffered]
      simp only [hname p, if_false, Option.map_id']

/-- Filling in the offers changes no other value. -/
theorem Data.value?_foldl_setOffered (hkey : key ≠ .offered) (v : StageName → Nat)
    (ps : List StageName) :
    (ps.foldl (fun data p => data.setOffered p (v p)) data).value? name key =
      data.value? name key := by
  induction ps generalizing data with
  | nil => rfl
  | cons p ps ih =>
      rw [List.foldl_cons, ih]
      unfold Data.value?
      rw [get?_setOffered]
      cases data.get? name with
      | none => rfl
      | some d =>
          rw [Option.map_some, Option.bind_some, Option.bind_some]
          split
          · exact Dictionary.get?_set_of_ne hkey
          · rfl

/-- The dictionaries that the loop over the lines makes have every key once. -/
theorem collect_nodup {rows : List Row} (h : collect data rows = .ok data')
    (hnodup : ∀ row ∈ data, (row.2.map Prod.fst).Nodup) :
    ∀ row ∈ data', (row.2.map Prod.fst).Nodup := by
  induction rows generalizing data with
  | nil =>
      cases h
      exact hnodup
  | cons row rows ih =>
      unfold collect at h
      split at h
      · split at h
        · contradiction
        · refine ih h fun row hrow => ?_
          obtain hrow | hrow := List.mem_append.mp hrow
          · exact hnodup row hrow
          · rw [List.mem_singleton.mp hrow]
            exact Dictionary.nodup_ofPairs _
      · exact ih h hnodup

end Data

/-! ## parse_metrics -/

/-- A check that a test succeeds. -/
theorem raiseIf_not_eq_ok {test : Bool} {message : String} :
    raiseIf (test = false) message = .ok () ↔ test = true := by
  rw [raiseIf_eq_ok, Bool.not_eq_false]

/-- The keys of the row of a window. -/
def windowKeys : List Key :=
  Expected.common ++ [.offered, .staleSeen, .droppedStale, .pending, .inFlight]

namespace Expected

/-- What `parse_metrics` has made sure of. -/
structure Parsed (x : Expected) (data : Data) : Prop where
  generated : ∀ key ∈ [Key.camera, .lidar], ∃ v, data.value? .generated key = some v
  windowNs : data.value? .measurement .windowNs = some (x.duration * 1000000000)
  elapsedNs : ∃ n, data.value? .measurement .elapsedNs = some n ∧ x.duration * 1000000000 ≤ n
  drainElapsedNs : ∃ n, data.value? .measurement .drainElapsedNs = some n
  window : ∀ p, ∀ key ∈ windowKeys, ∃ v, data.value? (.window p) key = some v
  drain : ∀ p, ∃ d, data.get? (.drain p) = some d
  cpuUs : ∃ n, data.value? (.stage .imuProp) .cpuUs = some n
  focus : ∀ n ∈ [Node.vis, .est], ∀ d, data.get? (.focus n) = some d →
    (∃ v, d.get? .ageNs = some v) ∧ ∃ v, d.get? .late = some v

variable {x : Expected} {data result : Data} {rows : List Row}

/-- The generated counts are there. -/
theorem checkGenerated_keys (h : x.checkGenerated data = .ok ())
    (hnodup : ∀ row ∈ data, (row.2.map Prod.fst).Nodup) :
    ∀ key ∈ [Key.camera, .lidar], ∃ v, data.value? .generated key = some v := by
  have hany := raiseIf_not_eq_ok.mp h
  cases hname : data.get? .generated with
  | none => rw [hname] at hany; exact nomatch hany
  | some d =>
      rw [hname, Option.any_some] at hany
      have hd : (d.map Prod.fst).Nodup := hnodup (.generated, d) (Dictionary.mem_of_get? hname)
      intro key hkey
      unfold Data.value?
      rw [hname, Option.bind_some]
      refine Option.isSome_iff_exists.mp (Dictionary.isSome_get?_of_same hd hany ?_)
      obtain rfl | rfl : key = .camera ∨ key = .lidar := by simpa using hkey
      · rfl
      · rfl

/-- The times are there, and the window has its length. -/
theorem checkTiming_values (h : checkTiming x data = .ok ()) :
    data.value? .measurement .windowNs = some (x.duration * 1000000000) ∧
      (∃ n, data.value? .measurement .elapsedNs = some n ∧ x.duration * 1000000000 ≤ n) ∧
      ∃ n, data.value? .measurement .drainElapsedNs = some n := by
  obtain ⟨_, hkeys, h⟩ := bind_eq_ok.mp h
  have hkeys := raiseIf_not_eq_ok.mp hkeys
  have htimes := raiseIf_eq_ok.mp h
  push Not at htimes
  obtain ⟨hwindow, -, helapsed⟩ := htimes
  refine ⟨?_, ⟨_, Data.value?_eq hkeys (by decide), ?_⟩, _, Data.value?_eq hkeys (by decide)⟩
  · rw [Data.value?_eq hkeys (by decide), hwindow]
  · rw [helapsed, hwindow]
    exact Nat.le_add_right _ _

/-- The window and the drain of a stage are there. -/
theorem checkWindow_keys {p : StageName} (h : checkWindow data p = .ok ()) :
    (∀ key ∈ windowKeys, ∃ v, data.value? (.window p) key = some v) ∧
      ∃ d, data.get? (.drain p) = some d := by
  obtain ⟨_, hkeys, -⟩ := bind_eq_ok.mp h
  obtain ⟨hdrain, hwindow⟩ := Bool.and_eq_true_iff.mp (raiseIf_not_eq_ok.mp hkeys)
  refine ⟨fun key hkey => ⟨_, Data.value?_eq hwindow hkey⟩, ?_⟩
  have hvalue := Data.value?_eq hdrain (List.mem_cons_self : Key.completed ∈ common)
  obtain ⟨d, hd, -⟩ := Option.bind_eq_some_iff.mp hvalue
  exact ⟨d, hd⟩

/-- The age and the verdict of a stage under study are there. -/
theorem checkFocus_keys {n : Node} {d : Dict} (h : checkFocus data n = .ok ())
    (hd : data.get? (.focus n) = some d) :
    (∃ v, d.get? .ageNs = some v) ∧ ∃ v, d.get? .late = some v := by
  unfold checkFocus at h
  rw [hd] at h
  have hkeys := raiseIf_eq_ok.mp h
  push Not at hkeys
  have hall := List.all_eq_true.mp (eq_true_of_ne_false hkeys.1)
  exact ⟨Option.isSome_iff_exists.mp (hall .ageNs (by decide)),
    Option.isSome_iff_exists.mp (hall .late (by decide))⟩

/-- Every stage is named. -/
theorem stageNames_mem (p : StageName) : p ∈ stageNames := by
  cases p with
  | imuProp => decide
  | stage n => cases n <;> decide

/-- The rows and keys of data that has been returned. -/
theorem parseMetrics_parsed (h : x.parseMetrics rows = .ok result) : Parsed x result := by
  obtain ⟨data, hcollect, h⟩ := bind_eq_ok.mp h
  obtain ⟨_, hgenerated, h⟩ := bind_eq_ok.mp h
  obtain ⟨_, -, h⟩ := bind_eq_ok.mp h
  obtain ⟨_, hstages, h⟩ := bind_eq_ok.mp h
  obtain ⟨_, -, h⟩ := bind_eq_ok.mp h
  obtain ⟨_, -, h⟩ := bind_eq_ok.mp h
  obtain ⟨_, htiming, h⟩ := bind_eq_ok.mp h
  obtain ⟨_, -, h⟩ := bind_eq_ok.mp h
  obtain ⟨_, hwindows, h⟩ := bind_eq_ok.mp h
  obtain ⟨_, -, h⟩ := bind_eq_ok.mp h
  obtain ⟨_, -, h⟩ := bind_eq_ok.mp h
  obtain ⟨_, -, h⟩ := bind_eq_ok.mp h
  obtain ⟨_, hfocus, h⟩ := bind_eq_ok.mp h
  have hget : ∀ name, (∀ p, name ≠ .stage p) → result.get? name = data.get? name := by
    intro name hname
    cases h
    exact Data.get?_foldl_setOffered hname _ _
  have hvalue : ∀ name, (∀ p, name ≠ .stage p) → ∀ key, result.value? name key =
      data.value? name key := by
    intro name hname key
    unfold Data.value?
    rw [hget name hname]
  have htimes := checkTiming_values htiming
  rw [← hvalue .measurement nofun, ← hvalue .measurement nofun, ← hvalue .measurement nofun]
    at htimes
  have hwindow := fun p => checkWindow_keys (forM_eq_ok.mp hwindows p (stageNames_mem p))
  refine {
    generated := fun key hkey => ?_
    windowNs := htimes.1
    elapsedNs := htimes.2.1
    drainElapsedNs := htimes.2.2
    window := fun p key hkey => ?_
    drain := fun p => ?_
    cpuUs := ?_
    focus := fun n hn d hd => ?_ }
  · rw [hvalue .generated nofun]
    exact checkGenerated_keys hgenerated (collect_nodup hcollect nofun) key hkey
  · rw [hvalue (.window p) nofun]
    exact (hwindow p).1 key hkey
  · rw [hget (.drain p) nofun]
    exact (hwindow p).2
  · obtain ⟨_, hkeys, -⟩ := bind_eq_ok.mp (forM_eq_ok.mp hstages .imuProp (stageNames_mem _))
    have hcpu := Data.value?_eq (raiseIf_not_eq_ok.mp hkeys) (by decide : Key.cpuUs ∈ _)
    cases h
    refine ⟨_, Eq.trans ?_ hcpu⟩
    exact Data.value?_foldl_setOffered (by decide) _ _
  · rw [hget (.focus n) nofun] at hd
    exact checkFocus_keys (forM_eq_ok.mp hfocus n hn) hd

end Expected

end ScxSlam.PipelineDemo
