import ScxSlam.BagIndex.Session

/-!
# ScxSlam.BagIndex.FirstStamp

`first_source_ts_ns` of the adapter's summary.  Zero is the value of a counter
that has not been set, and without an index it is also a timestamp that a job
can have, so a first job at zero leaves the place to a later one.
-/

namespace ScxSlam.BagIndex

/-! ## stamps -/

/-- The timestamp of a message that a job can be built of. -/
def Delivery.buildable (d : Delivery) (index : SourceJobIndex) : Option Nat :=
  match sourceStampNs d.stamp with
  | .error _ => none
  | .ok ns => if (index.jobId ns 1).isOk && d.releaseNs != 0 then some ns else none

namespace Adapter

/-- The timestamps of a feed's messages that jobs can be built of. -/
def stamps (a : Adapter) (feed : Feed) (l : List (Feed × Delivery)) : List Nat :=
  l.filterMap fun x => if x.1 = feed then x.2.buildable (a.lane feed).index else none

/-- The jobs that a session builds for a feed. -/
def built (feed : Feed) : Adapter → List (Feed × Delivery) → List StampedJob
  | _, [] => []
  | a, (other, d) :: rest =>
      (if other = feed then (a.attemptOf other d).job.toList else []) ++
        built feed (a.publishJob other d).1 rest

/-- What the summary says at the end of a session. -/
def firstSourceTsNs (a : Adapter) (feed : Feed) (l : List (Feed × Delivery)) : Nat :=
  ((a.session l).1.lane feed).counts.firstSourceTsNs

end Adapter

/-- The first job that is built is the one that is reported, from then on. -/
structure FirstStamp (a : Adapter) (feed : Feed) (l : List (Feed × Delivery)) : Prop where
  reported : ∀ pre, pre <+: l →
    a.firstSourceTsNs feed pre = ((Adapter.built feed a pre).head?.map (·.sourceTsNs)).getD 0
  settled : ∀ pre pre', pre <+: pre' → pre' <+: l → Adapter.built feed a pre ≠ [] →
    a.firstSourceTsNs feed pre' = a.firstSourceTsNs feed pre

/-- The first timestamp is zero and a later one is not. -/
def Shadowed (stamps : List Nat) : Prop := stamps.head? = some 0 ∧ ∃ ns ∈ stamps, ns ≠ 0

instance (stamps : List Nat) : Decidable (Shadowed stamps) := inferInstanceAs (Decidable (_ ∧ _))

section FirstStamp

variable {a : Adapter} {index : SourceJobIndex} {feed other : Feed} {d : Delivery}
  {l pre : List (Feed × Delivery)} {received : Nat}

/-- A lookup fails whatever was received, or it finds a number that is not zero,
as no receive counter and no ordinal is. -/
theorem SourceJobIndex.Numbered.jobId_cases (h : index.Numbered) (ns : Nat) :
    (∃ what, ∀ c, index.jobId ns c = .error what) ∨
      ∀ c, c ≠ 0 → ∃ id, id ≠ 0 ∧ index.jobId ns c = .ok id := by
  by_cases hnone : index.entries = []
  · exact .inr fun c hc => ⟨c, hc, if_pos hnone⟩
  · have hsame : ∀ c, index.jobId ns c = index.jobId ns 1 := fun c => by
      rw [SourceJobIndex.jobId, SourceJobIndex.jobId, if_neg hnone, if_neg hnone]
    cases hfound : index.jobId ns 1 with
    | error what => exact .inl ⟨what, fun c => (hsame c).trans hfound⟩
    | ok id =>
        have hordinal := h.ordinal _ _ (h.jobId hnone hfound)
        exact .inr fun c _ => ⟨id, by omega, (hsame c).trans hfound⟩

/-- A job is built of every message that one can be built of. -/
theorem job_attempt (h : index.Numbered) (hreceived : received ≠ 0) :
    (attempt index received d).job.map (·.sourceTsNs) = d.buildable index := by
  unfold attempt Delivery.buildable makeStampedJob
  cases hns : sourceStampNs d.stamp with
  | error what => rfl
  | ok ns =>
      obtain ⟨what, hid⟩ | hid := h.jobId_cases ns
      · simp [Except.bind, hid, Except.isOk, Except.toBool]
      · obtain ⟨id, hne, hfound⟩ := hid received hreceived
        obtain ⟨id', -, hone⟩ := hid 1 (by decide)
        by_cases hrelease : d.releaseNs = 0
        · simp [Except.bind, hfound, hone, hrelease]
          rfl
        · cases d.publish <;>
            simp [Except.bind, hfound, hone, hne, hrelease, bind, pure, Except.pure, Except.isOk,
              Except.toBool]

/-! ## along a session -/

theorem stamps_append (a : Adapter) (feed : Feed) (l l' : List (Feed × Delivery)) :
    a.stamps feed (l ++ l') = a.stamps feed l ++ a.stamps feed l' := List.filterMap_append

theorem stamps_cons (a : Adapter) (feed other : Feed) (d : Delivery) (l : List (Feed × Delivery)) :
    a.stamps feed ((other, d) :: l) =
      (if other = feed then d.buildable (a.lane feed).index else none).toList ++
        a.stamps feed l := by
  rw [Adapter.stamps, List.filterMap_cons]
  split <;> simp_all [Adapter.stamps]

/-- The jobs that are built have the timestamps they can be built with. -/
theorem map_built (h : (a.lane feed).index.Numbered) :
    (Adapter.built feed a l).map (·.sourceTsNs) = a.stamps feed l := by
  induction l generalizing a with
  | nil => rfl
  | cons x l ih =>
      obtain ⟨other, d⟩ := x
      have hlane := lane_publishJob a other feed d
      have hrest : ((a.publishJob other d).1).stamps feed l = a.stamps feed l := by
        simp only [Adapter.stamps, hlane]
      rw [Adapter.built, List.map_append, ih (hlane ▸ h), hrest, stamps_cons]
      congr 1
      split
      · next heq =>
        subst heq
        rw [← job_attempt h (Nat.succ_ne_zero _), Adapter.attemptOf, Option.toList_map]
      · rfl

/-- The summary has the first timestamp that is not zero. -/
theorem firstSourceTsNs_eq (hfresh : a.Fresh) (h : (a.lane feed).index.Numbered) :
    a.firstSourceTsNs feed l = ((a.stamps feed l).find? (· ≠ 0)).getD 0 := by
  induction l using List.reverseRecOn with
  | nil => rw [Adapter.firstSourceTsNs, Adapter.session, hfresh.counts]; rfl
  | append_singleton l x ih =>
      obtain ⟨other, d⟩ := x
      have hindex := (books_session hfresh l).index feed
      have hjob := @job_attempt _ d _ (hindex ▸ h)
        (Nat.succ_ne_zero ((a.session l).1.lane feed).counts.received)
      rw [hindex] at hjob
      rw [stamps_append, stamps_cons, List.find?_append]
      rw [Adapter.firstSourceTsNs] at ih ⊢
      rw [Adapter.session_concat, Adapter.counts_publishJob]
      by_cases hfeed : feed = other
      · subst hfeed
        rw [if_pos rfl, if_pos rfl, ← hjob]
        rw [← hindex, Attempt.count, Adapter.attemptOf]
        dsimp only
        cases (attempt ((a.session l).1.lane feed).index
            (((a.session l).1.lane feed).counts.received + 1) d).job with
        | none => simpa [Adapter.stamps] using ih
        | some job =>
            rw [ih]
            cases hfind : (a.stamps feed l).find? (· ≠ 0) with
            | none =>
                by_cases hzero : job.sourceTsNs = 0 <;> simp [Adapter.stamps, hzero]
            | some ns =>
                have hne : ns ≠ 0 := by simpa using List.find?_some hfind
                simp [hne]
      · rw [if_neg hfeed, if_neg (Ne.symm hfeed)]
        simpa [Adapter.stamps] using ih

theorem head_built (h : (a.lane feed).index.Numbered) :
    ((Adapter.built feed a l).head?.map (·.sourceTsNs)).getD 0 =
      (a.stamps feed l).head?.getD 0 := by
  rw [← map_built h, List.head?_map]

/-- A list whose first entry is zero only if all are has it as its first
nonzero one. -/
theorem find_ne_zero_iff {stamps : List Nat} :
    (stamps.find? (· ≠ 0)).getD 0 = stamps.head?.getD 0 ↔ ¬ Shadowed stamps := by
  cases stamps with
  | nil => simp [Shadowed]
  | cons ns stamps =>
      by_cases hzero : ns = 0
      · subst hzero
        have htail : (0 :: stamps).find? (· ≠ 0) = stamps.find? (· ≠ 0) := rfl
        rw [htail]
        cases hfind : stamps.find? (· ≠ 0) with
        | none =>
            have hall : ∀ x ∈ stamps, x = 0 := by simpa using hfind
            refine iff_of_true rfl fun ⟨_, x, hx, hne⟩ => hne ?_
            obtain rfl | hx := List.mem_cons.mp hx
            · rfl
            · exact hall x hx
        | some ns =>
            have hne : ns ≠ 0 := by simpa using List.find?_some hfind
            refine iff_of_false hne (not_not.mpr ⟨rfl, ns, ?_, hne⟩)
            exact List.mem_cons_of_mem _ (List.mem_of_find?_eq_some hfind)
      · simp [Shadowed, hzero]

theorem Shadowed.of_prefix {stamps stamps' : List Nat} (h : Shadowed stamps)
    (hbefore : stamps <+: stamps') : Shadowed stamps' := by
  obtain ⟨rest, rfl⟩ := hbefore
  obtain ⟨hhead, ns, hns, hne⟩ := h
  refine ⟨?_, ns, List.mem_append_left _ hns, hne⟩
  rw [List.head?_append, hhead]
  rfl

/-- The law holds as long as no timestamp is shadowed. -/
theorem firstStamp_iff (hfresh : a.Fresh) (h : (a.lane feed).index.Numbered) :
    FirstStamp a feed l ↔ ¬ Shadowed (a.stamps feed l) := by
  constructor
  · intro hfirst
    have hreported := hfirst.reported l List.prefix_rfl
    rw [firstSourceTsNs_eq hfresh h, head_built h] at hreported
    exact find_ne_zero_iff.mp hreported
  · intro hclear
    have hreported : ∀ pre, pre <+: l →
        a.firstSourceTsNs feed pre = (a.stamps feed pre).head?.getD 0 := by
      rintro pre ⟨rest, rfl⟩
      rw [firstSourceTsNs_eq hfresh h]
      refine find_ne_zero_iff.mpr fun hshadowed => hclear (hshadowed.of_prefix ?_)
      rw [stamps_append]
      exact List.prefix_append ..
    refine ⟨fun pre hpre => ?_, ?_⟩
    · rw [head_built h]
      exact hreported pre hpre
    · rintro pre _ ⟨rest, rfl⟩ hpre hbuilt
      have hne : a.stamps feed pre ≠ [] := by
        rw [← map_built h]
        simpa using hbuilt
      rw [hreported _ hpre, hreported pre (List.IsPrefix.trans (List.prefix_append ..) hpre),
        stamps_append, List.head?_append]
      obtain ⟨ns, hns⟩ := Option.ne_none_iff_exists'.mp (mt List.head?_eq_none_iff.mp hne)
      rw [hns]
      rfl

/-- An index has no timestamp zero. -/
theorem firstStamp_of_index (hfresh : a.Fresh) (h : (a.lane feed).index.Numbered)
    (hindex : (a.lane feed).index.entries ≠ []) : FirstStamp a feed l := by
  refine (firstStamp_iff hfresh h).mpr fun ⟨hhead, _⟩ => ?_
  obtain ⟨x, -, hx⟩ := List.mem_filterMap.mp (List.mem_of_mem_head? hhead)
  obtain ⟨-, hx⟩ := Option.ite_none_right_eq_some.mp hx
  unfold Delivery.buildable at hx
  split at hx
  · contradiction
  · next ns hns =>
    obtain ⟨hfound, hzero⟩ := Option.ite_none_right_eq_some.mp hx
    have hzero : ns = 0 := Option.some.inj hzero
    obtain ⟨hok, -⟩ := Bool.and_eq_true_iff.mp hfound
    cases hid : (a.lane feed).index.jobId ns 1 with
    | error what =>
        rw [hid] at hok
        contradiction
    | ok id => exact h.nonzero _ (List.mem_of_getElem? (h.jobId hindex hid)) hzero

/-- **First timestamp**: the summary has the one of the first job, and keeps
it, unless a first job at zero is followed by another timestamp. -/
theorem first_source_iff {trace : Bool} {imu camera : String × Option (List Char)}
    (hmake : Adapter.make trace imu camera = .ok a) (feed : Feed) (l : List (Feed × Delivery)) :
    FirstStamp a feed l ↔ ¬ Shadowed (a.stamps feed l) := by
  obtain ⟨hfresh, -, hindex⟩ := Adapter.make_spec hmake
  exact firstStamp_iff hfresh (hindex feed).1

/-- Time starts at zero. -/
def fromZero : List (Feed × Delivery) :=
  [(.imu, { stamp := ⟨0, 0⟩, releaseNs := 1 }), (.imu, { stamp := ⟨5, 0⟩, releaseNs := 2 })]

theorem first_source_iff_fromZero :
    FirstStamp {} .camera fromZero ∧ ¬ FirstStamp {} .imu fromZero := by
  have hmake : Adapter.make false ("", none) ("", none) = .ok {} := rfl
  exact ⟨(first_source_iff hmake .camera fromZero).mpr (by decide),
    fun h => (first_source_iff hmake .imu fromZero).mp h (by decide)⟩

theorem first_source_iff_refuted : ¬ ∀ (a : Adapter) (trace : Bool)
    (imu camera : String × Option (List Char)), Adapter.make trace imu camera = .ok a →
    ∀ feed l, FirstStamp a feed l := by
  intro h
  have hreported := (h {} false ("", none) ("", none) rfl .imu fromZero).reported fromZero
    List.prefix_rfl
  revert hreported
  decide

end FirstStamp

end ScxSlam.BagIndex
