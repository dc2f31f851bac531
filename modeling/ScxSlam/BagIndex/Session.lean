import Mathlib.Data.List.Induction
import ScxSlam.BagIndex.Adapter

/-!
# ScxSlam.BagIndex.Session

The books of the bag adapter over a session: two streams with counters and
identities of their own, and one bounded trace for both.  A message counts as
received before anything can throw, and as published or dropped by the way its
`try` block ends, so the books are balanced behind every message.
-/

namespace ScxSlam.BagIndex

open Extract

/-! ## indexes -/

/-- Every entry carries its position, and no stamp is zero. -/
structure SourceJobIndex.Numbered (index : SourceJobIndex) : Prop where
  ordinal : ∀ k entry, index.entries[k]? = some entry → entry.2 = k + 1
  nonzero : ∀ entry ∈ index.entries, entry.1 ≠ 0

section Numbered

variable {index index' : SourceJobIndex} {stamp ordinal : Nat}

/-- One more stamp under the next number. -/
theorem SourceJobIndex.Numbered.emplace (h : index.Numbered) (hstamp : stamp ≠ 0)
    (hordinal : ordinal = index.entries.length + 1) : (index.emplace stamp ordinal).Numbered := by
  unfold SourceJobIndex.emplace
  split
  · exact h
  · constructor
    · intro k entry hk
      rw [List.getElem?_append] at hk
      split at hk
      · exact h.ordinal k entry hk
      · obtain ⟨hzero, rfl⟩ := List.getElem?_eq_some_iff.mp hk
        rw [List.length_singleton] at hzero
        rw [List.getElem_singleton]
        omega
    · intro entry hentry
      obtain hentry | hentry := List.mem_append.mp hentry
      · exact h.nonzero entry hentry
      · rw [List.mem_singleton.mp hentry]
        exact hstamp

/-- The loop numbers the stamps as it reads them. -/
theorem SourceJobIndex.Numbered.readLoop {path : String} {input out : Stream} {previous : Nat}
    (h : index.Numbered) (hread : readLoop path input index previous = .ok (out, index')) :
    index'.Numbered := by
  fun_induction BagIndex.readLoop path input index previous with
  | case1 => cases hread; exact h
  | case2 => contradiction
  | case3 => contradiction
  | case4 index previous input stamp input' heq ordinal input'' heq' hvalid ih =>
      simp only [not_or] at hvalid
      exact ih (h.emplace hvalid.1 (not_not.mp hvalid.2.2)) hread

/-- An index that is made is numbered, and empty without a path. -/
theorem numbered_make {path : String} {content : Option (List Char)}
    (h : SourceJobIndex.make path content = .ok index) :
    index.Numbered ∧ (index.entries = [] ↔ path = "") := by
  unfold SourceJobIndex.make at h
  split at h
  · next hpath =>
    cases h
    exact ⟨⟨nofun, nofun⟩, fun _ => hpath, fun _ => rfl⟩
  · next hpath =>
    split at h
    · contradiction
    · split at h
      · contradiction
      · next hread =>
        split at h
        · contradiction
        · next hkept =>
          cases h
          have hempty : SourceJobIndex.Numbered {} := ⟨nofun, nofun⟩
          refine ⟨hempty.readLoop hread, ?_⟩
          simp only [not_or] at hkept
          exact ⟨fun hnil => absurd hnil hkept.2, fun hpath' => absurd hpath' hpath⟩

end Numbered

/-! ## attempts -/

/-- A stamped job is built of a message. -/
structure Built (index : SourceJobIndex) (received : Nat) (d : Delivery) (job : StampedJob) :
    Prop where
  source : sourceStampNs d.stamp = .ok job.sourceTsNs
  id : index.jobId job.sourceTsNs received = .ok job.jobId
  release : job.releaseTsNs = d.releaseNs
  id_ne : job.jobId ≠ 0
  release_ne : job.releaseTsNs ≠ 0

section Attempt

variable {index : SourceJobIndex} {received : Nat} {d : Delivery} {job : StampedJob}
  {counts : StreamCounts}

/-- A job is made of an id, a release and a stamp that are valid. -/
theorem makeStampedJob_ok {jobId releaseTsNs : Nat} {stamp : Time}
    (h : makeStampedJob jobId releaseTsNs stamp = .ok job) :
    jobId ≠ 0 ∧ releaseTsNs ≠ 0 ∧ ∃ ns, sourceStampNs stamp = .ok ns ∧
      job = ⟨jobId, releaseTsNs, ns⟩ := by
  unfold makeStampedJob at h
  by_cases hzero : jobId = 0 ∨ releaseTsNs = 0
  · simp [hzero] at h
    contradiction
  · cases hns : sourceStampNs stamp with
    | error what =>
        simp [hzero, hns, bind, Except.bind] at h
    | ok ns =>
        simp [hzero, hns, bind, Except.bind, pure, Except.pure] at h
        exact ⟨fun h0 => hzero (.inl h0), fun h0 => hzero (.inr h0), ns, rfl, h.symm⟩

/-- The ways through the `try` block: no job is built, or the job is refused or
taken by the publisher. -/
theorem attempt_cases (index : SourceJobIndex) (received : Nat) (d : Delivery) :
    (∃ id what, attempt index received d = { jobId := id, error := some what }) ∨
      ∃ job, Built index received d job ∧
        ((∃ what, attempt index received d =
            { jobId := job.jobId, job := some job, error := some what }) ∨
          attempt index received d = { jobId := job.jobId, job := some job }) := by
  unfold attempt
  split
  · next what _ => exact .inl ⟨received, what, rfl⟩
  · next jobId hid =>
    split
    · next what _ => exact .inl ⟨jobId, what, rfl⟩
    · next job hjob =>
      obtain ⟨hne, hrelease, ns, hns, rfl⟩ := makeStampedJob_ok hjob
      rw [hns] at hid
      refine .inr ⟨⟨jobId, d.releaseNs, ns⟩, ⟨hns, hid, rfl, hne, hrelease⟩, ?_⟩
      split
      · next what _ => exact .inl ⟨what, rfl⟩
      · exact .inr rfl

/-- What is published was built, and is what the counters and the trace say. -/
theorem attempt_sent (h : (attempt index received d).sent = some job) :
    Built index received d job ∧
      attempt index received d = { jobId := job.jobId, job := some job } := by
  obtain ⟨id, what, heq⟩ | ⟨job', hbuilt, ⟨what, heq⟩ | heq⟩ := attempt_cases index received d
  · simp [heq, Attempt.sent] at h
  · simp [heq, Attempt.sent] at h
  · have hjob : job' = job := by simpa [heq, Attempt.sent] using h
    subst hjob
    exact ⟨hbuilt, heq⟩

/-- Every attempt ends as published or as dropped. -/
theorem attempt_counts (index : SourceJobIndex) (received : Nat) (d : Delivery) :
    (attempt index received d).sent.isSome.toNat +
      (attempt index received d).error.isSome.toNat = 1 := by
  obtain ⟨id, what, heq⟩ | ⟨job, -, ⟨what, heq⟩ | heq⟩ := attempt_cases index received d <;>
    rw [heq] <;> rfl

end Attempt

/-! ## one message -/

/-- The constructor of `BagAdapter`; each index with what its file holds. -/
def Adapter.make (traceDelivery : Bool) (imuIndex cameraIndex : String × Option (List Char)) :
    Except String Adapter := do
  let imu ← SourceJobIndex.make imuIndex.1 imuIndex.2
  let camera ← SourceJobIndex.make cameraIndex.1 cameraIndex.2
  return { traceDelivery := traceDelivery, imu := { index := imu }, camera := { index := camera } }

namespace Adapter

/-- The attempt that a message makes. -/
def attemptOf (a : Adapter) (feed : Feed) (d : Delivery) : Attempt :=
  attempt (a.lane feed).index ((a.lane feed).counts.received + 1) d

/-- The readings of the monotonic clock for a message, in order. -/
def readings (a : Adapter) (feed : Feed) (d : Delivery) : List Nat :=
  let found := (sourceStampNs d.stamp).bind
    ((a.lane feed).index.jobId · ((a.lane feed).counts.received + 1))
  (if a.traceDelivery then [d.entryNs] else []) ++
    (if found.isOk then [d.releaseNs] else []) ++ if a.traceDelivery then [d.exitNs] else []

/-- The readings of a session. -/
def clockReadings : Adapter → List (Feed × Delivery) → List Nat
  | _, [] => []
  | a, (feed, d) :: rest => a.readings feed d ++ clockReadings (a.publishJob feed d).1 rest

section Message

variable (a : Adapter) (feed other : Feed) (d : Delivery)

/-- Tracing leaves the lanes alone. -/
@[simp] theorem lane_trace (row : DeliveryRecord) : (a.trace row).lane other = a.lane other := by
  unfold trace
  repeat' split
  all_goals cases other <;> rfl

/-- A publication counts for its own feed. -/
theorem counts_publishJob : ((a.publishJob feed d).1.lane other).counts =
    if other = feed then (a.attemptOf feed d).count (a.lane feed).counts
    else (a.lane other).counts := by
  unfold publishJob
  rw [lane_trace]
  cases feed <;> cases other <;> rfl

/-- What a publication sends is its attempt's. -/
theorem sent_publishJob : (a.publishJob feed d).2 =
    (a.attemptOf feed d).sent.map fun job => ⟨feed, d.stamp, job⟩ := rfl

@[simp] theorem traceDelivery_publishJob :
    (a.publishJob feed d).1.traceDelivery = a.traceDelivery := by
  unfold publishJob trace
  dsimp only
  repeat' split
  all_goals cases feed <;> rfl

/-- The trace of a message is kept, or counted as omitted. -/
theorem trace_publishJob (ht : a.traceDelivery = true) :
    (a.deliveryTrace.length < traceLimit ∧
      (a.publishJob feed d).1.deliveryTrace =
        a.deliveryTrace ++ [(a.attemptOf feed d).record feed.stream d] ∧
      (a.publishJob feed d).1.traceOmitted = a.traceOmitted) ∨
    (traceLimit ≤ a.deliveryTrace.length ∧
      (a.publishJob feed d).1.deliveryTrace = a.deliveryTrace ∧
      (a.publishJob feed d).1.traceOmitted = a.traceOmitted + 1) := by
  have hsame : ∀ counts, (a.setCounts feed counts).traceDelivery = a.traceDelivery ∧
      (a.setCounts feed counts).deliveryTrace = a.deliveryTrace ∧
      (a.setCounts feed counts).traceOmitted = a.traceOmitted := by
    intro counts
    cases feed <;> exact ⟨rfl, rfl, rfl⟩
  obtain ⟨hdelivery, htrace, homitted⟩ := hsame ((a.attemptOf feed d).count (a.lane feed).counts)
  have hpublish : (a.publishJob feed d).1 = (a.setCounts feed
      ((a.attemptOf feed d).count (a.lane feed).counts)).trace
        ((a.attemptOf feed d).record feed.stream d) := rfl
  rw [hpublish, trace, hdelivery, ht, if_neg nofun, htrace]
  split
  · next hroom => exact .inl ⟨hroom, rfl, homitted⟩
  · next hfull => exact .inr ⟨Nat.le_of_not_lt hfull, rfl, congrArg (· + 1) homitted⟩

/-- Without a trace there are no rows. -/
theorem trace_publishJob_off (ht : a.traceDelivery = false) :
    (a.publishJob feed d).1.deliveryTrace = a.deliveryTrace := by
  unfold publishJob trace
  dsimp only
  cases feed <;> simp [setCounts, ht]

end Message

/-! ## sessions -/

/-- A session in two parts. -/
theorem session_append (a : Adapter) (l l' : List (Feed × Delivery)) : a.session (l ++ l') =
    (((a.session l).1.session l').1, (a.session l).2 ++ ((a.session l).1.session l').2) := by
  induction l generalizing a with
  | nil => rfl
  | cons x l ih => simp only [List.cons_append, session, ih, List.append_assoc]

/-- A session and one more message. -/
theorem session_concat (a : Adapter) (l : List (Feed × Delivery)) (feed : Feed) (d : Delivery) :
    a.session (l ++ [(feed, d)]) = (((a.session l).1.publishJob feed d).1,
      (a.session l).2 ++ ((a.session l).1.publishJob feed d).2.toList) := by
  simp only [session_append, session, List.append_nil]

end Adapter

/-! ## the books -/

/-- What the trace says of a published job. -/
def Sent.key (p : Sent) : String × Nat × Nat × Nat :=
  (p.feed.stream, p.job.jobId, p.job.sourceTsNs, p.job.releaseTsNs)

def DeliveryRecord.key (row : DeliveryRecord) : String × Nat × Nat × Nat :=
  (row.stream, row.jobId, row.sourceNs, row.releaseNs)

/-- An adapter behind a list of messages: its counters, what it has published
and what it has traced. -/
structure Books (a : Adapter) (l : List (Feed × Delivery)) (b : Adapter) (sent : List Sent) :
    Prop where
  traceDelivery : b.traceDelivery = a.traceDelivery
  index : ∀ feed, (b.lane feed).index = (a.lane feed).index
  received : ∀ feed, (b.lane feed).counts.received = l.countP (·.1 = feed)
  published : ∀ feed, (b.lane feed).counts.published = sent.countP (·.feed = feed)
  balanced : ∀ feed, (b.lane feed).counts.received =
    (b.lane feed).counts.published + (b.lane feed).counts.dropped
  /-- receive ordinals grow -/
  ordered : ∀ feed, (a.lane feed).index.entries = [] →
    ((sent.filter (·.feed = feed)).map (·.job.jobId)).Pairwise (· < ·) ∧
      ∀ p ∈ sent, p.feed = feed → p.job.jobId ≤ (b.lane feed).counts.received
  limit : b.deliveryTrace.length ≤ traceLimit
  traced : a.traceDelivery = true → b.deliveryTrace.length + b.traceOmitted = l.length
  rows : a.traceDelivery = true → b.traceOmitted = 0 →
    (b.deliveryTrace.filter (·.published)).map DeliveryRecord.key = sent.map Sent.key

section Books

variable {a b : Adapter} {l : List (Feed × Delivery)} {sent : List Sent} {feed other : Feed}
  {d : Delivery}

/-- One more message of a feed. -/
theorem countP_concat (l : List (Feed × Delivery)) (feed other : Feed) (d : Delivery) :
    (l ++ [(feed, d)]).countP (·.1 = other) =
      l.countP (·.1 = other) + if other = feed then 1 else 0 := by
  rw [List.countP_append, List.countP_singleton]
  by_cases h : feed = other
  · simp [h]
  · simp [h, Ne.symm h]

/-- One more message sent. -/
theorem countP_sent (b : Adapter) (feed other : Feed) (d : Delivery) :
    (b.publishJob feed d).2.toList.countP (·.feed = other) =
      if other = feed then (b.attemptOf feed d).sent.isSome.toNat else 0 := by
  rw [Adapter.sent_publishJob]
  cases (b.attemptOf feed d).sent with
  | none => simp
  | some job => simp [eq_comm]

/-- A job without an index has its receive ordinal. -/
theorem jobId_of_no_index {job : StampedJob}
    (hindex : (b.lane feed).index.entries = []) (hjob : (b.attemptOf feed d).sent = some job) :
    job.jobId = (b.lane feed).counts.received + 1 := by
  have hid := (attempt_sent hjob).1.id
  rw [SourceJobIndex.jobId, if_pos hindex] at hid
  exact (Except.ok.inj hid).symm

/-- The receive ordinals of a feed go on. -/
theorem Books.ordered_publishJob (h : Books a l b sent)
    (hindex : (a.lane other).index.entries = []) :
    (((sent ++ (b.publishJob feed d).2.toList).filter (·.feed = other)).map
        (·.job.jobId)).Pairwise (· < ·) ∧
      ∀ p ∈ sent ++ (b.publishJob feed d).2.toList, p.feed = other →
        p.job.jobId ≤ ((b.publishJob feed d).1.lane other).counts.received := by
  obtain ⟨hpairs, hle⟩ := h.ordered other hindex
  have hgrows : (b.lane other).counts.received ≤
      ((b.publishJob feed d).1.lane other).counts.received := by
    rw [Adapter.counts_publishJob]
    split
    · next heq => exact heq ▸ Nat.le_succ _
    · exact Nat.le_refl _
  rw [Adapter.sent_publishJob]
  cases hsent : (b.attemptOf feed d).sent with
  | none =>
      simp only [Option.map_none, Option.toList_none, List.append_nil]
      exact ⟨hpairs, fun p hp hfeed => Nat.le_trans (hle p hp hfeed) hgrows⟩
  | some job =>
      simp only [Option.map_some, Option.toList_some, List.filter_append, List.map_append]
      by_cases hfeed : feed = other
      · subst hfeed
        rw [← h.index feed] at hindex
        have hid := jobId_of_no_index hindex hsent
        rw [Adapter.counts_publishJob, if_pos rfl]
        refine ⟨List.pairwise_append.mpr ⟨hpairs, by simp, ?_⟩, ?_⟩
        · intro old hold new hnew
          obtain ⟨p, hp, rfl⟩ := List.mem_map.mp hold
          obtain ⟨hp, hpfeed⟩ := List.mem_filter.mp hp
          have hle' := hle p hp (of_decide_eq_true hpfeed)
          have hnew : new = job.jobId := by simpa using hnew
          omega
        · intro p hp hpfeed
          obtain hp | hp := List.mem_append.mp hp
          · exact Nat.le_succ_of_le (hle p hp hpfeed)
          · rw [List.mem_singleton.mp hp]
            exact Nat.le_of_eq hid
      · have hnone : List.filter (fun p : Sent => decide (p.feed = other))
            [⟨feed, d.stamp, job⟩] = [] := by simp [hfeed]
        rw [hnone, List.map_nil, List.append_nil]
        refine ⟨hpairs, fun p hp hpfeed => ?_⟩
        obtain hp | hp := List.mem_append.mp hp
        · exact Nat.le_trans (hle p hp hpfeed) hgrows
        · rw [List.mem_singleton.mp hp] at hpfeed
          exact absurd hpfeed hfeed

/-- As long as every trace is kept, the published ones are those of the jobs. -/
theorem Books.rows_publishJob (h : Books a l b sent) (ht : a.traceDelivery = true)
    (homitted : (b.publishJob feed d).1.traceOmitted = 0) :
    ((b.publishJob feed d).1.deliveryTrace.filter (·.published)).map DeliveryRecord.key =
      (sent ++ (b.publishJob feed d).2.toList).map Sent.key := by
  have htb : b.traceDelivery = true := h.traceDelivery.trans ht
  obtain ⟨-, htrace, hkept⟩ | ⟨-, -, hmore⟩ := b.trace_publishJob feed d htb
  · have hrows := h.rows ht (hkept ▸ homitted)
    rw [htrace, Adapter.sent_publishJob, List.filter_append, List.map_append, List.map_append,
      hrows]
    congr 1
    cases hsent : (b.attemptOf feed d).sent with
    | none => simp [Attempt.record, hsent]
    | some job =>
        obtain ⟨-, hattempt⟩ := attempt_sent hsent
        have hattempt : b.attemptOf feed d = { jobId := job.jobId, job := some job } := hattempt
        rw [hattempt]
        rfl
  · omega

/-- One more publication keeps the books. -/
theorem Books.publishJob (h : Books a l b sent) (feed : Feed) (d : Delivery) :
    Books a (l ++ [(feed, d)]) (b.publishJob feed d).1
      (sent ++ (b.publishJob feed d).2.toList) := by
  constructor
  case traceDelivery => rw [Adapter.traceDelivery_publishJob, h.traceDelivery]
  case index => exact fun other => (lane_publishJob b feed other d).trans (h.index other)
  case received =>
      intro other
      rw [countP_concat, Adapter.counts_publishJob, ← h.received other]
      split
      · next heq => exact heq ▸ rfl
      · rfl
  case published =>
      intro other
      rw [List.countP_append, countP_sent, Adapter.counts_publishJob, ← h.published other]
      split
      · next heq => exact heq ▸ rfl
      · rfl
  case balanced =>
      intro other
      have hbalanced := h.balanced other
      rw [Adapter.counts_publishJob]
      split
      · next heq =>
        subst heq
        have hone := attempt_counts (b.lane other).index ((b.lane other).counts.received + 1) d
        simp only [Attempt.count, Adapter.attemptOf] at hone ⊢
        omega
      · exact hbalanced
  case ordered => exact fun other hindex => h.ordered_publishJob hindex
  case limit =>
      cases ht : b.traceDelivery with
      | false =>
          rw [b.trace_publishJob_off feed d ht]
          exact h.limit
      | true =>
          obtain ⟨hroom, htrace, -⟩ | ⟨-, htrace, -⟩ := b.trace_publishJob feed d ht
          · rw [htrace, List.length_append, List.length_singleton]
            exact hroom
          · rw [htrace]
            exact h.limit
  case traced =>
      intro ht
      have htraced := h.traced ht
      obtain ⟨-, htrace, hkept⟩ | ⟨-, htrace, hmore⟩ :=
        b.trace_publishJob feed d (h.traceDelivery.trans ht)
      · rw [htrace, hkept, List.length_append, List.length_append]
        simp only [List.length_singleton]
        omega
      · rw [htrace, hmore, List.length_append, List.length_singleton]
        omega
  case rows => exact fun ht homitted => h.rows_publishJob ht homitted

/-- An adapter before its first message. -/
structure Adapter.Fresh (a : Adapter) : Prop where
  counts : ∀ feed, (a.lane feed).counts = {}
  trace : a.deliveryTrace = []
  omitted : a.traceOmitted = 0

/-- The books of every session. -/
theorem books_session (h : a.Fresh) (l : List (Feed × Delivery)) :
    Books a l (a.session l).1 (a.session l).2 := by
  induction l using List.reverseRecOn with
  | nil =>
      constructor
      case traceDelivery => rfl
      case index => exact fun _ => rfl
      case received => exact fun feed => by rw [Adapter.session, h.counts]; rfl
      case published => exact fun feed => by rw [Adapter.session, h.counts]; rfl
      case balanced => exact fun feed => by rw [Adapter.session, h.counts]; rfl
      case ordered => exact fun _ _ => ⟨.nil, fun p hp => absurd hp (by simp [Adapter.session])⟩
      case limit => rw [Adapter.session, h.trace]; exact Nat.zero_le _
      case traced => exact fun _ => by rw [Adapter.session, h.trace, h.omitted]; rfl
      case rows => exact fun _ _ => by rw [Adapter.session, h.trace]; rfl
  | append_singleton l x ih =>
      rw [Adapter.session_concat]
      exact ih.publishJob x.1 x.2

/-! ## what was published -/

/-- A published job against the message it was made of, the `ordinal`-th of its
feed. -/
structure Published (a : Adapter) (ordinal : Nat) (d : Delivery) (p : Sent) : Prop where
  stamp : p.stamp = d.stamp
  id_ne : p.job.jobId ≠ 0
  received : (a.lane p.feed).index.entries = [] → p.job.jobId = ordinal
  indexed : (a.lane p.feed).index.entries ≠ [] →
    (a.lane p.feed).index.entries[p.job.jobId - 1]? = some (p.job.sourceTsNs, p.job.jobId)
  /-- the seconds of a message are an `int32` -/
  source : d.stamp.sec < 2 ^ 31 → (p.job.sourceTsNs : Int) = sourceNs d.stamp
  release : p.job.releaseTsNs = d.releaseNs ∧ d.releaseNs ≠ 0

/-- A stamp of less than 2^31 seconds is exact. -/
theorem sourceStampNs_exact {stamp : Time} {ns : Nat} (h : sourceStampNs stamp = .ok ns)
    (hsec : stamp.sec < 2 ^ 31) : (ns : Int) = sourceNs stamp := by
  unfold sourceStampNs at h
  split at h
  · contradiction
  · next hrange =>
    have hranged : stamp.Ranged := by
      refine ⟨?_, hsec, ?_⟩ <;> omega
    have heq := (sourceStampNs_eq hranged).1
    unfold sourceStampNs at heq
    rw [if_neg hrange] at heq
    cases h
    rw [Except.ok.inj heq, Int.toNat_of_nonneg]
    unfold sourceNs
    omega

/-- An identity of an index is the place of its entry. -/
theorem SourceJobIndex.Numbered.jobId {index : SourceJobIndex} {ns c id : Nat}
    (h : index.Numbered) (hne : index.entries ≠ []) (hid : index.jobId ns c = .ok id) :
    index.entries[id - 1]? = some (ns, id) := by
  rw [SourceJobIndex.jobId, if_neg hne] at hid
  split at hid
  · contradiction
  · next found hfound =>
    cases hid
    obtain ⟨k, hk⟩ := List.getElem?_of_mem (List.mem_of_find?_eq_some hfound)
    have hkey : found.1 = ns := by simpa using List.find?_some hfound
    have hordinal := h.ordinal k found hk
    rw [hordinal, Nat.add_sub_cancel, hk, ← hkey, ← hordinal]

/-- What is sent carries the number and the stamp of its message. -/
theorem published_publishJob (h : Books a l b sent)
    (hnumbered : (a.lane feed).index.Numbered) {p : Sent} (hp : (b.publishJob feed d).2 = some p) :
    p.feed = feed ∧ Published a (l.countP (·.1 = feed) + 1) d p := by
  rw [Adapter.sent_publishJob] at hp
  obtain ⟨job, hjob, rfl⟩ := Option.map_eq_some_iff.mp hp
  obtain ⟨hbuilt, -⟩ := attempt_sent hjob
  refine ⟨rfl, rfl, hbuilt.id_ne, ?_, ?_, ?_, hbuilt.release, ?_⟩
  · intro hindex
    rw [← h.received feed]
    exact jobId_of_no_index (h.index feed ▸ hindex) hjob
  · intro hindex
    have hid := hbuilt.id
    rw [h.index feed] at hid
    exact hnumbered.jobId hindex hid
  · exact sourceStampNs_exact hbuilt.source
  · rw [← hbuilt.release]
    exact hbuilt.release_ne

/-- What a list of messages splits at stays there behind one more message. -/
theorem exists_split_concat {P : List (Feed × Delivery) → Feed → Delivery → Prop}
    {l : List (Feed × Delivery)} (x : Feed × Delivery)
    (h : ∃ pre feed d rest, l = pre ++ (feed, d) :: rest ∧ P pre feed d) :
    ∃ pre feed d rest, l ++ [x] = pre ++ (feed, d) :: rest ∧ P pre feed d := by
  obtain ⟨pre, feed, d, rest, rfl, hmade⟩ := h
  exact ⟨pre, feed, d, rest ++ [x], by rw [List.append_assoc, List.cons_append], hmade⟩

/-- Every published job was published for a message. -/
theorem mem_session (a : Adapter) (l : List (Feed × Delivery)) :
    ∀ p ∈ (a.session l).2, ∃ pre feed d rest, l = pre ++ (feed, d) :: rest ∧
      ((a.session pre).1.publishJob feed d).2 = some p := by
  induction l using List.reverseRecOn with
  | nil => exact nofun
  | append_singleton l x ih =>
      rw [Adapter.session_concat]
      intro p hp
      obtain hp | hp := List.mem_append.mp hp
      · exact exists_split_concat x (ih p hp)
      · exact ⟨l, x.1, x.2, [], rfl, Option.mem_toList.mp hp⟩

/-! ## when it was published -/

/-- The clock readings of a session in two parts. -/
theorem Adapter.clockReadings_append (a : Adapter) (l l' : List (Feed × Delivery)) :
    a.clockReadings (l ++ l') = a.clockReadings l ++ (a.session l).1.clockReadings l' := by
  induction l generalizing a with
  | nil => rfl
  | cons x l ih => simp only [List.cons_append, clockReadings, session, ih, List.append_assoc]

/-- Every row is the trace of a message. -/
theorem row_session (h : a.deliveryTrace = []) (l : List (Feed × Delivery)) :
    ∀ row ∈ (a.session l).1.deliveryTrace, ∃ pre feed d rest, l = pre ++ (feed, d) :: rest ∧
      row = ((a.session pre).1.attemptOf feed d).record feed.stream d := by
  induction l using List.reverseRecOn with
  | nil =>
      rw [Adapter.session, h]
      simp
  | append_singleton l x ih =>
      obtain ⟨feed, d⟩ := x
      have hold : ∀ row ∈ (a.session l).1.deliveryTrace, ∃ pre feed' d' rest,
          l ++ [(feed, d)] = pre ++ (feed', d') :: rest ∧
            row = ((a.session pre).1.attemptOf feed' d').record feed'.stream d' :=
        fun row hrow => exists_split_concat (feed, d) (ih row hrow)
      rw [Adapter.session_concat]
      intro row hrow
      cases ht : (a.session l).1.traceDelivery with
      | false =>
          rw [(a.session l).1.trace_publishJob_off feed d ht] at hrow
          exact hold row hrow
      | true =>
          obtain ⟨-, htrace, -⟩ | ⟨-, htrace, -⟩ := (a.session l).1.trace_publishJob feed d ht
          · rw [htrace] at hrow
            obtain hrow | hrow := List.mem_append.mp hrow
            · exact hold row hrow
            · exact ⟨l, feed, d, [], rfl, List.mem_singleton.mp hrow⟩
          · rw [htrace] at hrow
            exact hold row hrow

/-- Under a monotone clock a published row is in order. -/
theorem timed_session (h : a.Fresh) (ht : a.traceDelivery = true)
    (hclock : (a.clockReadings l).Pairwise (· ≤ ·)) :
    ∀ row ∈ (a.session l).1.deliveryTrace, row.published = true →
      row.entryNs ≤ row.releaseNs ∧ row.releaseNs ≤ row.exitNs := by
  intro row hrow hpublished
  obtain ⟨pre, feed, d, rest, rfl, rfl⟩ := row_session h.trace l row hrow
  obtain ⟨job, hjob⟩ : ∃ job, ((a.session pre).1.attemptOf feed d).sent = some job :=
    Option.isSome_iff_exists.mp hpublished
  obtain ⟨hbuilt, hattempt⟩ := attempt_sent hjob
  have hattempt : (a.session pre).1.attemptOf feed d = { jobId := job.jobId, job := some job } :=
    hattempt
  have hbooks := books_session h pre
  have hreadings : (a.session pre).1.readings feed d = [d.entryNs, d.releaseNs, d.exitNs] := by
    unfold Adapter.readings
    rw [hbooks.traceDelivery, ht, hbuilt.source]
    simp [Except.bind, hbuilt.id, Except.isOk, Except.toBool]
  rw [Adapter.clockReadings_append, Adapter.clockReadings, hreadings] at hclock
  have hown := (List.pairwise_append.mp (List.pairwise_append.mp hclock).2.1).1
  rw [hattempt]
  show d.entryNs ≤ job.releaseTsNs ∧ job.releaseTsNs ≤ d.exitNs
  rw [hbuilt.release]
  simp only [List.pairwise_cons, List.mem_cons, List.not_mem_nil] at hown
  exact ⟨hown.1 _ (.inl rfl), hown.2.1 _ (.inl rfl)⟩

/-! ## the account -/

/-- What an adapter has to show behind a list of messages. -/
structure Accounted (a : Adapter) (l : List (Feed × Delivery)) : Prop where
  balanced : ∀ feed, let counts := ((a.session l).1.lane feed).counts
    counts.received = counts.published + counts.dropped ∧
      counts.received = l.countP (·.1 = feed) ∧
      counts.published = (a.session l).2.countP (·.feed = feed)
  jobs : ∀ p ∈ (a.session l).2, ∃ pre d rest, l = pre ++ (p.feed, d) :: rest ∧
    Published a (pre.countP (·.1 = p.feed) + 1) d p
  increasing : ∀ feed, (a.lane feed).index.entries = [] →
    (((a.session l).2.filter (·.feed = feed)).map (·.job.jobId)).Pairwise (· < ·)
  limit : (a.session l).1.deliveryTrace.length ≤ traceLimit
  /-- every message is a record or omitted -/
  traced : a.traceDelivery = true →
    (a.session l).1.deliveryTrace.length + (a.session l).1.traceOmitted =
      (a.session l).1.imu.counts.received + (a.session l).1.camera.counts.received
  rows : a.traceDelivery = true → (a.session l).1.traceOmitted = 0 →
    ((a.session l).1.deliveryTrace.filter (·.published)).map DeliveryRecord.key =
      (a.session l).2.map Sent.key
  timed : a.traceDelivery = true → (a.clockReadings l).Pairwise (· ≤ ·) →
    ∀ row ∈ (a.session l).1.deliveryTrace, row.published = true →
      row.entryNs ≤ row.releaseNs ∧ row.releaseNs ≤ row.exitNs

/-- A message is of one feed or the other. -/
theorem countP_feeds (l : List (Feed × Delivery)) :
    l.countP (·.1 = .imu) + l.countP (·.1 = .camera) = l.length := by
  induction l with
  | nil => rfl
  | cons x l ih =>
      obtain ⟨feed, d⟩ := x
      rw [List.countP_cons, List.countP_cons, List.length_cons]
      cases feed <;> simp <;> omega

/-- An adapter that has just been made. -/
theorem Adapter.make_spec {trace : Bool} {imu camera : String × Option (List Char)}
    (h : Adapter.make trace imu camera = .ok a) : a.Fresh ∧ a.traceDelivery = trace ∧
      ∀ feed, (a.lane feed).index.Numbered ∧ ((a.lane feed).index.entries = [] ↔
        (match feed with | .imu => imu.1 | .camera => camera.1) = "") := by
  unfold Adapter.make at h
  cases himu : SourceJobIndex.make imu.1 imu.2 with
  | error what =>
      rw [himu] at h
      contradiction
  | ok imuIndex =>
      cases hcamera : SourceJobIndex.make camera.1 camera.2 with
      | error what =>
          rw [himu, hcamera] at h
          contradiction
      | ok cameraIndex =>
          rw [himu, hcamera] at h
          cases h
          refine ⟨⟨fun feed => ?_, rfl, rfl⟩, rfl, fun feed => ?_⟩
          · cases feed <;> rfl
          · cases feed
            · exact numbered_make himu
            · exact numbered_make hcamera

/-- **Adapter accounting**: behind every sequence of messages the counters, the
published jobs and the trace of an adapter agree.  A feed without a path has no
index. -/
theorem adapter_accounted {trace : Bool} {imu camera : String × Option (List Char)}
    (h : Adapter.make trace imu camera = .ok a) (l : List (Feed × Delivery)) :
    Accounted a l ∧ a.traceDelivery = trace ∧ ∀ feed, (a.lane feed).index.entries = [] ↔
      (match feed with | .imu => imu.1 | .camera => camera.1) = "" := by
  obtain ⟨hfresh, htrace, hindex⟩ := Adapter.make_spec h
  have hbooks := books_session hfresh l
  refine ⟨?_, htrace, fun feed => (hindex feed).2⟩
  constructor
  case balanced =>
      exact fun feed => ⟨hbooks.balanced feed, hbooks.received feed, hbooks.published feed⟩
  case jobs =>
      intro p hp
      obtain ⟨pre, feed, d, rest, rfl, hsent⟩ := mem_session a l p hp
      obtain ⟨rfl, hpublished⟩ :=
        published_publishJob (books_session hfresh pre) (hindex feed).1 hsent
      exact ⟨pre, d, rest, rfl, hpublished⟩
  case increasing => exact fun feed hnone => (hbooks.ordered feed hnone).1
  case limit => exact hbooks.limit
  case traced =>
      intro ht
      rw [hbooks.traced ht, ← countP_feeds, ← hbooks.received .imu, ← hbooks.received .camera]
      rfl
  case rows => exact hbooks.rows
  case timed => exact fun ht hclock => timed_session hfresh ht hclock

/-- Two messages and a stamp outside the range of a ROS time. -/
theorem adapter_accounted_twoImu :
    let l : List (Feed × Delivery) := [
      (.imu, { stamp := ⟨1, 5⟩, entryNs := 3, releaseNs := 4, exitNs := 5 }),
      (.camera, { stamp := ⟨-1, 0⟩, entryNs := 6, releaseNs := 7, exitNs := 7 }),
      (.imu, { stamp := ⟨1, 7⟩, entryNs := 8, releaseNs := 9, exitNs := 9 })]
    let a : Adapter := { traceDelivery := true }
    Accounted a l ∧ ((a.session l).2.map (·.job.jobId)) = [1, 2] :=
  ⟨(adapter_accounted (rfl : Adapter.make true ("", none) ("", none) = .ok _) _).1, by decide⟩

end Books

end ScxSlam.BagIndex
