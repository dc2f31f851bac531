import ScxSlam.BagIndex.RoundTrip

/-!
# ScxSlam.BagIndex.Adapter

`BagAdapter::publish_job`: every sensor message of a playback becomes a
stamped job.  With an index its identity is the bag ordinal of its timestamp,
so what was lost or came first in this session does not matter.

Clock readings and the outcome of `publisher->publish` come with the message.
-/

namespace ScxSlam.BagIndex

/-! ## data -/

structure StampedJob where
  jobId : Nat
  releaseTsNs : Nat
  sourceTsNs : Nat
  deriving DecidableEq, Repr

/-- `make_stamped_job`. -/
def makeStampedJob (jobId releaseTsNs : Nat) (stamp : Time) : Except String StampedJob := do
  if jobId = 0 ∨ releaseTsNs = 0 then
    throw "job id and monotonic release timestamp must be nonzero"
  let sourceTsNs ← sourceStampNs stamp
  return { jobId := jobId, releaseTsNs := releaseTsNs, sourceTsNs := sourceTsNs }

structure StreamCounts where
  received : Nat := 0
  published : Nat := 0
  dropped : Nat := 0
  firstSourceTsNs : Nat := 0
  deriving DecidableEq, Repr

structure DeliveryRecord where
  stream : String := ""
  jobId : Nat := 0
  sourceNs : Nat := 0
  entryNs : Nat := 0
  realNs : Nat := 0
  releaseNs : Nat := 0
  exitNs : Nat := 0
  rmwSourceNs : Int := 0
  rmwReceivedNs : Int := 0
  published : Bool := false
  deriving DecidableEq, Repr

/-- The two subscriptions. -/
inductive Feed
  | imu
  | camera
  deriving DecidableEq, Repr

/-- What a subscription's callback gets: the message's header stamp, its RMW
times, the readings of the clocks in call order, and how `publish` ends. -/
structure Delivery where
  stamp : Time
  rmwSourceNs : Int := 0
  rmwReceivedNs : Int := 0
  entryNs : Nat := 0
  realNs : Nat := 0
  releaseNs : Nat
  exitNs : Nat := 0
  publish : Except String Unit := .ok ()

/-- What is particular to a feed. -/
structure Lane where
  counts : StreamCounts := {}
  index : SourceJobIndex := {}
  deriving DecidableEq, Repr

/-- `BagAdapter`. -/
structure Adapter where
  traceDelivery : Bool := false
  traceOmitted : Nat := 0
  deliveryTrace : List DeliveryRecord := []
  imu : Lane := {}
  camera : Lane := {}
  deriving DecidableEq, Repr

/-- A job that reached its topic, and the message it was made of. -/
structure Sent where
  feed : Feed
  stamp : Time
  job : StampedJob
  deriving DecidableEq, Repr

/-! ## publishing -/

/-- The stream's name in traces and errors. -/
def Feed.stream : Feed → String
  | .imu => "IMU"
  | .camera => "camera"

def Adapter.lane (a : Adapter) : Feed → Lane
  | .imu => a.imu
  | .camera => a.camera

def Adapter.setCounts (a : Adapter) (feed : Feed) (counts : StreamCounts) : Adapter :=
  match feed with
  | .imu => { a with imu := { a.imu with counts := counts } }
  | .camera => { a with camera := { a.camera with counts := counts } }

def traceLimit : Nat := 100000

/-- The outcome of the `try` block: the job id at its end, the job once it is
made, and the error that ended the block. -/
structure Attempt where
  jobId : Nat
  job : Option StampedJob := none
  error : Option String := none
  deriving DecidableEq, Repr

/-- The `try` block of `publish_job`. -/
def attempt (index : SourceJobIndex) (received : Nat) (d : Delivery) : Attempt :=
  match (sourceStampNs d.stamp).bind (index.jobId · received) with
  | .error what => { jobId := received, error := some what }
  | .ok jobId => match makeStampedJob jobId d.releaseNs d.stamp with
      | .error what => { jobId := jobId, error := some what }
      | .ok job => match d.publish with
          | .error what => { jobId := jobId, job := some job, error := some what }
          | .ok () => { jobId := jobId, job := some job }

/-- The job an attempt published. -/
def Attempt.sent (r : Attempt) : Option StampedJob := if r.error.isSome then none else r.job

/-- The message of the error log. -/
def Attempt.logged (r : Attempt) (stream : String) : Option String :=
  r.error.map fun what => "dropping " ++ stream ++ " job " ++ toString r.jobId ++ ": " ++ what

/-- The counters after an attempt. -/
def Attempt.count (r : Attempt) (counts : StreamCounts) : StreamCounts where
  received := counts.received + 1
  published := counts.published + r.sent.isSome.toNat
  dropped := counts.dropped + r.error.isSome.toNat
  firstSourceTsNs := match r.job with
    | none => counts.firstSourceTsNs
    | some job => if counts.firstSourceTsNs = 0 then job.sourceTsNs else counts.firstSourceTsNs

/-- The trace of an attempt.  The exit clock is read once, after `publish` or
at the end. -/
def Attempt.record (r : Attempt) (stream : String) (d : Delivery) : DeliveryRecord where
  stream := stream
  jobId := r.jobId
  sourceNs := (r.job.map (·.sourceTsNs)).getD 0
  entryNs := d.entryNs
  realNs := d.realNs
  releaseNs := (r.job.map (·.releaseTsNs)).getD 0
  exitNs := d.exitNs
  rmwSourceNs := d.rmwSourceNs
  rmwReceivedNs := d.rmwReceivedNs
  published := r.sent.isSome

/-- The end of `publish_job`. -/
def Adapter.trace (a : Adapter) (row : DeliveryRecord) : Adapter :=
  if a.traceDelivery = false then a
  else if a.deliveryTrace.length < traceLimit then
    { a with deliveryTrace := a.deliveryTrace ++ [row] }
  else { a with traceOmitted := a.traceOmitted + 1 }

/-- `publish_job`. -/
def Adapter.publishJob (a : Adapter) (feed : Feed) (d : Delivery) : Adapter × Option Sent :=
  let lane := a.lane feed
  let r := attempt lane.index (lane.counts.received + 1) d
  ((a.setCounts feed (r.count lane.counts)).trace (r.record feed.stream d),
    r.sent.map fun job => { feed := feed, stamp := d.stamp, job := job })

/-- A session: the messages that are delivered, in order, and the jobs that
are published. -/
def Adapter.session : Adapter → List (Feed × Delivery) → Adapter × List Sent
  | a, [] => (a, [])
  | a, (feed, d) :: rest =>
      let (a, sent) := a.publishJob feed d
      let (a, more) := a.session rest
      (a, sent.toList ++ more)

/-! ## identities -/

section Identity

variable {index : SourceJobIndex} {a : Adapter} {feed : Feed} {d : Delivery} {p : Sent}

/-- An index never changes. -/
theorem lane_publishJob (a : Adapter) (feed other : Feed) (d : Delivery) :
    ((a.publishJob feed d).1.lane other).index = (a.lane other).index := by
  unfold Adapter.publishJob Adapter.trace
  dsimp only
  repeat' split
  all_goals cases feed <;> cases other <;> rfl

theorem sent_attempt {received : Nat} {job : StampedJob}
    (h : (attempt index received d).sent = some job) :
    ∃ ns, sourceStampNs d.stamp = .ok ns ∧ index.jobId ns received = .ok job.jobId := by
  unfold attempt at h
  split at h
  · simp [Attempt.sent] at h
  · next jobId hid =>
    split at h
    · simp [Attempt.sent] at h
    · next job' hjob =>
      have hsame : job'.jobId = jobId := by
        simp only [makeStampedJob, bind, Except.bind, pure, Except.pure] at hjob
        repeat' split at hjob
        all_goals first
          | contradiction
          | cases hjob
            rfl
      split at h
      · simp [Attempt.sent] at h
      · have hjob : job' = job := by simpa [Attempt.sent] using h
        subst hjob
        rw [hsame]
        cases hns : sourceStampNs d.stamp with
        | error what =>
            rw [hns] at hid
            contradiction
        | ok ns =>
            rw [hns] at hid
            exact ⟨ns, rfl, hid⟩

/-- A published job has the identity its timestamp has in the feed's index,
for some receive counter. -/
theorem sent_session {deliveries : List (Feed × Delivery)} (h : p ∈ (a.session deliveries).2) :
    ∃ ns c, sourceStampNs p.stamp = .ok ns ∧
      (a.lane p.feed).index.jobId ns c = .ok p.job.jobId := by
  induction deliveries generalizing a with
  | nil => contradiction
  | cons x rest ih =>
      obtain ⟨feed, d⟩ := x
      simp only [Adapter.session, List.mem_append, Option.mem_toList] at h
      obtain h | h := h
      · obtain ⟨job, hjob, rfl⟩ := Option.map_eq_some_iff.mp h
        obtain ⟨ns, hns, hid⟩ := sent_attempt hjob
        exact ⟨ns, _, hns, hid⟩
      · obtain ⟨ns, c, hns, hid⟩ := ih h
        rw [lane_publishJob] at hid
        exact ⟨ns, c, hns, hid⟩

/-- A delivered message with an identity is published, unless the clock reads
zero or `publish` throws. -/
theorem delivered_sent {deliveries : List (Feed × Delivery)} {ns : Nat}
    (h : (feed, d) ∈ deliveries) (hns : sourceStampNs d.stamp = .ok ns)
    (hid : ∀ c, ∃ id, id ≠ 0 ∧ (a.lane feed).index.jobId ns c = .ok id)
    (hrelease : d.releaseNs ≠ 0) (hpublish : d.publish = .ok ()) :
    ∃ p ∈ (a.session deliveries).2, p.feed = feed ∧ p.stamp = d.stamp := by
  induction deliveries generalizing a with
  | nil => contradiction
  | cons x rest ih =>
      simp only [Adapter.session, List.mem_append, Option.mem_toList]
      obtain rfl | h := List.mem_cons.mp h
      · obtain ⟨id, hne, hid⟩ := hid ((a.lane feed).counts.received + 1)
        have hsent : (attempt (a.lane feed).index ((a.lane feed).counts.received + 1) d).sent =
            some ⟨id, d.releaseNs, ns⟩ := by
          simp [attempt, hns, Except.bind, hid, makeStampedJob, hne, hrelease, hpublish, bind,
            pure, Except.pure, Attempt.sent]
        exact ⟨⟨feed, d.stamp, ⟨id, d.releaseNs, ns⟩⟩, .inl (by simp [Adapter.publishJob, hsent]),
          rfl, rfl⟩
      · have hid : ∀ c, ∃ id, id ≠ 0 ∧
            ((a.publishJob x.1 x.2).1.lane feed).index.jobId ns c = .ok id := by
          simpa [lane_publishJob] using hid
        obtain ⟨p, hp, hfeed⟩ := ih h hid
        exact ⟨p, .inr hp, hfeed⟩

end Identity

/-! ## the index of a topic -/

/-- What an index says of the timestamps of its topic. -/
structure StableIdentity (stamps : List Time) (index : SourceJobIndex) : Prop where
  /-- Ordinals count from one, whatever the receive counter is. -/
  ordinal : ∀ k stamp c, stamps[k]? = some stamp →
    ∃ ns, sourceStampNs stamp = .ok ns ∧ index.jobId ns c = .ok (k + 1)
  increasing : ∀ ns ns' c c' id id', index.jobId ns c = .ok id → index.jobId ns' c' = .ok id' →
    (ns < ns' ↔ id < id')
  absent : ∀ ns c : Nat, (∀ stamp ∈ stamps, sourceNs stamp ≠ (ns : Int)) →
    index.jobId ns c = .error "timestamp absent from bag index"
  /-- A session publishes ordinals, whatever it lost and whatever came first. -/
  published : ∀ (a : Adapter) (feed : Feed), (a.lane feed).index = index → ∀ deliveries,
    ∀ p ∈ (a.session deliveries).2, p.feed = feed → ∃ k stamp, stamps[k]? = some stamp ∧
      sourceStampNs stamp = sourceStampNs p.stamp ∧ p.job.jobId = k + 1
  delivered : ∀ (a : Adapter) (feed : Feed), (a.lane feed).index = index → ∀ deliveries d,
    (feed, d) ∈ deliveries → d.stamp ∈ stamps → d.releaseNs ≠ 0 → d.publish = .ok () →
    ∃ p ∈ (a.session deliveries).2, p.feed = feed ∧ p.stamp = d.stamp

/-- Every identity an index gives is the ordinal of a timestamp of its topic. -/
theorem jobId_ok {stamps : List Int} {ns c id : Nat} (hne : stamps ≠ []) (hinc : Increasing stamps)
    (h : ({ entries := entriesOf stamps 1 } : SourceJobIndex).jobId ns c = .ok id) :
    ∃ k x, stamps[k]? = some x ∧ x.toNat = ns ∧ id = k + 1 := by
  by_cases hmem : ∃ x ∈ stamps, x.toNat = ns
  · obtain ⟨x, hx, rfl⟩ := hmem
    obtain ⟨k, hk⟩ := List.getElem?_of_mem hx
    rw [jobId_entriesOf hne, find_entriesOf hinc hk] at h
    cases h
    exact ⟨k, x, hk, rfl, Nat.add_comm ..⟩
  · rw [jobId_entriesOf hne, find_entriesOf_none fun x hx heq => hmem ⟨x, hx, heq⟩] at h
    contradiction

theorem Increasing.lt_iff {stamps : List Int} {i j : Nat} {x y : Int} (h : Increasing stamps)
    (hi : stamps[i]? = some x) (hj : stamps[j]? = some y) : x < y ↔ i < j := by
  obtain ⟨hilt, rfl⟩ := List.getElem?_eq_some_iff.mp hi
  obtain ⟨hjlt, rfl⟩ := List.getElem?_eq_some_iff.mp hj
  have hmono := List.pairwise_iff_getElem.mp h.1
  obtain hij | rfl | hij := Nat.lt_trichotomy i j
  · simpa [hij] using hmono i j hilt hjlt hij
  · simp
  · have := hmono j i hjlt hilt hij
    constructor <;> omega

theorem StableIdentity.of_entries {stamps : List Time} (hne : stamps ≠ [])
    (hinc : Increasing (stamps.map sourceNs)) (hranged : ∀ stamp ∈ stamps, stamp.Ranged) :
    StableIdentity stamps { entries := entriesOf (stamps.map sourceNs) 1 } := by
  have hne' : stamps.map sourceNs ≠ [] := by simpa using hne
  have hordinal : ∀ k stamp c, stamps[k]? = some stamp →
      ({ entries := entriesOf (stamps.map sourceNs) 1 } : SourceJobIndex).jobId
        (sourceNs stamp).toNat c = .ok (k + 1) := by
    intro k stamp c hk
    have hk' : (stamps.map sourceNs)[k]? = some (sourceNs stamp) := by simp [hk]
    rw [jobId_entriesOf hne', find_entriesOf hinc hk', Nat.add_comm]
  constructor
  case ordinal =>
      intro k stamp c hk
      have hstamp := hranged stamp (List.mem_of_getElem? hk)
      exact ⟨_, (sourceStampNs_eq hstamp).1, hordinal k stamp c hk⟩
  case increasing =>
      intro ns ns' c c' id id' h h'
      obtain ⟨k, x, hk, rfl, rfl⟩ := jobId_ok hne' hinc h
      obtain ⟨k', x', hk', rfl, rfl⟩ := jobId_ok hne' hinc h'
      have hx := hinc.2 x (List.mem_of_getElem? hk)
      have hiff := hinc.lt_iff hk hk'
      omega
  case absent =>
      intro ns c habsent
      rw [jobId_entriesOf hne', find_entriesOf_none]
      intro x hx heq
      obtain ⟨stamp, hstamp, rfl⟩ := List.mem_map.mp hx
      have hpos := hinc.2 _ hx
      exact habsent stamp hstamp (by omega)
  case published =>
      rintro a feed hindex deliveries p hp rfl
      obtain ⟨ns, c, hns, hid⟩ := sent_session hp
      rw [hindex] at hid
      obtain ⟨k, x, hk, rfl, hordinal⟩ := jobId_ok hne' hinc hid
      rw [List.getElem?_map] at hk
      obtain ⟨stamp, hstamp, rfl⟩ := Option.map_eq_some_iff.mp hk
      refine ⟨k, stamp, hstamp, ?_, hordinal⟩
      rw [hns, (sourceStampNs_eq (hranged stamp (List.mem_of_getElem? hstamp))).1]
  case delivered =>
      intro a feed hindex deliveries d hd hstamp hrelease hpublish
      obtain ⟨k, hk⟩ := List.getElem?_of_mem hstamp
      have hns := (sourceStampNs_eq (hranged _ hstamp)).1
      refine delivered_sent hd hns (fun c => ?_) hrelease hpublish
      rw [hindex]
      exact ⟨k + 1, Nat.succ_ne_zero k, hordinal k d.stamp c hk⟩

/-- **Round trip**: the index of every topic is accepted as it was written,
and gives each message of the bag its ordinal. -/
theorem bag_index_round_trip {args : Args} {bag : Bag} {out : Output} {position : Nat}
    {topic path : String} {text : List Char} (hdir : args.indexDir = true)
    (hrun : sourceEpoch args bag = .ok out) (htopic : args.topics[position]? = some topic)
    (htext : out.files[position]? = some text)
    (hranged : ∀ stamp ∈ headers topic bag.messages, stamp.Ranged) (hpath : path ≠ "") :
    ∃ index, SourceJobIndex.make path (some text) = .ok index ∧
      StableIdentity (headers topic bag.messages) index := by
  obtain ⟨hfiles, htopics⟩ := sourceEpoch_spec hdir hrun
  obtain ⟨hne, hinc⟩ := htopics topic (List.mem_of_getElem? htopic)
  have htext : text = indexText ((headers topic bag.messages).map sourceNs) := by
    rw [hfiles, List.getElem?_map, htopic] at htext
    exact (Option.some.inj htext).symm
  have hword : ∀ x ∈ (headers topic bag.messages).map sourceNs, x < Word.size 64 := by
    intro x hx
    obtain ⟨stamp, hstamp, rfl⟩ := List.mem_map.mp hx
    exact (sourceStampNs_eq (hranged stamp hstamp)).2
  exact ⟨_, htext ▸ make_indexText hpath (by simpa using hne) hinc hword,
    .of_entries hne hinc hranged⟩

/-- A bag with two IMU messages and an image. -/
def twoImuBag : Bag where
  topics := ["/imu", "/camera"]
  messages := [⟨"/imu", some ⟨1, 5⟩⟩, ⟨"/camera", some ⟨1, 0⟩⟩, ⟨"/imu", some ⟨1, 7⟩⟩]

theorem bag_index_round_trip_twoImu :
    ∃ index, SourceJobIndex.make "topic-0.tsv" (some (indexText [1000000005, 1000000007])) =
        .ok index ∧
      StableIdentity [⟨1, 5⟩, ⟨1, 7⟩] index :=
  bag_index_round_trip
    (rfl : ({ topics := ["/imu"], indexDir := true } : Args).indexDir = true)
    (rfl : sourceEpoch { topics := ["/imu"], indexDir := true } twoImuBag =
      .ok { printed := 1000000005, files := [indexText [1000000005, 1000000007]] })
    (rfl : (["/imu"] : List String)[0]? = some "/imu") rfl
    (by simp [twoImuBag, headers, Time.Ranged]) (by decide)

end ScxSlam.BagIndex
