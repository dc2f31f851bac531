import ScxSlam.Lib.Account
import ScxSlam.PipelineDemo.Hinting

/-!
# ScxSlam.PipelineDemo.Ledger

A stage of `slam_pipeline_demo` with an account of every item its queue was
ever offered, and what the stage's counters count.

The account only listens: the stage's steps do not read it.
-/

namespace ScxSlam.PipelineDemo

open Account

/-! ## lines -/

/-- A stage, the account of its queue, the items that were pushed on it, and
the jobs its worker is done with, each in the order of time. -/
structure Line where
  stage : Stage := {}
  book : Book WorkItem := {}
  pushed : List WorkItem := []
  processed : List WorkItem := []
  deriving DecidableEq, Repr

/-- The item a worker has popped and is not done with. -/
def WorkerPc.working? : WorkerPc → Option WorkItem
  | .popped w | .compute w => some w
  | _ => none

/-- What `evict_stale_locked` erases. -/
def BlockingQueue.evicts (Q : BlockingQueue) (now : Nat) (w : WorkItem) : Bool :=
  Q.evictsBy.any (isStale now w ·)

namespace Line

variable (args : StageArgs) (now : Nat) (L : Line)

/-- A producer's `push`. -/
def push (v : WorkItem) : Line × List Publication :=
  let e := L.stage.push args now v
  ({ stage := e.stage
     book := (L.book.prune now (L.stage.queue.evicts now)).offer now v
     pushed := L.pushed ++ [v]
     processed := L.processed }, e.hints)

/-- The worker's step in the account. -/
def record : Book WorkItem :=
  match L.stage.worker with
  | .pop | .wait _ => if L.stage.queue.stop then L.book else L.book.take now
  | .popped w => if isStale now w args.cfg && args.dropStale then L.book.close now false else L.book
  | .compute _ => L.book.close now true
  | _ => L.book

/-- The job whose computation ends with the worker's step. -/
def ending : List WorkItem :=
  match L.stage.worker with
  | .compute w => [w]
  | _ => []

/-- The worker's next step. -/
def work (running : Bool) : Option (Line × Effect) :=
  (L.stage.work args now running).map fun e =>
    ({ stage := e.stage
       book := L.record args now
       pushed := L.pushed
       processed := L.processed ++ L.ending }, e)

def stop : Line := { L with stage := L.stage.stop }

end Line

/-! ## what is counted -/

/-- The counters of a stage are counts of entries; the ones of the window
count what happened before the cutoff. -/
structure Counted (cutoff : Nat) (L : Line) : Prop where
  offered : L.stage.queue.window.offered = L.book.count fun e => insideWindow cutoff e.offered
  dequeued : L.stage.queue.window.dequeued = L.book.count (·.takenAt.any (insideWindow cutoff))
  evicted : L.stage.queue.window.evicted = L.book.count (·.prunedAt.any (insideWindow cutoff))
  completed : L.stage.stats.window.completed = L.book.count (·.keptAt.any (insideWindow cutoff))
  droppedStale : L.stage.stats.window.droppedStale =
    L.book.count (·.droppedAt.any (insideWindow cutoff))
  processed : L.stage.stats.processed = L.book.count (·.keptAt.isSome)
  dropped : L.stage.stats.droppedStale = L.book.count (·.droppedAt.isSome)
  queueEvicted : L.stage.queue.queueEvictedStale = L.book.count (·.prunedAt.isSome)

/-- The worker is at most one item behind its queue, and before the cutoff
behind by the item it holds. -/
def InFlight (cutoff now : Nat) (L : Line) : Prop :=
  let ended := L.stage.stats.window.completed + L.stage.stats.window.droppedStale
  L.stage.queue.window.dequeued = ended + L.stage.worker.working?.toList.length ∨
    (cutoff ≤ now ∧ ended ≤ L.stage.queue.window.dequeued ∧
      L.stage.queue.window.dequeued ≤ ended + 1)

/-- Late jobs are among the completed ones, in the window and after it. -/
structure LateCounted (stats : StageStats) : Prop where
  window : stats.window.late ≤ stats.window.completed
  completed : stats.window.completed ≤ stats.processed
  windowLate : stats.window.late ≤ stats.late
  drain : stats.late + stats.window.completed ≤ stats.processed + stats.window.late

/-- What was evicted or dropped was stale, and there is nothing of it when
stale items are kept. -/
def StaleOnly (args : StageArgs) (e : Entry WorkItem) : Prop :=
  ∀ t, e.prunedAt = some t ∨ e.droppedAt = some t →
    args.dropStale = true ∧ isStale t e.item args.cfg

/-- A stage agrees with its account. -/
structure Line.Sound (args : StageArgs) (now : Nat) (L : Line) : Prop where
  cfg : L.stage.queue.ht.cfg = some args.cfg
  evictStale : L.stage.queue.evictStale = args.dropStale
  book : L.book.Sound now
  queue : L.stage.queue.q = L.book.queued
  current : L.book.current.map (·.item) = L.stage.worker.working?
  pushed : L.pushed = L.book.entries.map (·.item)
  processed : L.processed = L.book.kept
  counted : Counted args.metricsEndNs L
  inFlight : InFlight args.metricsEndNs now L
  late : LateCounted L.stage.stats
  stale : ∀ e ∈ L.book.entries, StaleOnly args e

/-! ## staleness -/

/-- What is stale stays stale. -/
theorem isStale_mono {t t' : Nat} {w : WorkItem} {c : StageCfg} (h : isStale t w c = true)
    (hle : t ≤ t') : isStale t' w c = true := by
  unfold isStale at *
  split at h
  · contradiction
  · next hz =>
    rw [if_neg hz]
    simp only [Bool.and_eq_true, decide_eq_true_eq] at h ⊢
    omega

/-! ## the counters of a push -/

namespace BlockingQueue

variable (Q : BlockingQueue) (cutoff now : Nat) (v : WorkItem)

theorem survivors_eq : Q.survivors now = Q.q.filter fun w => !Q.evicts now w := by
  unfold survivors evicts
  cases Q.evictsBy with
  | none => exact (List.filter_eq_self.mpr fun _ _ => rfl).symm
  | some c => rfl

@[simp] theorem push_evictStale : (Q.push cutoff now v).1.evictStale = Q.evictStale := by
  simp only [push, countOffered, evictStaleLocked]
  repeat' split
  all_goals rfl

/-- The counters `push` moves. -/
theorem push_counters :
    (Q.push cutoff now v).1.window.offered =
        Q.window.offered + (insideWindow cutoff now).toNat ∧
      (Q.push cutoff now v).1.window.dequeued = Q.window.dequeued ∧
      (Q.push cutoff now v).1.window.evicted =
        Q.window.evicted + (if insideWindow cutoff now then Q.q.countP (Q.evicts now) else 0) ∧
      (Q.push cutoff now v).1.queueEvictedStale =
        Q.queueEvictedStale + Q.q.countP (Q.evicts now) := by
  have hevicts : Q.evicts now = fun w => Q.evictsBy.any (isStale now w ·) := rfl
  simp only [push, countOffered, evictStaleLocked, hevicts]
  cases Q.evictsBy with
  | none => cases insideWindow cutoff now <;> simp
  | some c => cases insideWindow cutoff now <;> simp

end BlockingQueue

/-! ## pushes -/

section Push

variable {args : StageArgs} {now : Nat} {L : Line}

/-- Only stale items are evicted, and none when stale items are kept. -/
theorem Line.Sound.evicts (h : L.Sound args now) {w : WorkItem}
    (hw : L.stage.queue.evicts now w = true) :
    args.dropStale = true ∧ isStale now w args.cfg = true := by
  unfold BlockingQueue.evicts BlockingQueue.evictsBy at hw
  rw [h.cfg, h.evictStale] at hw
  dsimp only at hw
  split at hw
  · next hc => exact ⟨hc.1, hw⟩
  · contradiction

theorem Counted.push (h : Counted args.metricsEndNs L) (hq : L.stage.queue.q = L.book.queued)
    (v : WorkItem) : Counted args.metricsEndNs (L.push args now v).1 := by
  obtain ⟨hoffered, hdequeued, hevicted, hqueueEvicted⟩ :=
    L.stage.queue.push_counters args.metricsEndNs now v
  have hcount : ∀ {q : Entry WorkItem → Bool} {c : Bool},
      (∀ y o, q ⟨y, o, .pruned now⟩ = (q ⟨y, o, .waiting⟩ || c)) →
      (c = true → ∀ y o, q ⟨y, o, .waiting⟩ = false) →
      (L.push args now v).1.book.count q = L.book.count q +
        (if c then L.stage.queue.q.countP (L.stage.queue.evicts now) else 0) +
        (q ⟨v, now, .waiting⟩).toNat := by
    intro q c hq' hc
    rw [hq, ← Book.count_prune hq' hc]
    exact Book.count_offer q _ now v
  constructor
  case offered =>
      rw [hcount (c := false) (fun _ _ => by simp) nofun]
      exact hoffered.trans (by rw [h.offered]; rfl)
  case dequeued =>
      rw [hcount (c := false) (fun _ _ => rfl) nofun]
      exact hdequeued.trans h.dequeued
  case evicted =>
      rw [hcount (c := insideWindow args.metricsEndNs now) (fun _ _ => rfl) (fun _ _ _ => rfl)]
      exact hevicted.trans (by rw [h.evicted]; rfl)
  case completed =>
      rw [hcount (c := false) (fun _ _ => rfl) nofun]
      exact h.completed
  case droppedStale =>
      rw [hcount (c := false) (fun _ _ => rfl) nofun]
      exact h.droppedStale
  case processed =>
      rw [hcount (c := false) (fun _ _ => rfl) nofun]
      exact h.processed
  case dropped =>
      rw [hcount (c := false) (fun _ _ => rfl) nofun]
      exact h.dropped
  case queueEvicted =>
      rw [hcount (c := true) (fun _ _ => rfl) (fun _ _ _ => rfl)]
      exact hqueueEvicted.trans (by rw [h.queueEvicted]; rfl)

@[simp] theorem WorkerPc.working?_notify (pc : WorkerPc) : pc.notify.working? = pc.working? := by
  cases pc <;> rfl

theorem StaleOnly.prune {e : Entry WorkItem} (h : StaleOnly args e)
    (hp : ∀ w, L.stage.queue.evicts now w = true →
      args.dropStale = true ∧ isStale now w args.cfg = true) :
    StaleOnly args (e.prune now (L.stage.queue.evicts now)) := by
  unfold Entry.prune
  split
  · next hw =>
    intro t ht
    obtain ht | ht := ht
    · cases ht
      exact hp e.item (Bool.and_eq_true_iff.mp hw).2
    · contradiction
  · exact h

/-- A push keeps the account. -/
theorem Line.Sound.push (h : L.Sound args now) (v : WorkItem) :
    (L.push args now v).1.Sound args now := by
  constructor
  case cfg => exact (congrArg HintTarget.cfg (L.stage.queue.push_ht ..)).trans h.cfg
  case evictStale => exact (L.stage.queue.push_evictStale ..).trans h.evictStale
  case book => exact (h.book.prune _).offer v
  case queue =>
      simp only [Line.push, Stage.push, BlockingQueue.push_q, BlockingQueue.survivors_eq, h.queue,
        Book.queued_offer, Book.queued_prune]
  case current => simpa [Line.push, Stage.push] using h.current
  case pushed => simp [Line.push, h.pushed]
  case processed => exact h.processed
  case counted => exact h.counted.push h.queue v
  case inFlight =>
      have hdequeued := (L.stage.queue.push_counters args.metricsEndNs now v).2.1
      have hin := h.inFlight
      unfold InFlight at hin ⊢
      simpa only [Line.push, Stage.push, WorkerPc.working?_notify, hdequeued] using hin
  case late => exact h.late
  case stale =>
      intro e he
      obtain he | he | he := Book.mem_entries.mp he
      · exact h.stale e (Book.mem_entries.mpr (.inl he))
      · exact h.stale e (Book.mem_entries.mpr (.inr (.inl he)))
      · obtain he | he := List.mem_append.mp he
        · obtain ⟨e', he', rfl⟩ := List.mem_map.mp he
          exact (h.stale e' (Book.mem_entries.mpr (.inr (.inr he')))).prune fun w => h.evicts
        · cases List.mem_singleton.mp he
          rintro t (ht | ht) <;> contradiction

end Push

/-! ## the worker -/

section Work

variable {args : StageArgs} {now : Nat} {L : Line} {w : WorkItem}

/-- The counters that the account knows are the same. -/
structure SameCounts (old new : StageStats) : Prop where
  processed : new.processed = old.processed
  dropped : new.droppedStale = old.droppedStale
  late : new.late = old.late
  completed : new.window.completed = old.window.completed
  droppedStale : new.window.droppedStale = old.window.droppedStale
  windowLate : new.window.late = old.window.late

theorem SameCounts.refl (stats : StageStats) : SameCounts stats stats :=
  ⟨rfl, rfl, rfl, rfl, rfl, rfl⟩

/-- A stage whose queue, counters and item in hand are the same. -/
theorem Line.Sound.of_stage {S : Stage} (h : L.Sound args now)
    (hcfg : S.queue.ht.cfg = L.stage.queue.ht.cfg)
    (hevict : S.queue.evictStale = L.stage.queue.evictStale)
    (hq : S.queue.q = L.stage.queue.q) (hwindow : S.queue.window = L.stage.queue.window)
    (hevicted : S.queue.queueEvictedStale = L.stage.queue.queueEvictedStale)
    (hstats : SameCounts L.stage.stats S.stats)
    (hworking : S.worker.working? = L.stage.worker.working?) :
    Line.Sound args now { L with stage := S } where
  cfg := hcfg.trans h.cfg
  evictStale := hevict.trans h.evictStale
  book := h.book
  queue := hq.trans h.queue
  current := h.current.trans hworking.symm
  pushed := h.pushed
  processed := h.processed
  counted := by
    obtain ⟨h1, h2, h3, h4, h5, h6, h7, h8⟩ := h.counted
    constructor <;> simpa only [hwindow, hstats.processed, hstats.dropped, hstats.completed,
      hstats.droppedStale, hevicted]
  inFlight := by
    have hin := h.inFlight
    unfold InFlight at hin ⊢
    simpa only [hwindow, hstats.completed, hstats.droppedStale, hworking] using hin
  late := by
    obtain ⟨h1, h2, h3, h4⟩ := h.late
    constructor <;> simpa only [hstats.processed, hstats.late, hstats.completed, hstats.windowLate]
  stale := h.stale

theorem Line.Sound.stop (h : L.Sound args now) : L.stop.Sound args now :=
  h.of_stage rfl rfl rfl rfl rfl (.refl _) rfl

/-- Time goes on. -/
theorem Line.Sound.mono {now' : Nat} (h : L.Sound args now) (hle : now ≤ now') :
    L.Sound args now' where
  cfg := h.cfg
  evictStale := h.evictStale
  book := h.book.mono hle
  queue := h.queue
  current := h.current
  pushed := h.pushed
  processed := h.processed
  counted := h.counted
  inFlight := by
    obtain hin | ⟨hcut, hin⟩ := h.inFlight
    · exact .inl hin
    · exact .inr ⟨hcut.trans hle, hin⟩
  late := h.late
  stale := h.stale

theorem BlockingQueue.take_window (Q : BlockingQueue) (cutoff now : Nat) (w : WorkItem)
    (rest : List WorkItem) : (Q.take cutoff now w rest).1.window =
      { Q.window with dequeued := Q.window.dequeued + (insideWindow cutoff now).toNat } := by
  unfold take
  cases insideWindow cutoff now <;> rfl

@[simp] theorem BlockingQueue.take_evictStale (Q : BlockingQueue) (cutoff now : Nat) (w : WorkItem)
    (rest : List WorkItem) : (Q.take cutoff now w rest).1.evictStale = Q.evictStale := by
  unfold take
  split <;> rfl

@[simp] theorem BlockingQueue.take_queueEvictedStale (Q : BlockingQueue) (cutoff now : Nat)
    (w : WorkItem) (rest : List WorkItem) :
    (Q.take cutoff now w rest).1.queueEvictedStale = Q.queueEvictedStale := by
  unfold take
  split <;> rfl

/-- Outside the window nothing counts any more. -/
theorem le_of_not_inside {cutoff now : Nat} (h : insideWindow cutoff now = false) :
    cutoff ≤ now := by
  simp only [insideWindow, Bool.and_eq_false_iff, bne_eq_false_iff_eq, decide_eq_false_iff_not] at h
  omega

theorem lt_of_inside {cutoff now : Nat} (h : insideWindow cutoff now = true) : now < cutoff := by
  simp only [insideWindow, Bool.and_eq_true, decide_eq_true_eq] at h
  exact h.2

section Pop

variable {rest : List WorkItem} {S : Stage}

/-- Taking an item counts in the window of the queue. -/
theorem Counted.take (h : Counted args.metricsEndNs L) (hqueued : L.book.queued = w :: rest)
    (hcurrent : L.book.current = none)
    (hqueue : S.queue = (L.stage.queue.take args.metricsEndNs now w rest).1)
    (hstats : S.stats = L.stage.stats) :
    Counted args.metricsEndNs { L with stage := S, book := L.book.take now } := by
  have hcount : ∀ {q : Entry WorkItem → Bool} {c : Bool},
      (∀ y o, q ⟨y, o, .held now⟩ = (q ⟨y, o, .waiting⟩ || c)) →
      (c = true → ∀ y o, q ⟨y, o, .waiting⟩ = false) →
      (L.book.take now).count q = L.book.count q + c.toNat :=
    fun hq' hc => Book.count_take hqueued hcurrent hq' hc
  have hwindow := L.stage.queue.take_window args.metricsEndNs now w rest
  constructor <;> dsimp only
  case offered =>
      rw [hqueue, hwindow, hcount (c := false) (fun _ _ => by simp) nofun]
      exact h.offered
  case dequeued =>
      rw [hqueue, hwindow, hcount (c := insideWindow args.metricsEndNs now) (fun _ _ => rfl)
        (fun _ _ _ => rfl), ← h.dequeued]
  case evicted =>
      rw [hqueue, hwindow, hcount (c := false) (fun _ _ => rfl) nofun]
      exact h.evicted
  case completed =>
      rw [hstats, hcount (c := false) (fun _ _ => rfl) nofun]
      exact h.completed
  case droppedStale =>
      rw [hstats, hcount (c := false) (fun _ _ => rfl) nofun]
      exact h.droppedStale
  case processed =>
      rw [hstats, hcount (c := false) (fun _ _ => rfl) nofun]
      exact h.processed
  case dropped =>
      rw [hstats, hcount (c := false) (fun _ _ => rfl) nofun]
      exact h.dropped
  case queueEvicted =>
      rw [hqueue, BlockingQueue.take_queueEvictedStale, hcount (c := false) (fun _ _ => rfl) nofun]
      exact h.queueEvicted

/-- Before the cutoff, the worker falls behind by the item it takes. -/
theorem InFlight.take (h : InFlight args.metricsEndNs now L)
    (hworking : L.stage.worker.working? = none) (hheld : S.worker.working? = some w)
    (hqueue : S.queue = (L.stage.queue.take args.metricsEndNs now w rest).1)
    (hstats : S.stats = L.stage.stats) (B : Book WorkItem) :
    InFlight args.metricsEndNs now { L with stage := S, book := B } := by
  have hwindow := L.stage.queue.take_window args.metricsEndNs now w rest
  unfold InFlight at h ⊢
  rw [hworking] at h
  simp only [hqueue, hwindow, hstats, hheld, Option.toList_some, Option.toList_none,
    List.length_nil, List.length_singleton] at h ⊢
  cases hinside : insideWindow args.metricsEndNs now with
  | true =>
      have hlt := lt_of_inside hinside
      rw [Bool.toNat_true]
      omega
  | false =>
      have hle := le_of_not_inside hinside
      rw [Bool.toNat_false]
      omega

/-- An item that is taken was neither evicted nor dropped. -/
theorem StaleOnly.take (h : ∀ e ∈ L.book.entries, StaleOnly args e)
    (hqueued : L.book.queued = w :: rest) (hcurrent : L.book.current = none) :
    ∀ e ∈ (L.book.take now).entries, StaleOnly args e := by
  obtain ⟨e, before, after, hb, he, htake⟩ := @Book.entries_take _ _ now _ _ hqueued hcurrent
  intro e' he'
  rw [htake] at he'
  obtain he' | he' := List.mem_append.mp he'
  · exact h e' (hb ▸ List.mem_append_left _ he')
  · obtain rfl | he' := List.mem_cons.mp he'
    · rintro t (ht | ht) <;> contradiction
    · exact h e' (hb ▸ List.mem_append_right _ (List.mem_cons_of_mem _ he'))

/-- `pop` from its loop condition on, with the account. -/
theorem Line.Sound.pop (h : L.Sound args now) (hworking : L.stage.worker.working? = none) :
    Line.Sound args now { L with
      stage := (L.stage.pop args now).stage
      book := if L.stage.queue.stop then L.book else L.book.take now } := by
  unfold Stage.pop
  split
  · exact h.of_stage rfl rfl rfl rfl rfl (.refl _) hworking.symm
  · split
    · next hq =>
      rw [Book.take_of_queued_nil (h.queue ▸ hq)]
      exact h.of_stage rfl rfl rfl rfl rfl (.refl _) hworking.symm
    · next w rest hq =>
      have hqueued : L.book.queued = w :: rest := h.queue ▸ hq
      have hcurrent : L.book.current = none :=
        Option.map_eq_none_iff.mp (h.current.trans hworking)
      constructor
      case cfg =>
          exact (congrArg HintTarget.cfg (L.stage.queue.take_ht args.metricsEndNs now w rest)).trans
            h.cfg
      case evictStale =>
          exact (L.stage.queue.take_evictStale args.metricsEndNs now w rest).trans h.evictStale
      case book => exact h.book.take hqueued
      case queue => exact (Book.queued_take hqueued).symm
      case current =>
          obtain ⟨e, he, hitem⟩ := @Book.current_take _ _ now _ _ hqueued
          exact congrArg (Option.map (·.item)) he |>.trans (congrArg some hitem)
      case pushed => exact h.pushed.trans (Book.items_take hqueued hcurrent).symm
      case processed => exact h.processed.trans (h.book.kept_take hqueued).symm
      case counted => exact h.counted.take hqueued hcurrent rfl rfl
      case inFlight =>
          let taken := (L.stage.queue.take args.metricsEndNs now w rest).1
          exact @InFlight.take args now L w rest
            { L.stage with queue := taken, worker := .popped w } h.inFlight hworking rfl rfl rfl _
      case late => exact h.late
      case stale => exact StaleOnly.take h.stale hqueued hcurrent

end Pop

/-- What the counters gain when a worker is done with an item. -/
structure Ended (cutoff now : Nat) (kept : Bool) (old new : StageStats) : Prop where
  processed : new.processed = old.processed + kept.toNat
  dropped : new.droppedStale = old.droppedStale + (!kept).toNat
  completed : new.window.completed =
    old.window.completed + (kept && insideWindow cutoff now).toNat
  droppedStale : new.window.droppedStale =
    old.window.droppedStale + (!kept && insideWindow cutoff now).toNat

section Close

variable {S : Stage} {kept : Bool} {e : Entry WorkItem}

/-- An item that is done with counts for the worker. -/
theorem Counted.close (h : Counted args.metricsEndNs L) (hbook : L.book.Sound now)
    (hcurrent : L.book.current = some e) (hqueue : S.queue = L.stage.queue)
    (hended : Ended args.metricsEndNs now kept L.stage.stats S.stats) (done : List WorkItem) :
    Counted args.metricsEndNs
      { L with stage := S, book := L.book.close now kept, processed := done } := by
  have hcount : ∀ {q : Entry WorkItem → Bool} {c : Bool},
      (∀ y o t, q ⟨y, o, .closed t now kept⟩ = (q ⟨y, o, .held t⟩ || c)) →
      (c = true → ∀ y o t, q ⟨y, o, .held t⟩ = false) →
      (L.book.close now kept).count q = L.book.count q + c.toNat :=
    fun hq' hc => Book.count_close hbook hcurrent hq' hc
  constructor <;> dsimp only
  case offered =>
      rw [hqueue, hcount (c := false) (fun _ _ _ => by simp) nofun]
      exact h.offered
  case dequeued =>
      rw [hqueue, hcount (c := false) (fun _ _ _ => by simp [Entry.takenAt]) nofun]
      exact h.dequeued
  case evicted =>
      rw [hqueue, hcount (c := false) (fun _ _ _ => rfl) nofun]
      exact h.evicted
  case completed =>
      rw [hended.completed, h.completed,
        hcount (c := kept && insideWindow args.metricsEndNs now) _ (fun _ _ _ _ => rfl)]
      intro y o t
      cases kept <;> rfl
  case droppedStale =>
      rw [hended.droppedStale, h.droppedStale,
        hcount (c := !kept && insideWindow args.metricsEndNs now) _ (fun _ _ _ _ => rfl)]
      intro y o t
      cases kept <;> rfl
  case processed =>
      rw [hended.processed, h.processed, hcount (c := kept) _ (fun _ _ _ _ => rfl)]
      intro y o t
      cases kept <;> rfl
  case dropped =>
      rw [hended.dropped, h.dropped, hcount (c := !kept) _ (fun _ _ _ _ => rfl)]
      intro y o t
      cases kept <;> rfl
  case queueEvicted =>
      rw [hqueue, hcount (c := false) (fun _ _ _ => rfl) nofun]
      exact h.queueEvicted

/-- Before the cutoff, the worker catches up by the item it is done with. -/
theorem InFlight.close (h : InFlight args.metricsEndNs now L)
    (hworking : L.stage.worker.working? = some w) (hdone : S.worker.working? = none)
    (hqueue : S.queue = L.stage.queue)
    (hended : Ended args.metricsEndNs now kept L.stage.stats S.stats) (B : Book WorkItem)
    (done : List WorkItem) :
    InFlight args.metricsEndNs now { L with stage := S, book := B, processed := done } := by
  unfold InFlight at h ⊢
  rw [hworking] at h
  rw [hdone, hqueue, hended.completed, hended.droppedStale]
  simp only [Option.toList_some, Option.toList_none, List.length_nil,
    List.length_singleton] at h ⊢
  cases hinside : insideWindow args.metricsEndNs now with
  | true =>
      have hlt := lt_of_inside hinside
      cases kept <;> simp <;> omega
  | false =>
      have hle := le_of_not_inside hinside
      simp only [Bool.and_false, Bool.toNat_false]
      omega

/-- An item that is dropped was stale. -/
theorem StaleOnly.close (h : ∀ e ∈ L.book.entries, StaleOnly args e) (hbook : L.book.Sound now)
    (hcurrent : L.book.current = some e)
    (hstale : kept = false → args.dropStale = true ∧ isStale now e.item args.cfg) :
    ∀ e ∈ (L.book.close now kept).entries, StaleOnly args e := by
  obtain ⟨before, after, hb, hclose⟩ := @Book.entries_close _ _ now _ kept hcurrent
  intro e' he'
  rw [hclose] at he'
  obtain he' | he' := List.mem_append.mp he'
  · exact h e' (hb ▸ List.mem_append_left _ he')
  · obtain rfl | he' := List.mem_cons.mp he'
    · obtain ⟨t, ht⟩ := hbook.current e (by simp [hcurrent])
      obtain ⟨item, offered, fate⟩ := e
      cases ht
      rintro t' (ht' | ht')
      · contradiction
      · cases kept with
        | false =>
            cases ht'
            exact hstale rfl
        | true => contradiction
    · exact h e' (hb ▸ List.mem_append_right _ (List.mem_cons_of_mem _ he'))

/-- A worker is done with its item. -/
theorem Line.Sound.close (h : L.Sound args now)
    (hworking : L.stage.worker.working? = some w) (hqueue : S.queue = L.stage.queue)
    (hdone : S.worker.working? = none)
    (hended : Ended args.metricsEndNs now kept L.stage.stats S.stats)
    (hlate : LateCounted S.stats)
    (hstale : kept = false → args.dropStale = true ∧ isStale now w args.cfg) :
    Line.Sound args now { L with
      stage := S
      book := L.book.close now kept
      processed := L.processed ++ if kept then [w] else [] } := by
  obtain ⟨e, hcurrent, rfl⟩ : ∃ e, L.book.current = some e ∧ e.item = w := by
    obtain ⟨e, he, hitem⟩ := Option.map_eq_some_iff.mp (h.current.trans hworking)
    exact ⟨e, he, hitem⟩
  constructor
  case cfg => exact hqueue ▸ h.cfg
  case evictStale => exact hqueue ▸ h.evictStale
  case book => exact h.book.close kept
  case queue =>
      rw [hqueue, Book.queued_close]
      exact h.queue
  case current =>
      rw [Book.current_close, hdone]
      rfl
  case pushed => exact h.pushed.trans (Book.items_close ..).symm
  case processed => rw [h.book.kept_close hcurrent kept, ← h.processed]
  case counted => exact h.counted.close h.book hcurrent hqueue hended _
  case inFlight => exact h.inFlight.close hworking hdone hqueue hended _ _
  case late => exact hlate
  case stale => exact StaleOnly.close h.stale h.book hcurrent hstale

end Close

/-- The counters of a job that is done. -/
theorem Stage.finishStats_counts (args : StageArgs) (now : Nat) (S : Stage) (w : WorkItem) :
    let late := deadlineAbs w args.cfg != 0 && decide (deadlineAbs w args.cfg < now)
    let inside := insideWindow args.metricsEndNs now
    let stats := S.finishStats args now w
    stats.processed = S.stats.processed + 1 ∧ stats.droppedStale = S.stats.droppedStale ∧
      stats.late = S.stats.late + late.toNat ∧
      stats.window = { S.stats.window with
        completed := S.stats.window.completed + inside.toNat
        late := S.stats.window.late + (inside && late).toNat } := by
  unfold Stage.finishStats
  dsimp only
  repeat' split
  all_goals exact ⟨rfl, rfl, rfl, rfl⟩

theorem Stage.finishStats_ended (args : StageArgs) (now : Nat) (S : Stage) (w : WorkItem) :
    Ended args.metricsEndNs now true S.stats (S.finishStats args now w) := by
  obtain ⟨hprocessed, hdropped, -, hwindow⟩ := S.finishStats_counts args now w
  constructor
  · exact hprocessed
  · exact hdropped
  · rw [hwindow]
    rfl
  · rw [hwindow]
    rfl

/-- One more job is done, late or not, in the window or after it. -/
theorem LateCounted.finish {stats stats' : StageStats} {late inside : Bool} (h : LateCounted stats)
    (hprocessed : stats'.processed = stats.processed + 1)
    (hlate : stats'.late = stats.late + late.toNat)
    (hcompleted : stats'.window.completed = stats.window.completed + inside.toNat)
    (hwindowLate : stats'.window.late = stats.window.late + (inside && late).toNat) :
    LateCounted stats' := by
  obtain ⟨h1, h2, h3, h4⟩ := h
  have hnat : (inside && late).toNat ≤ inside.toNat ∧ (inside && late).toNat ≤ late.toNat ∧
      inside.toNat ≤ 1 ∧ late.toNat + inside.toNat ≤ 1 + (inside && late).toNat := by
    cases inside <;> cases late <;> decide
  constructor <;> omega

theorem Stage.finishStats_late (args : StageArgs) (now : Nat) (S : Stage) (w : WorkItem)
    (h : LateCounted S.stats) : LateCounted (S.finishStats args now w) := by
  obtain ⟨hprocessed, -, hlate, hwindow⟩ := S.finishStats_counts args now w
  exact h.finish hprocessed hlate (congrArg WindowStageStats.completed hwindow)
    (congrArg WindowStageStats.late hwindow)

/-- The worker's step keeps the account. -/
theorem Line.Sound.work {running : Bool} {L' : Line} {e : Effect} (h : L.Sound args now)
    (hwork : L.work args now running = some (L', e)) : L'.Sound args now := by
  unfold Line.work Stage.work Line.record Line.ending at hwork
  cases hworker : L.stage.worker <;> rw [hworker] at hwork <;>
    simp only [List.append_nil] at hwork
  case start =>
      cases hwork
      refine h.of_stage rfl rfl rfl rfl rfl (.refl _) ?_
      rw [hworker]
      rfl
  case loop last =>
      cases hwork
      refine h.of_stage rfl rfl rfl rfl rfl (.refl _) ?_
      rw [hworker]
      cases running <;> rfl
  case pop =>
      cases hwork
      exact h.pop (by rw [hworker]; rfl)
  case wait woken =>
      cases hwork
      have hresume : Line.Sound args now
          { L with stage := { L.stage with queue := { L.stage.queue with waiting := false } } } :=
        h.of_stage rfl rfl rfl rfl rfl (.refl _) rfl
      exact hresume.pop (by rw [hworker]; rfl)
  case popped w =>
      cases hwork
      have hworking : L.stage.worker.working? = some w := by rw [hworker]; rfl
      cases hdrop : isStale now w args.cfg && args.dropStale with
      | true =>
          have hstats : (L.stage.begin args now w).stats =
              L.stage.startStats args now (isStale now w args.cfg) := rfl
          rw [if_pos rfl, ← List.append_nil L.processed]
          refine @Line.Sound.close args now L w (L.stage.begin args now w) false h hworking rfl
            ?_ ?_ ⟨h.late.1, h.late.2, h.late.3, h.late.4⟩ ?_
          · simp [Stage.begin, hdrop, WorkerPc.working?]
          · rw [hstats]
            constructor <;> simp [Stage.startStats, hdrop]
          · rw [Bool.and_eq_true] at hdrop
            exact fun _ => ⟨hdrop.2, hdrop.1⟩
      | false =>
          rw [if_neg Bool.false_ne_true]
          refine @Line.Sound.of_stage args now L (L.stage.begin args now w) h rfl rfl rfl rfl rfl
            ?_ ?_
          · constructor <;> simp [Stage.begin, Stage.startStats, hdrop]
          · rw [hworking]
            simp [Stage.begin, hdrop, WorkerPc.working?]
  case compute w =>
      cases hwork
      have hworking : L.stage.worker.working? = some w := by rw [hworker]; rfl
      refine @Line.Sound.close args now L w (L.stage.finish args now w) true h hworking rfl
        ?_ ?_ ?_ nofun
      · cases hout : args.hasOut <;> simp [Stage.finish, hout, WorkerPc.working?]
      · exact L.stage.finishStats_ended args now w
      · exact L.stage.finishStats_late args now w h.late
  case forward w =>
      cases hwork
      refine h.of_stage rfl rfl rfl rfl rfl (.refl _) ?_
      rw [hworker]
      rfl
  case exited last => contradiction

end Work

end ScxSlam.PipelineDemo
