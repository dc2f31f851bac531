import Mathlib.Tactic.Common
import ScxSlam.Lib.Steps
import ScxSlam.PipelineDemo.Queue

/-!
# ScxSlam.PipelineDemo.Hinting

Which hint the scheduler sees for a consumer of `slam_pipeline_demo`.

While the consumer holds an item, the hint is that item's.  While it sleeps
after a wake-up, the hint is the one of the item that woke it, and that is the
head of the queue for as long as no push evicts the head: `push` prunes the
whole queue but publishes only for a consumer that nobody has woken yet.
-/

namespace ScxSlam.PipelineDemo

/-! ## publications -/

/-- The last hint published under a key. -/
def lastHint (key : Nat) (published : List Publication) : Option Hint :=
  ((published.filter (·.1 == key)).getLast?).map (·.2)

/-- A publication is the last one of its key. -/
@[simp] theorem lastHint_concat_self (key : Nat) (h : Hint) (l : List Publication) :
    lastHint key (l ++ [(key, h)]) = some h := by
  simp [lastHint]

/-- A publication leaves the other keys' hints alone. -/
theorem lastHint_concat_of_ne {key key' : Nat} (h : Hint) (l : List Publication)
    (hne : key' ≠ key) : lastHint key (l ++ [(key', h)]) = lastHint key l := by
  simp [lastHint, hne]

/-! ## the queue's functions -/

namespace BlockingQueue

variable (Q : BlockingQueue) (cutoff now : Nat)

/-- The items `evict_stale_locked` leaves. -/
def survivors : List WorkItem :=
  match Q.evictsBy with
  | none => Q.q
  | some c => Q.q.filter (fun w => !isStale now w c)

/-- The fresh items stay, in their order. -/
@[simp] theorem evictStaleLocked_q : (Q.evictStaleLocked cutoff now).q = Q.survivors now := by
  unfold evictStaleLocked survivors
  cases Q.evictsBy <;> rfl

@[simp] theorem evictStaleLocked_ht : (Q.evictStaleLocked cutoff now).ht = Q.ht := by
  unfold evictStaleLocked
  cases Q.evictsBy <;> rfl

@[simp] theorem evictStaleLocked_waiting :
    (Q.evictStaleLocked cutoff now).waiting = Q.waiting := by
  unfold evictStaleLocked
  cases Q.evictsBy <;> rfl

/-- Counting changes counters only. -/
@[simp] theorem countOffered_q : (Q.countOffered cutoff now).q = Q.q := by
  unfold countOffered
  split <;> rfl

@[simp] theorem countOffered_ht : (Q.countOffered cutoff now).ht = Q.ht := by
  unfold countOffered
  split <;> rfl

@[simp] theorem countOffered_waiting : (Q.countOffered cutoff now).waiting = Q.waiting := by
  unfold countOffered
  split <;> rfl

/-- A hint depends on the queue's target only. -/
theorem publishHint_congr {Q Q' : BlockingQueue} (h : Q.ht = Q'.ht) (v : WorkItem) :
    Q.publishHint v = Q'.publishHint v := by
  unfold publishHint
  rw [h]

variable (v : WorkItem)

/-- The new item comes behind those that are fresh. -/
@[simp] theorem push_q : (Q.push cutoff now v).1.q = Q.survivors now ++ [v] := by
  simp [push]

@[simp] theorem push_ht : (Q.push cutoff now v).1.ht = Q.ht := by
  simp [push]

@[simp] theorem push_waiting : (Q.push cutoff now v).1.waiting = false := rfl

/-- A hint is published if the consumer waits. -/
@[simp] theorem push_hints :
    (Q.push cutoff now v).2 = if Q.waiting then Q.publishHint v else [] := by
  simp only [push, countOffered_waiting, evictStaleLocked_waiting]
  have hht : ((Q.evictStaleLocked cutoff now).countOffered cutoff now).ht = Q.ht := by simp
  rw [publishHint_congr hht]

variable (w : WorkItem) (rest : List WorkItem)

/-- The head is taken. -/
@[simp] theorem take_q : (Q.take cutoff now w rest).1.q = rest := rfl

@[simp] theorem take_ht : (Q.take cutoff now w rest).1.ht = Q.ht := by
  unfold take
  split <;> rfl

@[simp] theorem take_waiting : (Q.take cutoff now w rest).1.waiting = Q.waiting := by
  unfold take
  split <;> rfl

/-- The hint of the item taken is published. -/
@[simp] theorem take_hints : (Q.take cutoff now w rest).2 = Q.publishHint w := by
  unfold take
  split <;> rfl

/-- The queue holds items, and the first one is past its freshness window at
a time at which the queue evicts. -/
def headExpired : Bool :=
  match Q.evictsBy, Q.q with
  | some c, w :: _ => isStale now w c
  | _, _ => false

/-- The head stays the head unless it is evicted. -/
theorem survivors_head {Q : BlockingQueue} {now : Nat} {w : WorkItem} {rest : List WorkItem}
    (hq : Q.q = w :: rest) (hfresh : Q.headExpired now = false) :
    ∃ rest', Q.survivors now = w :: rest' := by
  unfold survivors
  cases hc : Q.evictsBy with
  | none => exact ⟨rest, hq⟩
  | some c =>
      rw [headExpired, hc, hq] at hfresh
      exact ⟨rest.filter (fun w => !isStale now w c), by simp [hq, hfresh]⟩

end BlockingQueue

/-! ## the invariant -/

/-- What `waiting_` and the queue are while the worker is where it is:
`waiting_` is true exactly while the worker sleeps and no push has come. -/
def WorkerPc.Waits (Q : BlockingQueue) : WorkerPc → Prop
  | .wait false => Q.waiting = true ∧ Q.q = []
  | .wait true => Q.waiting = false ∧ Q.q ≠ []
  | _ => Q.waiting = false

/-- The hint target, whose cell reads zero until the worker has started. -/
def StageArgs.target (args : StageArgs) (fd : Nat) (registered : Bool) : HintTarget where
  pub := some fd
  pidTgid := some (if registered then args.self else 0)
  cfg := some args.cfg

/-- The hint target is the stage's own, `waiting_` is right, and an item in
the worker's hands owns the hint. -/
structure Hinting (args : StageArgs) (s : State) : Prop where
  target : ∃ fd, s.stage.queue.ht = args.target fd (decide (s.stage.worker ≠ .start))
  waits : s.stage.worker.Waits s.stage.queue
  holds : ∀ w, s.stage.worker.holds? = some w →
    lastHint args.self s.published = some (hintOf args.cfg w)

/-- While the worker sleeps after a push woke it, the last hint published
under its key is that of the head of the queue. -/
def WakeSafe (args : StageArgs) (s : State) : Prop :=
  s.stage.worker = .wait true → ∃ w rest, s.stage.queue.q = w :: rest ∧
    lastHint args.self s.published = some (hintOf args.cfg w)

section Steps

variable {args : StageArgs} {fd : Nat} {s s' : State}

/-- Nothing has been published yet. -/
theorem Hinting.initial (fd : Nat) (args : StageArgs) : Hinting args (State.initial fd args) where
  target := ⟨fd, rfl⟩
  waits := rfl
  holds := by
    intro w hw
    cases hw

/-- A registered worker's queue publishes under the worker's key. -/
theorem publishHint_target {Q : BlockingQueue} (h : Q.ht = args.target fd true) (v : WorkItem) :
    Q.publishHint v = [(args.self, hintOf args.cfg v)] := by
  have hself : args.self ≠ 0 := Nat.pos_iff_ne_zero.mp args.self_pos
  have hfd : ¬ (fd : Int) < 0 := by omega
  rw [BlockingQueue.publishHint, h]
  simp [StageArgs.target, hself]

/-! ## producers -/

/-- A push publishes only for a worker that sleeps and that no push has woken. -/
theorem push_cases (h : Hinting args s) (v : WorkItem) :
    (s.stage.worker = .wait false ∧ s.stage.queue.q = [] ∧
      (s.stage.push args s.now v).hints = [(args.self, hintOf args.cfg v)]) ∨
    (s.stage.worker ≠ .wait false ∧ (s.stage.push args s.now v).hints = []) := by
  have hw := h.waits
  obtain ⟨fd, ht⟩ := h.target
  by_cases hsleep : s.stage.worker = .wait false
  · rw [hsleep] at hw ht
    obtain ⟨hwait, hq⟩ := hw
    refine .inl ⟨hsleep, hq, ?_⟩
    rw [Stage.push, BlockingQueue.push_hints, if_pos hwait]
    exact publishHint_target ht v
  · have hwait : s.stage.queue.waiting = false := by
      cases hp : s.stage.worker with
      | wait woken =>
          cases woken with
          | false => exact absurd hp hsleep
          | true => rw [hp] at hw; exact hw.1
      | _ => rw [hp] at hw; exact hw
    refine .inr ⟨hsleep, ?_⟩
    rw [Stage.push, BlockingQueue.push_hints, hwait]
    rfl

/-- A wake-up changes no worker's item. -/
theorem notify_holds? (pc : WorkerPc) : pc.notify.holds? = pc.holds? := by
  cases pc <;> rfl

/-- A push publishes only for a consumer that waits. -/
theorem Hinting.push (h : Hinting args s) (v : WorkItem) :
    Hinting args (s.after (s.stage.push args s.now v)) := by
  obtain ⟨fd, ht⟩ := h.target
  refine ⟨⟨fd, ?_⟩, ?_, ?_⟩
  · have hstart : (s.stage.worker.notify = .start) = (s.stage.worker = .start) := by
      cases s.stage.worker <;> simp [WorkerPc.notify]
    simpa [State.after, Stage.push, hstart] using ht
  · show s.stage.worker.notify.Waits _
    cases s.stage.worker <;> simp [WorkerPc.notify, WorkerPc.Waits, State.after, Stage.push]
  · intro w hw
    have hheld : s.stage.worker.holds? = some w := by
      rw [← notify_holds?]
      exact hw
    obtain ⟨hsleep, -, -⟩ | ⟨-, hhints⟩ := push_cases h v
    · rw [hsleep] at hheld
      cases hheld
    · show lastHint _ (s.published ++ (s.stage.push args s.now v).hints) = _
      rw [hhints, List.append_nil]
      exact h.holds w hheld

/-! ## the worker -/

/-- `pop` with the lock held and `waiting_` false. -/
theorem Hinting.pop {S : Stage} (ht : S.queue.ht = args.target fd true)
    (hwait : S.queue.waiting = false) :
    Hinting args (s.after (S.pop args s.now)) := by
  unfold Stage.pop
  by_cases hstop : S.queue.stop = true
  · rw [if_pos hstop]
    refine ⟨⟨fd, ht⟩, hwait, ?_⟩
    intro w hw
    cases hw
  · rw [if_neg hstop]
    cases hq : S.queue.q with
    | nil =>
        refine ⟨⟨fd, ht⟩, ⟨rfl, hq⟩, ?_⟩
        intro w hw
        cases hw
    | cons w rest =>
        refine ⟨⟨fd, ?_⟩, ?_, ?_⟩
        · simpa [State.after] using ht
        · simpa [State.after, WorkerPc.Waits] using hwait
        · intro w' hw'
          have hsame : w = w' := Option.some.inj hw'
          subst hsame
          simp [State.after, publishHint_target ht]

/-- A step of the worker that publishes nothing and leaves its queue alone. -/
theorem Hinting.move {S : Stage} {out : Option WorkItem} (h : Hinting args s)
    (hqueue : S.queue = s.stage.queue) (hstart : s.stage.worker ≠ .start)
    (hstart' : S.worker ≠ .start)
    (hawake : ∀ b, s.stage.worker ≠ .wait b) (hawake' : ∀ b, S.worker ≠ .wait b)
    (hheld : ∀ w, S.worker.holds? = some w → s.stage.worker.holds? = some w) :
    Hinting args (s.after { stage := S, out := out }) := by
  obtain ⟨fd, ht⟩ := h.target
  have hw := h.waits
  refine ⟨⟨fd, ?_⟩, ?_, ?_⟩
  · simpa [State.after, hqueue, hstart, hstart'] using ht
  · show S.worker.Waits S.queue
    rw [hqueue]
    cases hp : s.stage.worker <;> cases hp' : S.worker <;>
      simp_all [WorkerPc.Waits]
  · intro w hw
    simpa [State.after] using h.holds w (hheld w hw)

/-- Every step of the worker. -/
theorem Hinting.work {e : Effect} (h : Hinting args s)
    (hs : s.stage.work args s.now s.running = some e) : Hinting args (s.after e) := by
  obtain ⟨fd, ht⟩ := h.target
  have hw := h.waits
  cases hp : s.stage.worker with
  | start =>
      rw [Stage.work, hp] at hs
      cases hs
      rw [hp] at ht hw
      refine ⟨⟨fd, ?_⟩, hw, ?_⟩
      · simp [State.after, Stage.register, ht, StageArgs.target]
      · intro w hw
        cases hw
  | loop last =>
      rw [Stage.work, hp] at hs
      cases hs
      refine h.move rfl (by simp [hp]) ?_ (by simp [hp]) ?_ ?_
      · dsimp only; split <;> simp
      · intro b; dsimp only; split <;> simp
      · intro w hw
        rw [hp]
        cases hr : s.running <;> simp_all [WorkerPc.holds?]
  | pop =>
      rw [Stage.work, hp] at hs
      cases hs
      rw [hp] at ht hw
      exact .pop ht hw
  | wait woken =>
      rw [Stage.work, hp] at hs
      cases hs
      rw [hp] at ht
      exact .pop (S := { s.stage with queue := { s.stage.queue with waiting := false } }) ht rfl
  | popped w =>
      rw [Stage.work, hp] at hs
      cases hs
      refine h.move rfl (by simp [hp]) ?_ (by simp [hp]) ?_ ?_
      · dsimp only [Stage.begin]; split <;> simp
      · intro b; dsimp only [Stage.begin]; split <;> simp
      · intro w' hw'
        rw [hp, ← hw']
        dsimp only [Stage.begin]
        split <;> rfl
  | compute w =>
      rw [Stage.work, hp] at hs
      cases hs
      refine h.move rfl (by simp [hp]) ?_ (by simp [hp]) ?_ ?_
      · dsimp only [Stage.finish]; split <;> simp
      · intro b; dsimp only [Stage.finish]; split <;> simp
      · intro w' hw'
        rw [hp, ← hw']
        dsimp only [Stage.finish]
        split <;> rfl
  | forward w =>
      rw [Stage.work, hp] at hs
      cases hs
      exact h.move rfl (by simp [hp]) (by simp) (by simp [hp]) (by simp)
        (by simp [hp, WorkerPc.holds?])
  | exited last =>
      rw [Stage.work, hp] at hs
      cases hs

/-- Every step keeps the hint where it belongs. -/
theorem step_hinting : Steps.Preserved (step args) (Hinting args) := by
  intro s a s' h hs
  cases a with
  | tick d => cases hs; exact ⟨h.target, h.waits, h.holds⟩
  | push v => cases hs; exact h.push v
  | setStaleEviction enabled =>
      cases hs
      refine ⟨h.target, ?_, h.holds⟩
      have hw := h.waits
      cases hp : s.stage.worker <;> simp_all [WorkerPc.Waits, Stage.setStaleEviction]
  | stop => cases hs; exact ⟨h.target, h.waits, h.holds⟩
  | halt => cases hs; exact ⟨h.target, h.waits, h.holds⟩
  | elsewhere key hint =>
      rw [step] at hs
      split at hs
      · cases hs
      · next hne =>
        cases hs
        refine ⟨h.target, h.waits, ?_⟩
        intro w hw
        rw [lastHint_concat_of_ne hint s.published hne]
        exact h.holds w hw
  | worker =>
      rw [step] at hs
      obtain ⟨e, he, rfl⟩ := Option.map_eq_some_iff.mp hs
      exact h.work he

/-! ## hint ownership -/

/-- The states a stage can get into among any producers. -/
def Reachable (args : StageArgs) (s : State) : Prop :=
  ∃ fd as, Steps.exec (step args) (State.initial fd args) as = some s

/-- The hint of every reachable state. -/
theorem Reachable.hinting (h : Reachable args s) : Hinting args s := by
  obtain ⟨fd, as, hrun⟩ := h
  exact step_hinting.exec (Hinting.initial fd args) hrun

/-- **Busy-consumer hint ownership**: from the moment `pop` returns an item
until `pop` is called again, the last hint published under the consumer's key
is the item's. -/
theorem busy_consumer_owns_hint (h : Reachable args s) {w : WorkItem}
    (hw : s.stage.worker.holds? = some w) :
    lastHint args.self s.published = some (hintOf args.cfg w) :=
  h.hinting.holds w hw

end Steps

/-- The `vision_fe` worker of a run with `--drop-stale 1`. -/
def visionArgs : StageArgs where
  cfg := {
    stageId := 1
    classId := 2
    deadlineRelNs := 33000000
    staleNs := 66000000
    budgetNs := 12000000
    sliceNs := 0
    weight := 0 }
  hasOut := true
  dropStale := true
  self := 7

/-- The camera's frames, 33 ms apart. -/
def frame (n : Nat) : WorkItem where
  seq := n
  tsNs := 33000000 * n

/-- The worker registers and goes to sleep, and a first frame wakes it. -/
def wakeUp : List Action :=
  [.setStaleEviction true, .worker, .worker, .worker, .tick 33000000, .push (frame 1)]

/-- The worker computes on the first frame while the next ones come, and the
second one is evicted. -/
def busy : List Action :=
  wakeUp ++ [.worker, .worker, .tick 33000000, .push (frame 2), .tick 99000000, .push (frame 5)]

/-- Where a list of actions leads the `vision_fe` stage. -/
def visionState (as : List Action) : State :=
  (Steps.exec (step visionArgs) (State.initial 3 visionArgs) as).getD (State.initial 3 visionArgs)

/-- A run that goes through ends in its state. -/
theorem visionState_exec {as : List Action}
    (h : (Steps.exec (step visionArgs) (State.initial 3 visionArgs) as).isSome = true) :
    Steps.exec (step visionArgs) (State.initial 3 visionArgs) as = some (visionState as) := by
  obtain ⟨s, hs⟩ := Option.isSome_iff_exists.mp h
  rw [visionState, hs]
  rfl

/-- A busy vision stage keeps its own hint. -/
theorem busy_consumer_owns_hint_vision :
    lastHint 7 (visionState busy).published = some (hintOf visionArgs.cfg (frame 1)) := by
  have hreach : Reachable visionArgs (visionState busy) :=
    ⟨3, busy, visionState_exec (by decide)⟩
  exact busy_consumer_owns_hint hreach (by decide)

section WakeUp

variable {args : StageArgs} {fd : Nat} {s s' : State}

/-! ## wake-ups -/

/-- No push evicts the head of the queue while the worker is asleep after a
push has woken it. -/
def SparesHead (s : State) : Action → Prop
  | .push _ => ¬ (s.stage.worker = .wait true ∧ s.stage.queue.headExpired s.now = true)
  | _ => True

instance (s : State) : DecidablePred (SparesHead s)
  | .push _ => inferInstanceAs (Decidable (¬ _))
  | .tick _ | .setStaleEviction _ | .stop | .halt | .elsewhere .. | .worker => isTrue trivial

/-- A push to a sleeping worker publishes the hint of the queue's only item. -/
theorem WakeSafe.push_asleep (v : WorkItem) (hq : s.stage.queue.q = [])
    (hhints : (s.stage.push args s.now v).hints = [(args.self, hintOf args.cfg v)]) :
    WakeSafe args (s.after (s.stage.push args s.now v)) := by
  intro _
  have hnone : s.stage.queue.survivors s.now = [] := by
    unfold BlockingQueue.survivors
    split <;> simp [hq]
  refine ⟨v, [], ?_, ?_⟩
  · simp [State.after, Stage.push, hnone]
  · simp [State.after, hhints]

/-- A push that spares the head keeps the hint of a woken worker right. -/
theorem WakeSafe.push (h : Hinting args s) (hwake : WakeSafe args s) (v : WorkItem)
    (hok : SparesHead s (.push v)) : WakeSafe args (s.after (s.stage.push args s.now v)) := by
  obtain ⟨hsleep, hq, hhints⟩ | ⟨hsleep, hhints⟩ := push_cases h v
  · exact .push_asleep v hq hhints
  · intro hwoken
    have hw : s.stage.worker = .wait true := by
      have hnotify : s.stage.worker.notify = .wait true := hwoken
      cases hp : s.stage.worker with
      | wait woken =>
          cases woken with
          | false => exact absurd hp hsleep
          | true => rfl
      | _ => rw [hp] at hnotify; cases hnotify
    obtain ⟨w, rest, hq, hlast⟩ := hwake hw
    have hfresh : s.stage.queue.headExpired s.now = false := by
      by_contra hexp
      exact hok ⟨hw, by simpa using hexp⟩
    obtain ⟨rest', hrest⟩ := BlockingQueue.survivors_head hq hfresh
    refine ⟨w, rest' ++ [v], ?_, ?_⟩
    · simp [State.after, Stage.push, hrest]
    · simpa [State.after, hhints] using hlast

/-- An expired head does not survive. -/
theorem survivors_of_headExpired {Q : BlockingQueue} {now : Nat} {w : WorkItem}
    {rest : List WorkItem} (hq : Q.q = w :: rest) (hexp : Q.headExpired now = true) :
    ∀ x ∈ Q.survivors now, x ∈ rest := by
  intro x hx
  unfold BlockingQueue.survivors at hx
  cases hc : Q.evictsBy with
  | none => simp [BlockingQueue.headExpired, hc] at hexp
  | some c =>
      rw [BlockingQueue.headExpired, hc, hq] at hexp
      rw [hc, hq] at hx
      have hfilter : x ∈ rest.filter (fun w => !isStale now w c) := by simpa [hexp] using hx
      exact (List.mem_filter.mp hfilter).1

/-- Where no two items have one hint, sparing the head is also necessary. -/
theorem WakeSafe.push_iff (h : Hinting args s) (hwake : WakeSafe args s) (v : WorkItem)
    (hw : s.stage.worker = .wait true)
    (hdistinct : ((s.stage.queue.q ++ [v]).map (hintOf args.cfg)).Nodup) :
    WakeSafe args (s.after (s.stage.push args s.now v)) ↔ SparesHead s (.push v) := by
  refine ⟨?_, hwake.push h v⟩
  intro hsafe hbad
  obtain ⟨w, rest, hq, hlast⟩ := hwake hw
  have hwoken : (s.after (s.stage.push args s.now v)).stage.worker = .wait true := by
    simp [State.after, Stage.push, hw, WorkerPc.notify]
  obtain ⟨x, rest', hq', hlast'⟩ := hsafe hwoken
  have hhints : (s.stage.push args s.now v).hints = [] := by
    obtain ⟨hsleep, -, -⟩ | ⟨-, hhints⟩ := push_cases h v
    · rw [hw] at hsleep
      cases hsleep
    · exact hhints
  have hsame : hintOf args.cfg w = hintOf args.cfg x := by
    have hboth : some (hintOf args.cfg w) = some (hintOf args.cfg x) := by
      rw [← hlast, ← hlast']
      simp [State.after, hhints]
    exact Option.some.inj hboth
  have hpushed : s.stage.queue.survivors s.now ++ [v] = x :: rest' := by
    rw [← hq']
    simp [State.after, Stage.push]
  have hmem : x ∈ rest ++ [v] := by
    have hx : x ∈ s.stage.queue.survivors s.now ++ [v] := by simp [hpushed]
    obtain hx | hx := List.mem_append.mp hx
    · exact List.mem_append_left _ (survivors_of_headExpired hq hbad.2 x hx)
    · exact List.mem_append_right _ hx
  rw [hq, List.cons_append, List.map_cons, List.nodup_cons] at hdistinct
  exact hdistinct.1 (hsame ▸ List.mem_map_of_mem hmem)

/-- The worker's own step never leaves it woken and asleep. -/
theorem work_awake {e : Effect} {now : Nat} {running : Bool} {S : Stage}
    (hs : S.work args now running = some e) : e.stage.worker ≠ .wait true := by
  have hpop : ∀ T : Stage, (T.pop args now).stage.worker ≠ .wait true := by
    intro T
    unfold Stage.pop
    split
    · simp
    · split <;> simp
  cases hp : S.worker <;> rw [Stage.work, hp] at hs <;> cases hs
  case pop => exact hpop S
  case wait woken => exact hpop _
  case start => simp [Stage.register]
  case loop last => dsimp only; split <;> simp
  case popped w => dsimp only [Stage.begin]; split <;> simp
  case compute w => dsimp only [Stage.finish]; split <;> simp
  case forward w => simp

/-- A step that evicts no hinted head leaves the sleeping consumer its hint. -/
theorem step_wakeSafe {a : Action} (h : Hinting args s ∧ WakeSafe args s) (hok : SparesHead s a)
    (hs : step args s a = some s') : Hinting args s' ∧ WakeSafe args s' := by
  refine ⟨step_hinting s a s' h.1 hs, ?_⟩
  cases a with
  | push v => cases hs; exact h.2.push h.1 v hok
  | elsewhere key hint =>
      rw [step] at hs
      split at hs
      · cases hs
      · next hne =>
        cases hs
        intro hwoken
        obtain ⟨w, rest, hq, hlast⟩ := h.2 hwoken
        exact ⟨w, rest, hq, by rw [lastHint_concat_of_ne hint s.published hne]; exact hlast⟩
  | worker =>
      rw [step] at hs
      obtain ⟨e, he, rfl⟩ := Option.map_eq_some_iff.mp hs
      intro hwoken
      exact absurd hwoken (work_awake he)
  | tick d => cases hs; exact h.2
  | setStaleEviction enabled => cases hs; exact h.2
  | stop => cases hs; exact h.2
  | halt => cases hs; exact h.2

/-- **Wake-safe hinting**: in every run in which no push evicts the head of
the queue between a wake-up and the `pop` that follows it, a woken worker's
last hint is the hint of the item its `pop` will return. -/
theorem woken_consumer_hint_is_head {as : List Action}
    (hok : Steps.Along (step args) SparesHead (State.initial fd args) as)
    (hrun : Steps.exec (step args) (State.initial fd args) as = some s) : WakeSafe args s := by
  have hinit : Hinting args (State.initial fd args) ∧ WakeSafe args (State.initial fd args) := by
    refine ⟨Hinting.initial fd args, ?_⟩
    intro hwoken
    cases hwoken
  exact (hok.exec (fun _ _ _ h ha hs => step_wakeSafe h ha hs) hinit hrun).2

end WakeUp

/-- A second frame comes before the woken worker runs. -/
def backlog : List Action := wakeUp ++ [.tick 33000000, .push (frame 2)]

/-- A woken vision stage finds its hint at the head. -/
theorem woken_consumer_hint_is_head_vision : WakeSafe visionArgs (visionState backlog) :=
  woken_consumer_hint_is_head (by decide) (visionState_exec (by decide))

/-- The third frame is pushed a little late and evicts the first, whose hint
is the one the worker is woken with. -/
def starved : List Action := backlog ++ [.tick 33000001, .push (frame 3)]

/-- A woken vision stage that finds the hint of an evicted frame. -/
theorem starved_wake_hint_names_evicted :
    Reachable visionArgs (visionState starved) ∧
      (visionState starved).stage.worker = .wait true ∧
      (visionState starved).stage.queue.q = [frame 2, frame 3] ∧
      lastHint 7 (visionState starved).published = some (hintOf visionArgs.cfg (frame 1)) ∧
      ¬ WakeSafe visionArgs (visionState starved) := by
  have hq : (visionState starved).stage.queue.q = [frame 2, frame 3] := by decide
  have hwoken : (visionState starved).stage.worker = .wait true := by decide
  have hlast : lastHint 7 (visionState starved).published =
      some (hintOf visionArgs.cfg (frame 1)) := by decide
  refine ⟨⟨3, starved, visionState_exec (by decide)⟩, hwoken, hq, hlast, ?_⟩
  intro hsafe
  obtain ⟨w, rest, hhead, hhint⟩ := hsafe hwoken
  rw [hq] at hhead
  cases hhead
  have hsame := hlast.symm.trans hhint
  exact absurd hsame (by decide)

end ScxSlam.PipelineDemo
