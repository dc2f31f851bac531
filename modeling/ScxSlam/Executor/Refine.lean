import ScxSlam.Executor.Control
import ScxSlam.Executor.Ledger

/-!
# ScxSlam.Executor.Refine

Every interleaving of dispatcher, worker and environment performs the
sequential protocol of `ScxSlam.Executor.Ledger`.  `Related s L` says where
the job of the ledger is: with the dispatcher, in `pending`, with the
worker, or nowhere.  `Control` makes these exclusive, so every step is a
step of the one party that holds the job (`step_refines`).
-/

namespace ScxSlam.Executor

/-! ## who holds the job -/

/-- The work a dispatcher program point owns. -/
def DispatcherPc.work? : DispatcherPc → Option PendingWork
  | .bind e => some { executable := e }
  | .createMessage w _ | .take w _ | .extract w _ | .makeHint w _ => some w
  | .observeSelected w | .checkExpired w | .dropObserve w | .publish w | .handoff w => some w
  | .returnMessage w _ | .releaseGroup w _ => some w
  | _ => none

/-- The work a worker program point owns. -/
def WorkerPc.work? : WorkerPc → Option PendingWork
  | .admission w | .dropObserve w | .dropReturn w | .dropRelease w => some w
  | .enterHandler w | .handling w | .handlerReturn w _ | .handlerRelease w _ => some w
  | .executeAny w | .executing w | .destroy w => some w
  | .catchReturn w | .catchRelease w | .catchClear w | .catchFlag w | .unwind w => some w
  | _ => none

/-- The work whose hint the sink still holds: until the worker clears it. -/
def WorkerPc.hinted? : WorkerPc → Option PendingWork
  | .catchFlag _ | .unwind _ => none
  | pc => pc.work?

/-- A piece of work is the ledger's job. -/
structure Holds (L : Ledger) (w : PendingWork) : Prop where
  serial : w.serial = L.serial
  message : w.message = if L.message then some L.serial else none
  subscription : L.message = true → w.executable.subscription.isSome = true
  group : ∀ g, w.executable.callbackGroup = some g → L.group = some g
  owed : L.owed = true → w.executable.callbackGroup.isSome = true
  observer : w.observer = L.observed
  reject : w.rejectExpired = L.reject

/-- The stage of the job at each dispatcher program point. -/
def DispatcherPc.AtStage (L : Ledger) : DispatcherPc → Prop
  | .getNext => L.stage.settled = true
  | .bind _ => L.stage = .fresh ∧ L.message = false ∧ L.owed = L.group.isSome
  | .makeHint _ _ => L.stage = .fresh ∧ L.message = false
  | .createMessage w _ => L.stage = .fresh ∧ L.message = false ∧
      L.owed = L.group.isSome ∧ w.executable.subscription.isSome = true
  | .take _ _ | .extract _ _ => L.stage = .created ∧ L.message = true
  | .observeSelected _ => L.stage = .accepted ∧ L.observed = true ∧ L.message = true
  | .checkExpired _ => L.message = true ∧
      if L.observed then L.stage = .selected else L.stage = .accepted
  | .dropObserve _ => L.stage = .condemned
  | .publish _ => if L.message then L.stage = .passed else L.stage = .fresh
  | .handoff w => L.stage = L.launched ∧ L.slot = some (w.serial, w.hint)
  | .returnMessage _ after => after = .next → L.stage = .created ∨ L.stage = .dropped
  | .releaseGroup _ after => L.message = false ∧
      (after = .next → L.stage = .created ∨ L.stage = .dropped)
  | _ => True

/-- The stage of the job at each worker program point. -/
def WorkerPc.AtStage (L : Ledger) : WorkerPc → Prop
  | .admission _ => L.stage = .published ∧ L.message = true
  | .dropObserve _ => L.stage = .expired
  | .dropReturn _ => L.stage = .dropped
  | .dropRelease _ => L.stage = .dropped ∧ L.message = false
  | .enterHandler _ => L.stage = .admitted
  | .handling _ | .handlerReturn _ _ => L.stage = .entered
  | .handlerRelease _ _ => L.stage = .entered ∧ L.message = false
  | .executeAny _ => L.stage = .queued ∧ L.message = false
  | .executing _ => L.stage = .entered ∧ L.message = false
  | .destroy _ => L.stage.settled = true ∧ L.message = false
  | .catchRelease _ | .catchClear _ | .catchFlag _ | .unwind _ => L.message = false
  | _ => True

/-! ## what the sink holds -/

/-- The dispatcher has published and not yet handed over. -/
def DispatcherPc.isHandoff : DispatcherPc → Bool
  | .handoff _ => true
  | _ => false

/-- The worker has cleared and not yet said so. -/
def WorkerPc.isCatchFlag : WorkerPc → Bool
  | .catchFlag _ => true
  | _ => false

/-- The sink holds a hint of this worker. -/
def hot (s : State) : Bool :=
  (s.hintNeedsClear || s.dispatcher.isHandoff) && !s.worker.isCatchFlag

/-- An exception has ended the dispatch loop for good. -/
def Doomed (s : State) : Prop :=
  s.dispatchError.isSome = true ∨ s.workerError.isSome = true ∨ s.worker.region = .failing

/-- No further publication can come. -/
def Retired (s : State) : Prop :=
  Doomed s ∨ s.worker.hinted? ≠ s.worker.work? ∨
    s.dispatcher.region = .closing ∨ s.dispatcher.region = .over

/-! ## the refinement relation -/

/-- The ledger describes the state. -/
structure Related (s : State) (L : Ledger) : Prop where
  serial : L.serial = s.serial
  boot : s.worker.region = .absent ∨ s.worker.region = .starting → L = {}
  worker : L.worker = none ∨ L.worker = some s.workerId
  cleared : L.cleared = true → Retired s
  slot : s.worker.region ≠ .absent → L.slot.isSome = hot s
  turn : ∀ w, s.dispatcher.work? = some w → Holds L w
  turnStage : s.dispatcher.AtStage L
  handed : ∀ w, s.pending = some w →
    Holds L w ∧ L.stage = L.launched ∧ L.slot = some (w.serial, w.hint)
  busy : ∀ w, s.worker.work? = some w → Holds L w
  busyStage : s.worker.AtStage L
  busySlot : ∀ w, s.worker.hinted? = some w → L.slot = some (w.serial, w.hint)
  free : s.dispatcher.work? = none → s.pending = none → s.worker.work? = none →
    L.message = false ∧ L.owed = false ∧ (L.stage.settled = true ∨ Doomed s)

/-- The first state and the empty ledger. -/
theorem Init.related {s : State} (h : Init s) : Related s {} where
  serial := h.serial.symm
  boot _ := rfl
  worker := .inl rfl
  cleared := nofun
  slot hw := absurd (by rw [h.worker]; rfl) hw
  turn := by rw [h.dispatcher]; nofun
  turnStage := by rw [h.dispatcher]; trivial
  handed := by rw [h.pending]; nofun
  busy := by rw [h.worker]; nofun
  busyStage := by rw [h.worker]; trivial
  busySlot := by rw [h.worker]; nofun
  free _ _ _ := ⟨rfl, rfl, .inl rfl⟩

/-! ## cleanup -/

/-- Giving the message back changes nothing else of the work. -/
@[simp] theorem PendingWork.serial_returned (w : PendingWork) : w.returned.serial = w.serial := by
  simp only [PendingWork.returned, PendingWork.serial]
  split <;> rfl

@[simp] theorem PendingWork.hint_returned (w : PendingWork) : w.returned.hint = w.hint := by
  simp only [PendingWork.returned]
  split <;> rfl

/-- Releasing the group changes nothing else of the work. -/
@[simp] theorem PendingWork.serial_released (w : PendingWork) : w.released.serial = w.serial := rfl

@[simp] theorem PendingWork.hint_released (w : PendingWork) : w.released.hint = w.hint := rfl

/-- `return_taken_message` gives the message back exactly when it is out. -/
theorem Holds.read_return {L : Ledger} {w : PendingWork} (h : Holds L w) :
    Steps.exec Ledger.step L w.returnEvents = some { L with message := false } := by
  cases hm : L.message with
  | false =>
      have hw : w.message = none := by rw [h.message, hm]; rfl
      simp only [PendingWork.returnEvents, hw, Steps.exec_nil]
      rw [← hm]
  | true =>
      obtain ⟨sub, hsub⟩ := Option.isSome_iff_exists.mp (h.subscription hm)
      have hw : w.message = some L.serial := by rw [h.message, hm]; rfl
      simp [PendingWork.returnEvents, hw, hsub, Ledger.step, hm]

/-- The message goes back. -/
theorem Holds.returned {L : Ledger} {w : PendingWork} (h : Holds L w) :
    Holds { L with message := false } w.returned := by
  cases hm : L.message with
  | false =>
      have hw : w.message = none := by rw [h.message, hm]; rfl
      have hw' : w.returned = w := by
        simp only [PendingWork.returned]
        split
        · rw [← hw]
        · rfl
      rw [hw']
      exact ⟨h.serial, hw, nofun, h.group, h.owed, h.observer, h.reject⟩
  | true =>
      have hw' : w.returned = { w with message := none } := by
        simp only [PendingWork.returned, h.subscription hm, if_true]
      rw [hw']
      exact ⟨h.serial, rfl, nofun, h.group, h.owed, h.observer, h.reject⟩

/-- `release_callback_group` settles the group once the message is back. -/
theorem Holds.read_release {L : Ledger} {w : PendingWork} (h : Holds L w)
    (hm : L.message = false) :
    Steps.exec Ledger.step L w.executable.releaseEvents = some { L with owed := false } := by
  cases hg : w.executable.callbackGroup with
  | none =>
      have ho : L.owed = false := by
        cases ho : L.owed with
        | false => rfl
        | true => simpa [hg] using h.owed ho
      simp only [AnyExecutable.releaseEvents, hg, Steps.exec_nil]
      rw [← ho]
  | some g =>
      have hs : w.executable.serial = L.serial := h.serial
      simp [AnyExecutable.releaseEvents, hg, Ledger.step, hs, h.group g hg, hm]

/-- The group is released. -/
theorem Holds.released {L : Ledger} {w : PendingWork} (h : Holds L w) :
    Holds { L with owed := false } w.released :=
  ⟨h.serial, h.message, h.subscription, nofun, nofun, h.observer, h.reject⟩

/-- Releasing leaves the job with its owner until it is destroyed. -/
theorem Holds.settle {L : Ledger} {w : PendingWork} (h : Holds L w) :
    Holds { L with owed := false } w :=
  ⟨h.serial, h.message, h.subscription, h.group, nofun, h.observer, h.reject⟩

/-- Only the stage of the job moves on. -/
theorem Holds.at_stage {L : Ledger} {w : PendingWork} (h : Holds L w) (st : Stage) :
    Holds { L with stage := st } w :=
  ⟨h.serial, h.message, h.subscription, h.group, h.owed, h.observer, h.reject⟩

end ScxSlam.Executor
