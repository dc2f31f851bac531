import ScxSlam.Executor.Contract

/-!
# ScxSlam.Executor.Restart

Every call of `FreshnessExecutor::spin` on one executor, from any threads: the
calls share the members of `Impl`, and each has a dispatcher, a worker and a
dispatch error of its own.

`spinning` keeps a second call out as long as it is set.  A `notify_all` wakes
the threads of its own call here; those of another may wake up at any time.
-/

namespace ScxSlam.Executor

/-! ## calls -/

/-- The threads of a call, and its local. -/
structure Frame where
  dispatchError : Option Failure := none
  dispatcher : DispatcherPc := .entry
  worker : WorkerPc := .absent
  dispatcherAsleep : Bool := false
  workerAsleep : Bool := false
  deriving DecidableEq, Repr

/-- The call has been admitted and has not returned. -/
def Frame.running (f : Frame) : Bool :=
  match f.dispatcher with
  | .entry | .done _ => false
  | _ => true

namespace State

def frame (s : State) : Frame where
  dispatchError := s.dispatchError
  dispatcher := s.dispatcher
  worker := s.worker
  dispatcherAsleep := s.dispatcherAsleep
  workerAsleep := s.workerAsleep

/-- The members of the executor, as the threads of a call see them. -/
def withFrame (s : State) (f : Frame) : State :=
  { s with
    dispatchError := f.dispatchError
    dispatcher := f.dispatcher
    worker := f.worker
    dispatcherAsleep := f.dispatcherAsleep
    workerAsleep := f.workerAsleep }

end State

/-- The executor and the calls of `spin` so far. -/
structure Calls where
  shared : State := {}
  profiles : GroupId → Option ProfileBinding := fun _ => none
  count : Nat := 0
  frame : Nat → Frame := fun _ => {}

inductive CallsAction
  /-- some thread calls `spin` -/
  | spin
  /-- a thread of a call, `cancel`, or the context -/
  | act (k : Nat) (a : Action)
  /-- registrations, which are refused while the executor is spinning -/
  | register (profiles : GroupId → Option ProfileBinding)

namespace Calls

variable (t : Calls)

def view (k : Nat) : State := t.shared.withFrame (t.frame k)

/-- One step; `none` where the action is not possible. -/
def step : CallsAction → Option Calls
  | .spin => some { t with count := t.count + 1 }
  | .act k a =>
      if k < t.count then (Executor.step t.profiles (t.view k) a).map fun s => { t with
        shared := s, frame := Function.update t.frame k s.frame }
      else none
  | .register profiles =>
      if t.shared.spinning then none else some { t with profiles := profiles }

/-- Nothing of an earlier call is left. -/
structure Quiet : Prop where
  spinning : t.shared.spinning = false
  pending : t.shared.pending = none
  workers : ∀ k, (t.frame k).worker = .absent ∨ (t.frame k).worker = .exited

end Calls

/-- The members that the protocol of the two threads reads. -/
structure ProtocolState where
  spinning : Bool
  pending : Option PendingWork := none
  workerReady : Bool := false
  workerIdle : Bool := false
  hintNeedsClear : Bool := false
  stop : Bool := false
  workerId : Nat := 0
  workerError : Option Failure := none
  deriving DecidableEq, Repr

def State.protocol (s : State) : ProtocolState where
  spinning := s.spinning
  pending := s.pending
  workerReady := s.workerReady
  workerIdle := s.workerIdle
  hintNeedsClear := s.hintNeedsClear
  stop := s.stop
  workerId := s.workerId
  workerError := s.workerError

def refusal : Failure := .runtimeError "FreshnessExecutor::spin() called while already spinning"

namespace Calls

/-- What the calls of `spin` owe each other in one step. -/
structure Kept (t : Calls) (a : CallsAction) (t' : Calls) : Prop where
  /-- A call that ends leaves nothing behind. -/
  returns : ∀ k, (t.frame k).running = true → (t'.frame k).running = false → t'.Quiet
  /-- A call that is alone is admitted. -/
  admits : ∀ k, a = .act k (.dispatcher .ok) → (t.frame k).dispatcher = .entry →
    (∀ j, (t.frame j).running = false) →
      (t'.frame k).dispatcher = .reset ∧ t'.shared.spinning = true
  /-- Every call starts from the same protocol state. -/
  starts : ∀ k, a = .act k (.dispatcher .ok) → (t.frame k).dispatcher = .reset →
    (t'.frame k).dispatcher = .spawn ∧ t'.shared.protocol = { spinning := t.shared.spinning }
  /-- A call that is not alone is refused, and nobody else notices. -/
  refuses : ∀ k j, a = .act k (.dispatcher .ok) → (t.frame k).dispatcher = .entry →
    (t.frame j).running = true → (t'.frame k).dispatcher = .done (some refusal) ∧
      ∀ i, i ≠ k → t'.view i = t.view i

/-- The creation of a worker thread fails for a call that was cancelled only,
and no call is made while another one is no longer spinning. -/
def Clean (t : Calls) : CallsAction → Prop
  | .act k (.dispatcher .throws) =>
      (t.frame k).dispatcher = .spawn → t.shared.spinning = false
  | .act k (.dispatcher .ok) =>
      (t.frame k).dispatcher = .entry → (∃ j < t.count, (t.frame j).running = true) →
        t.shared.spinning = true
  | _ => True

instance Clean.decidable (t : Calls) : (a : CallsAction) → Decidable (t.Clean a)
  | .act k (.dispatcher .throws) => inferInstanceAs (Decidable
      ((t.frame k).dispatcher = .spawn → t.shared.spinning = false))
  | .act k (.dispatcher .ok) => inferInstanceAs (Decidable
      ((t.frame k).dispatcher = .entry → (∃ j < t.count, (t.frame j).running = true) →
        t.shared.spinning = true))
  | .act _ (.dispatcher .clearThrows) | .act _ (.dispatcher .nothing)
  | .act _ (.dispatcher (.selected ..)) | .act _ (.dispatcher (.selectedThrows ..))
  | .act _ (.dispatcher (.metadata _)) | .act _ (.dispatcher (.now _))
  | .act _ (.dispatcher (.pidTgid _)) | .act _ (.dispatcher (.executed _)) => isTrue trivial
  | .act _ (.worker _) | .act _ .cancel | .act _ .shutdown | .act _ (.wake _) => isTrue trivial
  | .spin | .register _ => isTrue trivial

end Calls

/-! ## how a call ends -/

section Steps

variable {profiles : GroupId → Option ProfileBinding} {s s' : State} {i : Input}

/-- Behind the store that ends the loop. -/
def DispatcherPc.leaving : DispatcherPc → Bool
  | .finalWait | .notifyStop | .join => true
  | _ => false

/-- Admitted, and before that store. -/
def DispatcherPc.inside : DispatcherPc → Bool
  | .entry | .done _ => false
  | pc => !pc.leaving

/-- A call that was admitted ends its spinning before it waits for the worker,
and returns from the join, unless it could not create the thread. -/
structure Exits (s s' : State) (failed : Prop) : Prop where
  entered : s'.dispatcher ≠ .entry
  leaving : s'.dispatcher.leaving = true → s'.spinning = false ∨ s.dispatcher.leaving = true
  done : ∀ r, s'.dispatcher = .done r → s.dispatcher = .join ∨ s.dispatcher = .spawn ∧ failed
  spinning : s'.spinning = true → s.spinning = true

/-- Inside the call the flag is left alone. -/
theorem Exits.inside {failed : Prop} (hspinning : s'.spinning = s.spinning)
    (hin : s'.dispatcher.inside = true) : Exits s s' failed where
  entered h := by
    rw [h] at hin
    contradiction
  leaving h := by
    cases hd : s'.dispatcher <;> rw [hd] at hin h <;> contradiction
  done r hr := by
    rw [hr] at hin
    contradiction
  spinning h := hspinning ▸ h

/-- A flag that is down stays down. -/
theorem Exits.off {failed : Prop} (h : Exits s s' failed) (hoff : s.spinning = false) :
    s'.spinning = false := by
  by_contra hon
  rw [h.spinning (by simpa using hon)] at hoff
  contradiction

/-- Waiting for the worker to start is no way out. -/
theorem waitReadyStep_exits {failed : Prop} (hd : s.dispatcher = .waitReady)
    (hs : waitReadyStep s = some s') : Exits s s' failed := by
  unfold waitReadyStep at hs
  repeat' split at hs
  all_goals cases hs
  · exact .inside rfl rfl
  · exact .inside rfl rfl
  · exact .inside rfl (by rw [hd]; rfl)

/-- Waiting for an idle worker is no way out. -/
theorem waitIdleStep_exits {failed : Prop} (hd : s.dispatcher = .waitIdle)
    (hs : waitIdleStep s = some s') : Exits s s' failed := by
  unfold waitIdleStep at hs
  split at hs
  · contradiction
  split at hs
  · split at hs <;> cases hs
    · exact .inside rfl rfl
    · dsimp only [State.goto]
      split <;> exact .inside rfl rfl
  · cases hs
    exact .inside rfl (by rw [hd]; rfl)

/-- The last wait was left before it, too. -/
theorem finalWaitStep_exits {failed : Prop} (hd : s.dispatcher = .finalWait)
    (hs : finalWaitStep s i = some s') : Exits s s' failed := by
  obtain ⟨hpc, hspinning⟩ : (s'.dispatcher = .notifyStop ∨ s'.dispatcher = .finalWait) ∧
      s'.spinning = s.spinning := by
    unfold finalWaitStep at hs
    repeat' split at hs
    all_goals cases hs
    all_goals simp [hd]
  refine ⟨?_, fun _ => .inr (by rw [hd]; rfl), ?_, fun h => hspinning ▸ h⟩
  · obtain hpc | hpc := hpc <;> simp [hpc]
  · obtain hpc | hpc := hpc <;> simp [hpc]

/-- Extracting is no way out. -/
theorem extractStep_exits {failed : Prop} {w : PendingWork} {b : ProfileBinding}
    (hs : extractStep s w b i = some s') : Exits s s' failed := by
  cases i <;> simp only [extractStep] at hs
  case metadata m =>
      split at hs <;> cases hs
      · exact .inside rfl rfl
      · dsimp only [State.goto]
        split <;> exact .inside rfl rfl
  all_goals cases hs
  exact .inside rfl rfl

/-- The check is no way out. -/
theorem dispatchCheckStep_exits {failed : Prop} {w : PendingWork}
    (hs : dispatchCheckStep s w i = some s') : Exits s s' failed := by
  obtain ⟨-, rfl⟩ | ⟨b, now, -, rfl⟩ := dispatchCheckStep_cases hs
  · exact .inside rfl rfl
  · cases b <;> exact .inside rfl rfl

/-- A call that was admitted lowers the flag on its way out. -/
theorem dispatcherStep_exits (hs : dispatcherStep profiles s i = some s')
    (hentered : s.dispatcher ≠ .entry) : Exits s s' (i = .throws) := by
  cases hd : s.dispatcher <;> simp only [dispatcherStep, hd] at hs
  case entry => contradiction
  case reset =>
      cases i <;> simp only [startStep, hd] at hs <;> cases hs
      exact .inside rfl rfl
  case spawn =>
      cases i <;> simp only [startStep, hd] at hs <;> cases hs
      · exact .inside rfl rfl
      · exact ⟨by simp, fun h => absurd h (by simp [DispatcherPc.leaving]),
          fun _ _ => .inr ⟨hd, rfl⟩, id⟩
  case waitReady =>
      obtain ⟨-, hs⟩ := Option.ite_none_right_eq_some.mp hs
      exact waitReadyStep_exits hd hs
  case loopHead =>
      obtain ⟨-, hs⟩ := Option.ite_none_right_eq_some.mp hs
      cases hs
      dsimp only [State.goto]
      split <;> exact .inside rfl rfl
  case waitIdle =>
      obtain ⟨-, hs⟩ := Option.ite_none_right_eq_some.mp hs
      exact waitIdleStep_exits hd hs
  case stopSpinning =>
      obtain ⟨-, hs⟩ := Option.ite_none_right_eq_some.mp hs
      cases hs
      exact ⟨by simp, fun _ => .inl rfl, by simp, by simp⟩
  case finalWait => exact finalWaitStep_exits hd hs
  case notifyStop =>
      obtain ⟨-, hs⟩ := Option.ite_none_right_eq_some.mp hs
      cases hs
      exact ⟨by simp, fun _ => .inr (by rw [hd]; rfl), by simp, id⟩
  case join =>
      obtain ⟨-, hs⟩ := Option.ite_none_right_eq_some.mp hs
      cases hs
      exact ⟨by simp, fun h => absurd h (by simp [DispatcherPc.leaving]), fun _ _ => .inl hd, id⟩
  case done => contradiction
  case getNext =>
      cases i <;> simp only [getNextStep] at hs <;> cases hs <;> exact .inside rfl rfl
  case bind e =>
      cases i <;> simp only [bindStep] at hs
      all_goals repeat' split at hs
      all_goals cases hs
      all_goals exact .inside rfl rfl
  case extract w b => exact extractStep_exits hs
  case checkExpired w => exact dispatchCheckStep_exits hs
  case releaseGroup w after =>
      obtain ⟨-, hs⟩ := Option.ite_none_right_eq_some.mp hs
      cases after <;> cases hs <;> exact .inside rfl rfl
  case returnMessage w after =>
      obtain ⟨-, hs⟩ := Option.ite_none_right_eq_some.mp hs
      cases hs
      exact .inside rfl rfl
  case handoff w =>
      obtain ⟨-, hs⟩ := Option.ite_none_right_eq_some.mp hs
      cases hs
      exact .inside rfl rfl
  case notifyHandoff =>
      obtain ⟨-, hs⟩ := Option.ite_none_right_eq_some.mp hs
      cases hs
      exact .inside rfl rfl
  all_goals
    cases i <;>
      simp only [createStep, takeStep, observeSelectedStep, dispatchDropStep, makeHintStep,
        publishStep] at hs
  all_goals try split at hs
  all_goals try cases hs
  all_goals exact .inside rfl rfl

/-- The worker never touches the flag. -/
theorem workerWait_spinning (s : State) : (workerWait s).spinning = s.spinning := by
  unfold workerWait
  repeat' split
  all_goals rfl

/-- Only the end of a worker that failed touches `spinning`. -/
theorem workerStep_spinning (hs : workerStep s i = some s') :
    s'.spinning = s.spinning ∨ s'.spinning = false := by
  cases hp : s.worker <;> simp only [workerStep, hp] at hs
  case absent | exited => contradiction
  case park | waiting =>
      obtain ⟨-, hs⟩ := Option.ite_none_right_eq_some.mp hs
      cases hs
      exact .inl (workerWait_spinning _)
  case admission w =>
      obtain ⟨-, rfl⟩ | ⟨b, now, -, rfl⟩ := admissionStep_cases hs
      · exact .inl rfl
      · exact .inl rfl
  case failCancel =>
      obtain ⟨-, hs⟩ := Option.ite_none_right_eq_some.mp hs
      cases hs
      exact .inr rfl
  all_goals try cases i <;> simp only [workerDropStep, executingStep] at hs
  all_goals try split at hs
  all_goals cases hs
  all_goals exact .inl rfl

/-- How a call that was admitted goes on. -/
theorem step_exits {a : Action} (hs : step profiles s a = some s')
    (hrunning : s.frame.running = true) : Exits s s' (a = .dispatcher .throws) := by
  have hentered : s.dispatcher ≠ .entry := by
    intro hd
    simp [Frame.running, State.frame, hd] at hrunning
  have hdone : ∀ r, s.dispatcher ≠ .done r := by
    intro r hd
    simp [Frame.running, State.frame, hd] at hrunning
  have same : s'.dispatcher = s.dispatcher → s'.spinning = s.spinning ∨ s'.spinning = false →
      Exits s s' (a = .dispatcher .throws) := by
    intro hd hspinning
    refine ⟨hd ▸ hentered, fun h => .inr (hd ▸ h), fun r hr => absurd (hd ▸ hr) (hdone r), ?_⟩
    intro h
    obtain hsame | hoff := hspinning
    · exact hsame ▸ h
    · rw [hoff] at h
      contradiction
  cases a with
  | dispatcher i => simpa using dispatcherStep_exits hs hentered
  | worker i => exact same (worker_frame hs).1 (workerStep_spinning hs)
  | cancel =>
      cases hs
      exact same rfl (.inr rfl)
  | shutdown =>
      cases hs
      exact same rfl (.inl rfl)
  | wake th => cases th <;> cases hs <;> exact same rfl (.inl rfl)

/-! ## one call at a time -/

/-- A call that has not been admitted yet, or never will be, or is over. -/
def Frame.Still (f : Frame) : Prop :=
  f.dispatcher = .entry ∧ f.worker = .absent ∨
    (∃ r, f.dispatcher = .done r) ∧ (f.worker = .absent ∨ f.worker = .exited)

/-- A still frame has neither a call nor a thread. -/
theorem Frame.Still.idle {f : Frame} (h : f.Still) :
    f.running = false ∧ (f.worker = .absent ∨ f.worker = .exited) := by
  unfold Frame.running
  obtain ⟨hd, hw⟩ | ⟨⟨r, hd⟩, hw⟩ := h
  · exact ⟨by rw [hd], .inl hw⟩
  · exact ⟨by rw [hd], hw⟩

/-- A call that is not running may be admitted or refused; apart from that, it
does nothing but let others cancel. -/
theorem Frame.Still.step {a : Action} (h : s.frame.Still) (hs : step profiles s a = some s') :
    (a = .dispatcher .ok ∧ s.dispatcher = .entry ∧
        (s.spinning = true ∧ s' = s.goto (.done (some refusal)) ∨
          s.spinning = false ∧ s' = { s with spinning := true }.goto .reset)) ∨
      ((∀ i, a ≠ .dispatcher i) ∧ s'.frame.Still ∧
        (s'.spinning = s.spinning ∨ s'.spinning = false) ∧ ∃ contextOk, ∀ f,
          s'.withFrame f = { s with
            spinning := s'.spinning, contextOk := contextOk }.withFrame f) := by
  cases a with
  | dispatcher i =>
      left
      obtain ⟨hd, -⟩ | ⟨⟨r, hd⟩, -⟩ := h
      · have hd : s.dispatcher = .entry := hd
        simp only [Executor.step, dispatcherStep, hd] at hs
        cases i <;> simp only [startStep, hd] at hs <;> try contradiction
        split at hs
        · next hspinning =>
          cases hs
          exact ⟨rfl, hd, .inl ⟨hspinning, rfl⟩⟩
        · next hspinning =>
          cases hs
          exact ⟨rfl, hd, .inr ⟨by simpa using hspinning, rfl⟩⟩
      · have hd : s.dispatcher = .done r := hd
        simp only [Executor.step, dispatcherStep, hd] at hs
        contradiction
  | worker i =>
      obtain hw | hw := h.idle.2 <;>
        simp only [Executor.step, workerStep, show s.worker = _ from hw] at hs <;> contradiction
  | cancel =>
      cases hs
      exact .inr ⟨by simp, h, .inr rfl, s.contextOk, fun _ => rfl⟩
  | shutdown =>
      cases hs
      exact .inr ⟨by simp, h, .inl rfl, false, fun _ => rfl⟩
  | wake th =>
      cases th <;> cases hs <;>
        exact .inr ⟨by simp, h, .inl rfl, s.contextOk, fun _ => rfl⟩

end Steps

namespace Calls

variable {t t' : Calls} {a : CallsAction}

/-- No call is running. -/
structure Rest (t : Calls) : Prop where
  still : ∀ k, (t.frame k).Still
  spinning : t.shared.spinning = false
  pending : t.shared.pending = none

/-- Call `k` is running, and no other. -/
structure Busy (t : Calls) (k : Nat) : Prop where
  running : (t.frame k).running = true
  control : Control (t.view k)
  leaving : (t.frame k).dispatcher.leaving = true → t.shared.spinning = false
  still : ∀ j, j ≠ k → (t.frame j).Still

structure Sound (t : Calls) : Prop where
  uncalled : ∀ k, t.count ≤ k → t.frame k = {}
  alone : t.Rest ∨ ∃ k, t.Busy k

/-- At rest the executor is as the next call needs it. -/
theorem Rest.quiet (h : t.Rest) : t.Quiet :=
  ⟨h.spinning, h.pending, fun k => (h.still k).idle.2⟩

/-- Only the call at hand is running. -/
theorem Busy.eq_of_running {k j : Nat} (h : t.Busy k) (hj : (t.frame j).running = true) :
    j = k := by
  by_contra hne
  rw [(h.still j hne).idle.1] at hj
  contradiction

/-- The executor behind a step of call `k`. -/
def after (t : Calls) (k : Nat) (s : State) : Calls :=
  { t with shared := s, frame := Function.update t.frame k s.frame }

section After

variable {k j : Nat} {s : State}

/-- **Inversion**: a step of a call is one of the executor's. -/
theorem step_act {x : Action} (h : t.step (.act k x) = some t') :
    k < t.count ∧ ∃ s, Executor.step t.profiles (t.view k) x = some s ∧ t' = t.after k s := by
  obtain ⟨hk, hmap⟩ := Option.ite_none_right_eq_some.mp h
  obtain ⟨s, hs, rfl⟩ := Option.map_eq_some_iff.mp hmap
  exact ⟨hk, s, hs, rfl⟩

/-- The frame of the call that made a step. -/
theorem frame_after_self : (t.after k s).frame k = s.frame := Function.update_self ..

/-- The frames of the other calls stay as they are. -/
theorem frame_after_of_ne (hj : j ≠ k) : (t.after k s).frame j = t.frame j :=
  Function.update_of_ne hj ..

/-- The next step of a call sees what its last one left. -/
theorem view_after_self : (t.after k s).view k = s := by
  rw [view, frame_after_self]
  rfl

/-- Frames that are still stay so. -/
theorem still_after {P : Nat → Prop} (h : ∀ j, P j → (t.frame j).Still) (hs : s.frame.Still)
    (j : Nat) (hj : P j) : ((t.after k s).frame j).Still := by
  by_cases hjk : j = k
  · rw [hjk, frame_after_self]
    exact hs
  · rw [frame_after_of_ne hjk]
    exact h j hj

/-- Calls to come have not begun. -/
theorem Sound.uncalled_after (h : t.Sound) (hk : k < t.count) (hj : t.count ≤ j) :
    (t.after k s).frame j = {} := by
  rw [frame_after_of_ne (Nat.ne_of_gt (Nat.lt_of_lt_of_le hk hj))]
  exact h.uncalled j hj

end After

/-- Where no call is made and none ends, there is nothing to keep. -/
theorem Kept.of_idle (ha : ∀ k, a ≠ .act k (.dispatcher .ok))
    (hrunning : ∀ k, (t'.frame k).running = (t.frame k).running) : Kept t a t' where
  returns k h h' := by
    rw [hrunning k, h] at h'
    contradiction
  admits k hk := absurd hk (ha k)
  starts k hk := absurd hk (ha k)
  refuses k _ hk := absurd hk (ha k)

/-- Only the dispatcher decides how a call goes. -/
theorem Kept.of_quiet {k : Nat} {x : Action} (hx : ∀ i, x ≠ .dispatcher i)
    (hrunning : ∀ j, (t'.frame j).running = (t.frame j).running) : Kept t (.act k x) t' := by
  refine .of_idle (fun j hj => ?_) hrunning
  cases hj
  exact hx .ok rfl

/-- Only the dispatcher makes a call or creates a thread. -/
theorem Clean.of_quiet {k : Nat} {x : Action} (hx : ∀ i, x ≠ .dispatcher i) :
    t.Clean (.act k x) := by
  cases x with
  | dispatcher i => exact absurd rfl (hx i)
  | worker | cancel | shutdown | wake => trivial

/-- What a step does to the calls. -/
structure Outcome (t : Calls) (a : CallsAction) (t' : Calls) : Prop where
  kept_iff : Kept t a t' ↔ t.Clean a
  sound : t.Clean a → t'.Sound

section Rest

variable {k : Nat} {x : Action} {s : State}

/-- At rest no call is running. -/
theorem Rest.idle (h : t.Rest) (j : Nat) : (t.frame j).running = false := (h.still j).idle.1

/-- An idle executor lets a call in. -/
theorem Rest.admits (h : t.Rest) (hd : (t.frame k).dispatcher = .entry) :
    Kept t (.act k (.dispatcher .ok))
      (t.after k ({ t.view k with spinning := true }.goto .reset)) where
  returns j hj := by
    rw [h.idle j] at hj
    contradiction
  admits j hj _ _ := by
    cases hj
    rw [frame_after_self]
    exact ⟨rfl, rfl⟩
  starts j hj hreset := by
    cases hj
    rw [hd] at hreset
    contradiction
  refuses j i _ _ hi := by
    rw [h.idle i] at hi
    contradiction

/-- A call that raises the flag is the only one inside. -/
theorem Rest.busy (h : t.Rest) (hd : (t.frame k).dispatcher = .entry) :
    (t.after k ({ t.view k with spinning := true }.goto .reset)).Busy k where
  running := by
    rw [frame_after_self]
    rfl
  control := by
    rw [view_after_self]
    obtain ⟨-, hw⟩ | ⟨⟨r, hr⟩, -⟩ := h.still k
    · exact .of_regions (d := .boot) (w := .absent) rfl (congrArg WorkerPc.region hw)
        ⟨h.pending, .inl rfl⟩ nofun
    · rw [hd] at hr
      contradiction
  leaving := by
    rw [frame_after_self]
    exact nofun
  still j hj := by
    rw [frame_after_of_ne hj]
    exact h.still j

/-- While no call is running, the next one is admitted. -/
theorem Rest.outcome (hrest : t.Rest) (h : t.Sound)
    (hstep : t.step (.act k x) = some t') : Outcome t (.act k x) t' := by
  obtain ⟨hk, s, hs, rfl⟩ := step_act hstep
  obtain ⟨rfl, hd, ⟨hspinning, -⟩ | ⟨-, rfl⟩⟩ | ⟨hx, hstill, hspinning, contextOk, hview⟩ :=
    Frame.Still.step (s := t.view k) (hrest.still k) hs
  · -- nothing keeps the call out
    have hoff : t.shared.spinning = false := hrest.spinning
    rw [show t.shared.spinning = true from hspinning] at hoff
    contradiction
  · have hclean : t.Clean (.act k (.dispatcher .ok)) := by
      rintro - ⟨j, -, hj⟩
      rw [hrest.idle j] at hj
      contradiction
    exact ⟨iff_of_true (hrest.admits hd) hclean,
      fun _ => ⟨fun _ => h.uncalled_after hk, .inr ⟨k, hrest.busy hd⟩⟩⟩
  · have hsame : ∀ j, ((t.after k s).frame j).Still := fun j =>
      still_after (P := fun _ => True) (fun j _ => hrest.still j) hstill j trivial
    refine ⟨iff_of_true (.of_quiet hx fun j => ?_) (.of_quiet hx),
      fun _ => ⟨fun _ => h.uncalled_after hk, .inl ⟨hsame, ?_, ?_⟩⟩⟩
    · exact (hsame j).idle.1.trans (hrest.idle j).symm
    · obtain hspinning | hspinning := hspinning
      · exact hspinning.trans hrest.spinning
      · exact hspinning
    · exact (congrArg State.pending (hview {})).trans hrest.pending

end Rest

section Busy

variable {r k : Nat} {x : Action} {s : State}

/-- While a call is spinning, another one is refused. -/
theorem Busy.refuses (hbusy : t.Busy r) (hne : r ≠ k) (hd : (t.frame k).dispatcher = .entry) :
    Kept t (.act k (.dispatcher .ok)) (t.after k ((t.view k).goto (.done (some refusal)))) where
  returns j hj hj' := by
    rw [hbusy.eq_of_running hj, frame_after_of_ne hne, hbusy.running] at hj'
    contradiction
  admits _ _ _ hnone := by
    have hidle := hnone r
    rw [hbusy.running] at hidle
    contradiction
  starts j hj hreset := by
    cases hj
    rw [hd] at hreset
    contradiction
  refuses j i hj _ _ := by
    cases hj
    rw [frame_after_self]
    refine ⟨rfl, fun i hi => ?_⟩
    rw [view, frame_after_of_ne hi]
    rfl

/-- A call that finds the flag up is refused. -/
theorem Busy.refused (hbusy : t.Busy r) (hne : r ≠ k) :
    (t.after k ((t.view k).goto (.done (some refusal)))).Busy r where
  running := by
    rw [frame_after_of_ne hne]
    exact hbusy.running
  control := by
    rw [view, frame_after_of_ne hne]
    exact hbusy.control
  leaving := by
    rw [frame_after_of_ne hne]
    exact hbusy.leaving
  still := still_after hbusy.still (.inr ⟨⟨_, rfl⟩, (hbusy.still k hne.symm).idle.2⟩)

/-- A call that is not running cannot do more to the one that is than cancel
it, unless it is let in. -/
theorem Busy.outcome_other (hbusy : t.Busy r) (h : t.Sound) (hne : r ≠ k)
    (hstep : t.step (.act k x) = some t') : Outcome t (.act k x) t' := by
  obtain ⟨hk, s, hs, rfl⟩ := step_act hstep
  have hr : r < t.count := by
    by_contra hle
    have hrunning := hbusy.running
    rw [h.uncalled r (Nat.le_of_not_lt hle)] at hrunning
    contradiction
  obtain ⟨rfl, hd, ⟨hspinning, rfl⟩ | ⟨hoff, rfl⟩⟩ | ⟨hx, hstill, hspinning, contextOk, hview⟩ :=
    Frame.Still.step (s := t.view k) (hbusy.still k hne.symm) hs
  · exact ⟨iff_of_true (hbusy.refuses hne hd) fun _ _ => hspinning,
      fun _ => ⟨fun _ => h.uncalled_after hk, .inr ⟨r, hbusy.refused hne⟩⟩⟩
  · -- the flag is down, and the call is let in beside the one that is running
    have hclean : ¬ t.Clean (.act k (.dispatcher .ok)) := fun hclean => by
      have hon := hclean hd ⟨r, hr, hbusy.running⟩
      rw [show t.shared.spinning = false from hoff] at hon
      contradiction
    refine ⟨iff_of_false (fun hkept => ?_) hclean, fun hc => absurd hc hclean⟩
    have hpc := (hkept.refuses k r rfl hd hbusy.running).1
    rw [frame_after_self] at hpc
    contradiction
  · have hsame : ∀ j, j ≠ r → ((t.after k s).frame j).Still := still_after hbusy.still hstill
    have hown : (t.after k s).frame r = t.frame r := frame_after_of_ne hne
    refine ⟨iff_of_true (.of_quiet hx fun j => ?_) (.of_quiet hx),
      fun _ => ⟨fun _ => h.uncalled_after hk, .inr ⟨r, ?_, ?_, ?_, hsame⟩⟩⟩
    · by_cases hj : j = r
      · rw [hj, hown]
      · exact (hsame j hj).idle.1.trans (hbusy.still j hj).idle.1.symm
    · rw [hown]
      exact hbusy.running
    · rw [view, hown, show (t.after k s).shared = s from rfl, hview]
      exact hbusy.control.same_region (.of_eq rfl) rfl rfl rfl
    · intro hleaving
      rw [hown] at hleaving
      obtain hsame | hoff := hspinning
      · exact hsame.trans (hbusy.leaving hleaving)
      · exact hoff

/-- The call inside has left its entry. -/
theorem Busy.ne_entry (hbusy : t.Busy k) : (t.frame k).dispatcher ≠ .entry := by
  intro hd
  have hrunning := hbusy.running
  rw [Frame.running, hd] at hrunning
  contradiction

/-- The only admitted call keeps what it owes if it leaves nothing behind. -/
theorem Busy.kept_self (hbusy : t.Busy k)
    (hs : Executor.step t.profiles (t.view k) x = some s)
    (hreturns : s.frame.running = false → (t.after k s).Quiet) :
    Kept t (.act k x) (t.after k s) where
  returns j hj hj' := by
    rw [hbusy.eq_of_running hj, frame_after_self] at hj'
    exact hreturns hj'
  admits j hj hd := absurd (by cases hj; exact hd) hbusy.ne_entry
  starts j hj hreset := by
    cases hj
    have hd : (t.view k).dispatcher = .reset := hreset
    simp only [Executor.step, dispatcherStep, hd, startStep] at hs
    cases hs
    rw [frame_after_self]
    exact ⟨rfl, rfl⟩
  refuses j _ hj hd := absurd (by cases hj; exact hd) hbusy.ne_entry

/-- Its own steps are clean, up to the creation of its worker. -/
theorem Busy.clean_self (hbusy : t.Busy k)
    (hx : x = .dispatcher .throws → (t.frame k).dispatcher = .spawn → t.shared.spinning = false) :
    t.Clean (.act k x) := by
  unfold Clean
  split
  · next heq =>
    cases heq
    exact hx rfl
  · next heq =>
    cases heq
    exact fun hd => absurd hd hbusy.ne_entry
  · trivial

/-- The only admitted call runs on. -/
theorem Busy.runs (hbusy : t.Busy k) (hs : Executor.step t.profiles (t.view k) x = some s)
    (hrunning : s.frame.running = true) : t.Clean (.act k x) ∧ (t.after k s).Busy k := by
  have hexits := step_exits hs hbusy.running
  refine ⟨hbusy.clean_self ?_, ?_⟩
  · rintro rfl hd
    have hd : (t.view k).dispatcher = .spawn := hd
    simp only [Executor.step, dispatcherStep, hd, startStep] at hs
    cases hs
    contradiction
  · constructor
    case running =>
        rw [frame_after_self]
        exact hrunning
    case control =>
        rw [view_after_self]
        exact step_control _ _ _ hbusy.control hs
    case leaving =>
        rw [frame_after_self]
        intro hleaving
        obtain hspinning | hbefore := hexits.leaving hleaving
        · exact hspinning
        · exact hexits.off (hbusy.leaving hbefore)
    case still =>
        intro j hj
        rw [frame_after_of_ne hj]
        exact hbusy.still j hj

/-- A call that has returned has taken its worker with it. -/
theorem Busy.returned (hbusy : t.Busy k) (hs : Executor.step t.profiles (t.view k) x = some s)
    (hrunning : s.frame.running ≠ true) : ∃ r, s.dispatcher = .done r ∧
      (s.spinning = false → (t.after k s).Rest) := by
  have hexits := step_exits hs hbusy.running
  have hcontrol := step_control _ _ _ hbusy.control hs
  obtain ⟨r, hr⟩ : ∃ r, s.dispatcher = .done r := by
    cases hd : s.dispatcher <;> simp [Frame.running, State.frame, hd] at hrunning ⊢
    exact hexits.entered hd
  have hbaton := hcontrol.baton
  rw [hr] at hbaton
  have hover : s.pending = none ∧ (s.worker = .absent ∨ s.worker = .exited) := by
    cases hw : s.worker <;>
      simp [hw, WorkerPc.region, DispatcherPc.region, Baton] at hbaton ⊢
    · exact hbaton
    · exact hbaton.1
  refine ⟨r, hr, fun hspinning => ⟨fun j => ?_, hspinning, hover.1⟩⟩
  by_cases hj : j = k
  · rw [hj, frame_after_self]
    exact .inr ⟨⟨r, hr⟩, hover.2⟩
  · rw [frame_after_of_ne hj]
    exact hbusy.still j hj

/-- A call that was admitted runs on, or has returned and left nothing behind. -/
theorem Busy.outcome_self (hbusy : t.Busy k) (h : t.Sound)
    (hstep : t.step (.act k x) = some t') : Outcome t (.act k x) t' := by
  obtain ⟨hk, s, hs, rfl⟩ := step_act hstep
  have hexits := step_exits hs hbusy.running
  by_cases hrunning : s.frame.running = true
  · obtain ⟨hclean, hnext⟩ := hbusy.runs hs hrunning
    refine ⟨iff_of_true (hbusy.kept_self hs fun hover => ?_) hclean,
      fun _ => ⟨fun _ => h.uncalled_after hk, .inr ⟨k, hnext⟩⟩⟩
    rw [hrunning] at hover
    contradiction
  · obtain ⟨r, hr, hrest⟩ := hbusy.returned hs hrunning
    have hall : t.shared.spinning = false → Outcome t (.act k x) (t.after k s) := by
      intro hspinning
      have hnext := hrest (hexits.off hspinning)
      exact ⟨iff_of_true (hbusy.kept_self hs fun _ => hnext.quiet)
        (hbusy.clean_self fun _ _ => hspinning),
        fun _ => ⟨fun _ => h.uncalled_after hk, .inl hnext⟩⟩
    obtain hjoin | ⟨hspawn, hx⟩ := hexits.done r hr
    · exact hall (hbusy.leaving (by rw [show (t.frame k).dispatcher = .join from hjoin]; rfl))
    · -- the thread could not be created
      cases hx
      cases hspinning : t.shared.spinning with
      | false => exact hall hspinning
      | true =>
          have hclean : ¬ t.Clean (.act k (.dispatcher .throws)) := fun hclean => by
            rw [hclean hspawn] at hspinning
            contradiction
          refine ⟨iff_of_false (fun hkept => ?_) hclean, fun hc => absurd hc hclean⟩
          have hover : ((t.after k s).frame k).running = false := by
            rw [frame_after_self]
            simpa using hrunning
          have hquiet := hkept.returns k hbusy.running hover
          simp only [Executor.step, dispatcherStep, hspawn, startStep] at hs
          cases hs
          rw [show t.shared.spinning = false from hquiet.spinning] at hspinning
          contradiction

end Busy

/-- A step keeps what a caller is promised exactly if it is clean. -/
theorem Sound.outcome (h : t.Sound) (hstep : t.step a = some t') : Outcome t a t' := by
  cases a with
  | spin =>
      cases hstep
      refine ⟨iff_of_true (.of_idle nofun fun _ => rfl) trivial,
        fun _ => ⟨fun k hk => h.uncalled k (Nat.le_of_succ_le hk), ?_⟩⟩
      exact h.alone.imp (fun hrest => ⟨hrest.1, hrest.2, hrest.3⟩)
        fun ⟨k, hbusy⟩ => ⟨k, hbusy.1, hbusy.2, hbusy.3, hbusy.4⟩
  | act k x =>
      obtain hrest | ⟨r, hbusy⟩ := h.alone
      · exact hrest.outcome h hstep
      · by_cases hr : r = k
        · subst hr
          exact hbusy.outcome_self h hstep
        · exact hbusy.outcome_other h hr hstep
  | register profiles =>
      obtain ⟨-, hs⟩ := Option.ite_none_left_eq_some.mp hstep
      cases hs
      refine ⟨iff_of_true (.of_idle nofun fun _ => rfl) trivial, fun _ => ⟨h.uncalled, ?_⟩⟩
      exact h.alone.imp (fun hrest => ⟨hrest.1, hrest.2, hrest.3⟩)
        fun ⟨k, hbusy⟩ => ⟨k, hbusy.1, hbusy.2, hbusy.3, hbusy.4⟩

/-- Before the first call all is at rest. -/
theorem sound_initial (contextOk : Bool) : Sound { shared := { contextOk := contextOk } } :=
  ⟨fun _ _ => rfl, .inl ⟨fun _ => .inl ⟨rfl, rfl⟩, rfl, rfl⟩⟩

end Calls

/-- **Restart**: every call of `spin` leaves the executor as the next one needs
it, and no call disturbs another, exactly if no thread creation fails while the
executor is spinning and no call is made when the one that runs is no longer. -/
theorem spin_restarts {contextOk : Bool} {actions : List CallsAction} {t : Calls}
    (h : Steps.exec Calls.step { shared := { contextOk := contextOk } } actions = some t) :
    Steps.Along Calls.step (fun t a => ∀ t', t.step a = some t' → Calls.Kept t a t')
        { shared := { contextOk := contextOk } } actions ↔
      Steps.Along Calls.step Calls.Clean { shared := { contextOk := contextOk } } actions := by
  refine Steps.Along.congr (fun t a t' hsound hstep => ?_) (Calls.sound_initial contextOk) h
  have houtcome := Calls.Sound.outcome hsound hstep
  have hkept : (∀ u, t.step a = some u → Calls.Kept t a u) ↔ Calls.Kept t a t' := by
    rw [hstep]
    exact ⟨fun hall => hall t' rfl, fun hkept u hu => Option.some.inj hu ▸ hkept⟩
  exact ⟨hkept.trans houtcome.kept_iff, fun hok =>
    houtcome.sound (houtcome.kept_iff.mp (hkept.mp hok))⟩

/-- A call up to its parked worker. -/
def CallsAction.starting (k : Nat) : List CallsAction :=
  let d : CallsAction := .act k (.dispatcher .ok)
  let w : CallsAction := .act k (.worker .ok)
  [.spin, d, d, d, w, .act k (.worker (.pidTgid 7)), w, w, d]

/-- From there on to its return. -/
def CallsAction.stopping (k : Nat) : List CallsAction :=
  let d : CallsAction := .act k (.dispatcher .ok)
  let w : CallsAction := .act k (.worker .ok)
  [.act k .cancel, d, d, d, d, w, d]

/-- A call during which another one is refused, and then a third. -/
def twice : List CallsAction :=
  CallsAction.starting 0 ++ [.spin, .act 1 (.dispatcher .ok)] ++ CallsAction.stopping 0 ++
    CallsAction.starting 2 ++ CallsAction.stopping 2

/-- Three calls: one that returns, one that is refused meanwhile, and one more. -/
theorem spin_restarts_twice :
    ∃ t, Steps.exec Calls.step {} twice = some t ∧
      (t.frame 0).dispatcher = .done none ∧ (t.frame 1).dispatcher = .done (some refusal) ∧
      (t.frame 2).dispatcher = .done none ∧
      Steps.Along Calls.step (fun t a => ∀ t', t.step a = some t' → Calls.Kept t a t') {}
        twice := by
  have hrun : ((Steps.exec Calls.step {} twice).any fun t =>
      (t.frame 0).dispatcher = .done none ∧ (t.frame 1).dispatcher = .done (some refusal) ∧
        (t.frame 2).dispatcher = .done none) = true ∧
      Steps.Along Calls.step Calls.Clean {} twice := by
    decide +kernel
  obtain ⟨t, ht, hfacts⟩ := (Option.any_eq_true ..).mp hrun.1
  obtain ⟨hfirst, hsecond, hthird⟩ := of_decide_eq_true hfacts
  exact ⟨t, ht, hfirst, hsecond, hthird, (spin_restarts ht).mpr hrun.2⟩

/-- The worker thread cannot be created, and `spin` is called again. -/
def threadless : List CallsAction :=
  [.spin, .act 0 (.dispatcher .ok), .act 0 (.dispatcher .ok), .act 0 (.dispatcher .throws),
    .spin, .act 1 (.dispatcher .ok)]

/-- A call is cancelled, and another thread calls `spin` before it has seen it. -/
def overlapping : List CallsAction :=
  CallsAction.starting 0 ++
    [.act 0 .cancel, .spin, .act 1 (.dispatcher .ok), .act 1 (.dispatcher .ok)]

/-- Without its thread, `spin` leaves the executor spinning for good; and a
second call may get in beside a cancelled one and take its worker's state away. -/
theorem spin_restarts_refuted :
    (∃ t, Steps.exec Calls.step {} threadless = some t ∧
      (t.frame 0).dispatcher = .done (some .external) ∧ t.shared.spinning = true ∧
      (t.frame 1).dispatcher = .done (some refusal)) ∧
    ∃ t, Steps.exec Calls.step {} overlapping = some t ∧
      (t.frame 0).dispatcher = .loopHead ∧ (t.frame 0).worker = .waiting ∧
      (t.frame 1).dispatcher = .spawn ∧ t.shared.workerId = 0 ∧ t.shared.workerReady = false := by
  have hrun : ((Steps.exec Calls.step {} threadless).any fun t =>
      (t.frame 0).dispatcher = .done (some .external) ∧ t.shared.spinning = true ∧
        (t.frame 1).dispatcher = .done (some refusal)) = true ∧
      ((Steps.exec Calls.step {} overlapping).any fun t =>
        (t.frame 0).dispatcher = .loopHead ∧ (t.frame 0).worker = .waiting ∧
          (t.frame 1).dispatcher = .spawn ∧ t.shared.workerId = 0 ∧
          t.shared.workerReady = false) = true := by
    decide +kernel
  obtain ⟨t, ht, hthreadless⟩ := (Option.any_eq_true ..).mp hrun.1
  obtain ⟨u, hu, hoverlapping⟩ := (Option.any_eq_true ..).mp hrun.2
  exact ⟨⟨t, ht, of_decide_eq_true hthreadless⟩, u, hu, of_decide_eq_true hoverlapping⟩

end ScxSlam.Executor
