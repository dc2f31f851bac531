import ScxSlam.Executor.Control

/-!
# ScxSlam.Executor.Wakeups

No wake-up is lost.  A thread asleep in `condition.wait` stays asleep until a
`notify_all` (or a spurious wake-up), so a flag that is raised while a thread
waits for it must be followed by a notification that has not happened yet.
`cancel` writes `spinning` without any notification; the dispatcher then
sleeps on until the worker parks or fails.
-/

namespace ScxSlam.Executor

/-! ## waiting and notifying -/

/-- The dispatcher is about to notify. -/
def DispatcherPc.announces : DispatcherPc → Bool
  | .notifyHandoff | .notifyStop => true
  | _ => false

/-- The worker is about to notify. -/
def WorkerPc.announces : WorkerPc → Bool
  | .notifyReady | .failNotify => true
  | _ => false

/-- Regions in which the worker has raised `worker_ready`. -/
def WorkerRegion.registered : WorkerRegion → Bool
  | .unparked | .waiting | .busy | .failed | .exited => true
  | .absent | .starting | .failing => false

/-- The dispatcher is in a wait, and nothing the worker raises has ended it.
The wait for an idle worker also ends when `spinning` is cleared, which nobody
notifies. -/
def State.dispatcherBlocked (s : State) : Prop :=
  match s.dispatcher with
  | .waitReady => s.workerReady = false
  | .waitIdle | .finalWait => s.workerIdle = false ∧ s.workerError = none
  | _ => False

/-- A thread sleeps only while what it waits for is missing or about to be
announced. -/
structure Wakeups (s : State) : Prop where
  dispatcher : s.dispatcherAsleep = true → s.dispatcherBlocked ∨
    (s.dispatcher = .waitReady ∨ s.dispatcher = .waitIdle ∨ s.dispatcher = .finalWait) ∧
      s.worker.announces = true
  worker : s.workerAsleep = true → s.worker = .waiting ∧
    (s.pending = none ∧ s.stop = false ∨ s.dispatcher.announces = true)
  ready : s.worker.region.registered = true → s.workerReady = true

/-- A state in which `spin` is called: the calling thread runs, and there is
no worker thread that could sleep. -/
structure Called (s : State) : Prop extends Init s where
  dispatcherAwake : s.dispatcherAsleep = false
  workerAwake : s.workerAsleep = false

theorem Called.wakeups {s : State} (h : Called s) : Wakeups s where
  dispatcher := by simp [h.dispatcherAwake]
  worker := by simp [h.workerAwake]
  ready := by
    rw [h.toInit.worker]
    nofun

/-! ## every step keeps it -/

section Steps

variable {profiles : GroupId → Option ProfileBinding} {s s' : State} {i : Input}

/-- The dispatcher sleeps in one of its three waits. -/
theorem Wakeups.asleep (h : Wakeups s) (ha : s.dispatcherAsleep = true) :
    s.dispatcher = .waitReady ∨ s.dispatcher = .waitIdle ∨ s.dispatcher = .finalWait := by
  obtain hb | ⟨hd, -⟩ := h.dispatcher ha
  · unfold State.dispatcherBlocked at hb
    split at hb
    case h_1 hd => exact .inl hd
    case h_2 hd => exact .inr (.inl hd)
    case h_3 hd => exact .inr (.inr hd)
    case h_4 => contradiction
  · exact hd

/-- A sleeping dispatcher takes no step. -/
theorem Wakeups.dispatcherAwake (h : Wakeups s) (hs : dispatcherStep profiles s i = some s') :
    s.dispatcherAsleep = false := by
  by_contra ha
  have ha : s.dispatcherAsleep = true := by simpa using ha
  obtain hd | hd | hd := h.asleep ha <;>
    simp [dispatcherStep, hd, waitReadyStep, waitIdleStep, finalWaitStep, ha] at hs

/-- A sleeping worker takes no step. -/
theorem Wakeups.workerAwake (h : Wakeups s) (hs : workerStep s i = some s') :
    s.workerAsleep = false := by
  by_contra ha
  have ha : s.workerAsleep = true := by simpa using ha
  simp [workerStep, (h.worker ha).1, ha] at hs

/-- Inside its turn the dispatcher wakes nobody and does not sleep. -/
theorem turn_sleep (hs : dispatcherStep profiles s i = some s')
    (ht : s.dispatcher.region = .turn) :
    s'.dispatcherAsleep = s.dispatcherAsleep ∧ s'.workerAsleep = s.workerAsleep := by
  cases hd : s.dispatcher <;> simp only [hd, DispatcherPc.region] at ht <;>
    simp only [dispatcherStep, hd] at hs <;> try contradiction
  case checkExpired w =>
      obtain ⟨-, rfl⟩ | ⟨b, now, -, rfl⟩ := dispatchCheckStep_cases hs
      · exact ⟨rfl, rfl⟩
      · exact ⟨rfl, rfl⟩
  case returnMessage w after =>
      split at hs <;> cases hs
      exact ⟨rfl, rfl⟩
  case releaseGroup w after =>
      split at hs <;> cases after <;> cases hs <;> exact ⟨rfl, rfl⟩
  case handoff w =>
      split at hs <;> cases hs
      exact ⟨rfl, rfl⟩
  all_goals
    cases i <;>
      simp only [getNextStep, bindStep, extractStep, createStep, takeStep, observeSelectedStep,
        dispatchDropStep, makeHintStep, publishStep] at hs
  all_goals repeat' split at hs
  all_goals cases hs
  all_goals exact ⟨rfl, rfl⟩

/-- While it is busy the worker wakes nobody and does not sleep. -/
theorem busy_sleep (hs : workerStep s i = some s') (hw : s.worker.region = .busy) :
    s'.dispatcherAsleep = s.dispatcherAsleep ∧ s'.workerAsleep = s.workerAsleep := by
  cases hp : s.worker <;> simp only [hp, WorkerPc.region] at hw <;>
    simp only [workerStep, hp] at hs <;> try contradiction
  case admission w =>
      obtain ⟨-, rfl⟩ | ⟨b, now, -, rfl⟩ := admissionStep_cases hs
      · exact ⟨rfl, rfl⟩
      · exact ⟨rfl, rfl⟩
  all_goals try cases i <;> simp only [workerDropStep, executingStep] at hs
  all_goals repeat' split at hs
  all_goals cases hs
  all_goals exact ⟨rfl, rfl⟩

/-- The dispatcher goes on without sleeping, and leaves the worker's wait as
it was, or is about to notify, or has notified. -/
theorem Wakeups.dispatched (h : Wakeups s) (ha : s'.dispatcherAsleep = false)
    (hw : s'.worker = s.worker) (hr : s'.workerReady = s.workerReady)
    (hn : s'.workerAsleep = false ∨ s'.dispatcher.announces = true ∧
        s'.workerAsleep = s.workerAsleep ∨
      s.dispatcher.announces = false ∧ s'.workerAsleep = s.workerAsleep ∧
        s'.pending = s.pending ∧ s'.stop = s.stop) : Wakeups s' := by
  refine ⟨by simp [ha], ?_, by rw [hw, hr]; exact h.ready⟩
  intro hsleep
  rw [hw]
  obtain hn | ⟨hn, hsame⟩ | ⟨hn, hsame, hp, hst⟩ := hn
  · simp [hn] at hsleep
  · exact ⟨(h.worker (hsame ▸ hsleep)).1, .inr hn⟩
  · obtain ⟨hwait, hflags | hflags⟩ := h.worker (hsame ▸ hsleep)
    · exact ⟨hwait, .inl ⟨hp.trans hflags.1, hst.trans hflags.2⟩⟩
    · simp [hn] at hflags

/-- The dispatcher falls asleep. -/
theorem Wakeups.slept (h : Wakeups s) (hb : s.dispatcherBlocked) :
    Wakeups { s with dispatcherAsleep := true } :=
  ⟨fun _ => .inl hb, h.worker, h.ready⟩

theorem waitReadyStep_wakeups (h : Wakeups s) (hd : s.dispatcher = .waitReady)
    (hs : waitReadyStep s = some s') : Wakeups s' := by
  simp only [waitReadyStep] at hs
  split at hs
  · contradiction
  · next ha =>
    have ha : s.dispatcherAsleep = false := by simpa using ha
    split at hs
    · split at hs <;> cases hs
      all_goals exact h.dispatched ha rfl rfl (.inr (.inr ⟨by rw [hd]; rfl, rfl, rfl, rfl⟩))
    · next hr =>
      cases hs
      exact h.slept (by simpa [State.dispatcherBlocked, hd] using hr)

theorem waitIdleStep_wakeups (h : Wakeups s) (hd : s.dispatcher = .waitIdle)
    (hs : waitIdleStep s = some s') : Wakeups s' := by
  simp only [waitIdleStep] at hs
  split at hs
  · contradiction
  · next ha =>
    have ha : s.dispatcherAsleep = false := by simpa using ha
    split at hs
    · split at hs <;> cases hs
      all_goals exact h.dispatched ha rfl rfl (.inr (.inr ⟨by rw [hd]; rfl, rfl, rfl, rfl⟩))
    · next hr =>
      cases hs
      simp only [not_or, Bool.not_eq_true, Option.isSome_eq_false_iff, Option.isNone_iff_eq_none]
        at hr
      exact h.slept (by simpa [State.dispatcherBlocked, hd] using ⟨hr.1, hr.2.1⟩)

theorem finalWaitStep_wakeups (h : Wakeups s) (hd : s.dispatcher = .finalWait)
    (hs : finalWaitStep s i = some s') : Wakeups s' := by
  simp only [finalWaitStep] at hs
  split at hs
  · contradiction
  · next ha =>
    have ha : s.dispatcherAsleep = false := by simpa using ha
    split at hs
    · repeat' split at hs
      all_goals cases hs
      all_goals exact h.dispatched ha rfl rfl (.inr (.inl ⟨rfl, rfl⟩))
    · next hr =>
      split at hs <;> cases hs
      simp only [not_or, Bool.not_eq_true, Option.isSome_eq_false_iff, Option.isNone_iff_eq_none]
        at hr
      exact h.slept (by simpa [State.dispatcherBlocked, hd] using hr)

theorem startStep_wakeups (hc : Control s) (h : Wakeups s) (ha : s.dispatcherAsleep = false)
    (hd : s.dispatcher = .entry ∨ s.dispatcher = .reset ∨ s.dispatcher = .spawn)
    (hs : startStep s i = some s') : Wakeups s' := by
  have hw : s.worker = .absent := by
    obtain hd | hd | hd := hd
    · exact (hc.absent (.inl (by rw [hd]; rfl))).1
    · exact (hc.absent (.inl (by rw [hd]; rfl))).1
    · exact (hc.absent (.inr (by rw [hd]; rfl))).1
  have hwa : s.workerAsleep = false := by
    by_contra hwa
    have := (h.worker (by simpa using hwa)).1
    rw [hw] at this
    contradiction
  have hsleep : s'.dispatcherAsleep = false ∧ s'.workerAsleep = false ∧
      s'.worker.region.registered = false := by
    cases i <;> simp only [startStep] at hs
    case ok | throws =>
        obtain hd | hd | hd := hd <;> simp only [hd] at hs <;> try split at hs
        all_goals cases hs
        all_goals simp [ha, hwa, hw, WorkerPc.region, WorkerRegion.registered]
    all_goals contradiction
  exact ⟨by simp [hsleep.1], by simp [hsleep.2.1], by simp [hsleep.2.2]⟩

theorem dispatcher_wakeups (hc : Control s) (h : Wakeups s)
    (hs : dispatcherStep profiles s i = some s') : Wakeups s' := by
  have ha := h.dispatcherAwake hs
  by_cases ht : s.dispatcher.region = .turn
  · obtain ⟨hda, hwa⟩ := turn_sleep hs ht
    have hquiet : s.dispatcher.announces = false := by
      cases hd : s.dispatcher <;> simp_all [DispatcherPc.region, DispatcherPc.announces]
    by_cases hh : ∃ w, s.dispatcher = .handoff w
    · obtain ⟨w, hd⟩ := hh
      simp only [dispatcherStep, hd] at hs
      split at hs <;> cases hs
      exact h.dispatched ha rfl rfl (.inr (.inl ⟨rfl, rfl⟩))
    · obtain ⟨hf, hw, -⟩ := turn_step hs ht (by simpa using hh)
      exact h.dispatched (hda.trans ha) hw hf.ready (.inr (.inr ⟨hquiet, hwa, hf.pending, hf.stop⟩))
  · cases hd : s.dispatcher <;> simp only [hd, DispatcherPc.region, not_true_eq_false] at ht <;>
      simp only [dispatcherStep, hd] at hs
    case entry => exact startStep_wakeups hc h ha (.inl hd) hs
    case reset => exact startStep_wakeups hc h ha (.inr (.inl hd)) hs
    case spawn => exact startStep_wakeups hc h ha (.inr (.inr hd)) hs
    case waitReady =>
        split at hs
        · exact waitReadyStep_wakeups h hd hs
        · contradiction
    case waitIdle =>
        split at hs
        · exact waitIdleStep_wakeups h hd hs
        · contradiction
    case finalWait => exact finalWaitStep_wakeups h hd hs
    case done => contradiction
    case notifyHandoff | notifyStop =>
        split at hs <;> cases hs
        exact h.dispatched rfl rfl rfl (.inl rfl)
    case loopHead | stopSpinning | join =>
        split at hs <;> cases hs
        exact h.dispatched ha rfl rfl (.inr (.inr ⟨by rw [hd]; rfl, rfl, rfl, rfl⟩))

/-! ### the worker -/

/-- The worker goes on without sleeping; it leaves the flags the dispatcher
waits for as they are, or is about to notify, or has notified. -/
theorem Wakeups.worked (h : Wakeups s) (ha : s'.workerAsleep = false)
    (hd : s'.dispatcher = s.dispatcher)
    (hr : s'.worker.region.registered = true → s'.workerReady = true)
    (hn : s'.dispatcherAsleep = false ∨ s'.worker.announces = true ∧
        s'.dispatcherAsleep = s.dispatcherAsleep ∨
      s.worker.announces = false ∧ s'.dispatcherAsleep = s.dispatcherAsleep ∧
        s'.workerReady = s.workerReady ∧ s'.workerIdle = s.workerIdle ∧
        s'.workerError = s.workerError) : Wakeups s' := by
  refine ⟨?_, by simp [ha], hr⟩
  intro hsleep
  obtain hn | ⟨hn, hsame⟩ | ⟨hn, hsame, h1, h2, h3⟩ := hn
  · simp [hn] at hsleep
  · rw [hd]
    exact .inr ⟨h.asleep (hsame ▸ hsleep), hn⟩
  · obtain hb | ⟨-, hb⟩ := h.dispatcher (hsame ▸ hsleep)
    · left
      simpa only [State.dispatcherBlocked, hd, h1, h2, h3] using hb
    · simp [hn] at hb

/-- The body of the worker's wait. -/
theorem workerWait_wakeups (h : Wakeups s) (hr : s.workerReady = true)
    (ha : s.workerAsleep = false) (hn : s.worker.announces = false) : Wakeups (workerWait s) := by
  unfold workerWait
  split
  · next w hp =>
    refine h.worked ha rfl (fun _ => hr) (.inr (.inr ⟨hn, rfl, rfl, rfl, rfl⟩))
  · next hp =>
    split
    · exact h.worked ha rfl (fun _ => hr) (.inr (.inr ⟨hn, rfl, rfl, rfl, rfl⟩))
    · next hst =>
      refine ⟨?_, fun _ => ⟨rfl, .inl ⟨hp, by simpa using hst⟩⟩, fun _ => hr⟩
      intro hsleep
      obtain hb | ⟨-, hb⟩ := h.dispatcher hsleep
      · exact .inl hb
      · simp [hn] at hb

theorem worker_wakeups (h : Wakeups s) (hs : workerStep s i = some s') : Wakeups s' := by
  have ha := h.workerAwake hs
  by_cases hw : s.worker.region = .busy
  · obtain ⟨⟨-, hr, hi, -, he⟩, ⟨hd, -⟩, -⟩ := busy_step hs hw
    obtain ⟨hda, hwa⟩ := busy_sleep hs hw
    have hquiet : s.worker.announces = false := by
      cases hp : s.worker <;> simp_all [WorkerPc.region, WorkerPc.announces]
    have hready : s.workerReady = true := h.ready (by rw [hw]; rfl)
    exact h.worked (hwa.trans ha) hd (fun _ => hr.trans hready)
      (.inr (.inr ⟨hquiet, hda, hr, hi, he⟩))
  · cases hp : s.worker <;> simp only [hp, WorkerPc.region, not_true_eq_false] at hw <;>
      simp only [workerStep, hp] at hs
    case absent | exited => contradiction
    case configuring =>
        split at hs <;> cases hs
        all_goals refine h.worked ha rfl ?_ (.inr (.inr ⟨by rw [hp]; rfl, rfl, rfl, rfl, rfl⟩))
        all_goals simp [WorkerPc.region, WorkerRegion.registered]
    case register =>
        split at hs <;> cases hs
        exact h.worked ha rfl (fun _ => rfl) (.inr (.inl ⟨rfl, rfl⟩))
    case notifyReady =>
        split at hs <;> cases hs
        exact h.worked rfl rfl (fun _ => h.ready (by rw [hp]; rfl)) (.inl rfl)
    case park =>
        split at hs <;> cases hs
        have hready : s.workerReady = true := h.ready (by rw [hp]; rfl)
        refine workerWait_wakeups (s := { s with workerIdle := true }.notifyAll) ?_ hready rfl
          (by simp [hp, WorkerPc.announces])
        exact ⟨by simp, by simp, fun _ => hready⟩
    case waiting =>
        split at hs <;> cases hs
        exact workerWait_wakeups h (h.ready (by rw [hp]; rfl)) ha (by rw [hp]; rfl)
    case failing =>
        split at hs <;> cases hs
        exact h.worked ha rfl (fun _ => rfl) (.inr (.inl ⟨rfl, rfl⟩))
    case failNotify =>
        split at hs <;> cases hs
        exact h.worked rfl rfl (fun _ => h.ready (by rw [hp]; rfl)) (.inl rfl)
    case failCancel =>
        split at hs <;> cases hs
        exact h.worked ha rfl (fun _ => h.ready (by rw [hp]; rfl))
          (.inr (.inr ⟨by rw [hp]; rfl, rfl, rfl, rfl, rfl⟩))

/-- Every step of every interleaving keeps `Wakeups`. -/
theorem step_wakeups : Steps.Preserved (step profiles) fun s => Control s ∧ Wakeups s := by
  rintro s a s' ⟨hc, h⟩ hs
  refine ⟨step_control s a s' hc hs, ?_⟩
  cases a with
  | dispatcher i => exact dispatcher_wakeups hc h hs
  | worker i => exact worker_wakeups h hs
  | cancel | shutdown =>
      cases hs
      exact ⟨h.dispatcher, h.worker, h.ready⟩
  | wake t =>
      cases t <;> cases hs
      · exact ⟨nofun, h.worker, h.ready⟩
      · exact ⟨h.dispatcher, nofun, h.ready⟩

/-! ## nothing is stuck -/

/-- The states of all interleavings of one call of `spin`, its calling thread
awake at the start. -/
def Spun (profiles : GroupId → Option ProfileBinding) (s : State) : Prop :=
  ∃ s₀ as, Called s₀ ∧ Steps.exec (step profiles) s₀ as = some s

theorem Spun.invariants (h : Spun profiles s) : Control s ∧ Wakeups s := by
  obtain ⟨s₀, as, h₀, hrun⟩ := h
  exact step_wakeups.exec ⟨h₀.toInit.control, h₀.wakeups⟩ hrun

/-- The two threads never sleep at once. -/
theorem Wakeups.notBoth (h : Wakeups s) (hc : Control s) :
    ¬(s.dispatcherAsleep = true ∧ s.workerAsleep = true) := by
  rintro ⟨hda, hwa⟩
  obtain ⟨hw, hflags⟩ := h.worker hwa
  have hquiet : s.dispatcher.announces = false := by
    obtain hd | hd | hd := h.asleep hda <;> simp [hd, DispatcherPc.announces]
  obtain ⟨hp, hst⟩ | hflags := hflags
  · have hready : s.workerReady = true := h.ready (by rw [hw]; rfl)
    have hidle : s.workerIdle = true := by
      have hb := hc.baton
      rw [hw] at hb
      obtain ⟨-, ⟨-, hi, -⟩ | ⟨hp', -⟩⟩ := hb
      · exact hi
      · simp [hp] at hp'
    obtain hb | ⟨-, hb⟩ := h.dispatcher hda
    · obtain hd | hd | hd := h.asleep hda <;>
        simp [State.dispatcherBlocked, hd, hready, hidle] at hb
    · rw [hw] at hb
      contradiction
  · simp [hquiet] at hflags

/-- A thread the dispatcher joins does not sleep. -/
theorem Wakeups.joining (h : Wakeups s) (hc : Control s) (hd : s.dispatcher = .join) :
    s.workerAsleep = false := by
  by_contra hwa
  obtain ⟨hw, hflags⟩ := h.worker (by simpa using hwa)
  have hb := hc.baton
  rw [hw, hd] at hb
  obtain ⟨-, ⟨-, -, hb⟩ | ⟨-, -, -, hb⟩⟩ := hb
  · obtain ⟨-, hst⟩ | hflags := hflags
    · obtain ⟨-, hb⟩ | ⟨-, hb⟩ := hb
      · simp [hst] at hb
      · simp [DispatcherPc.region] at hb
    · rw [hd] at hflags
      contradiction
  · simp [DispatcherPc.region] at hb

/-- A dispatcher that is awake can go on as soon as the opaque call it is in
returns, except where it joins. -/
theorem dispatcher_enabled (ha : s.dispatcherAsleep = false) (hj : s.dispatcher ≠ .join)
    (hd : ∀ r, s.dispatcher ≠ .done r) : ∃ i, (dispatcherStep profiles s i).isSome = true := by
  cases hpc : s.dispatcher with
  | checkExpired w =>
      by_cases hr : w.rejectExpired = true
      · exact ⟨.now s.clock, by
          simp [dispatcherStep, hpc, dispatchCheckStep, checkExpiry, hr]⟩
      · exact ⟨.ok, by simp [dispatcherStep, hpc, dispatchCheckStep, checkExpiry, hr]⟩
  | makeHint w b => exact ⟨.now s.clock, by simp [dispatcherStep, hpc, makeHintStep]⟩
  | getNext => exact ⟨.nothing, by simp [dispatcherStep, hpc, getNextStep]⟩
  | extract w b =>
      refine ⟨.metadata ⟨0, 0⟩, ?_⟩
      simp [dispatcherStep, hpc, extractStep]
  | join => exact absurd hpc hj
  | done r => exact absurd hpc (hd r)
  | waitReady =>
      refine ⟨.ok, ?_⟩
      simp only [dispatcherStep, hpc, waitReadyStep, ha]
      repeat' split
      all_goals first | rfl | contradiction
  | waitIdle =>
      refine ⟨.ok, ?_⟩
      simp only [dispatcherStep, hpc, waitIdleStep, ha]
      repeat' split
      all_goals first | rfl | contradiction
  | finalWait =>
      refine ⟨.ok, ?_⟩
      simp only [dispatcherStep, hpc, finalWaitStep, ha]
      repeat' split
      all_goals first | rfl | contradiction
  | entry =>
      refine ⟨.ok, ?_⟩
      simp only [dispatcherStep, hpc, startStep]
      split <;> rfl
  | bind e =>
      refine ⟨.ok, ?_⟩
      simp only [dispatcherStep, hpc, bindStep]
      repeat' split
      all_goals rfl
  | releaseGroup w after =>
      refine ⟨.ok, ?_⟩
      simp only [dispatcherStep, hpc, if_true]
      cases after <;> rfl
  | _ =>
      exact ⟨.ok, by simp [dispatcherStep, hpc, startStep, createStep, takeStep,
        observeSelectedStep, dispatchDropStep, publishStep]⟩

/-- A worker that exists and is awake can go on. -/
theorem worker_enabled (ha : s.workerAsleep = false) (hw : s.worker ≠ .absent)
    (hx : s.worker ≠ .exited) : ∃ i, (workerStep s i).isSome = true := by
  cases hpc : s.worker with
  | absent => exact absurd hpc hw
  | exited => exact absurd hpc hx
  | register => exact ⟨.pidTgid 0, by simp [workerStep, hpc]⟩
  | admission w =>
      by_cases hr : w.rejectExpired = true
      · exact ⟨.now s.clock, by simp [workerStep, hpc, admissionStep, checkExpiry, hr]⟩
      · exact ⟨.ok, by simp [workerStep, hpc, admissionStep, checkExpiry, hr]⟩
  | executing w => exact ⟨.executed true, by simp [workerStep, hpc, executingStep]⟩
  | _ => exact ⟨.ok, by simp [workerStep, hpc, workerDropStep, ha]⟩

/-- One of the two threads can go on until `spin` has returned. -/
theorem Wakeups.progress (h : Wakeups s) (hc : Control s) (hd : ∀ r, s.dispatcher ≠ .done r) :
    (∃ i, (dispatcherStep profiles s i).isSome = true) ∨
      ∃ i, (workerStep s i).isSome = true := by
  by_cases hj : s.dispatcher = .join
  · by_cases hx : s.worker = .exited
    · exact .inl ⟨.ok, by simp [dispatcherStep, hj, hx]⟩
    · refine .inr (worker_enabled (h.joining hc hj) ?_ hx)
      intro hw
      have hb := hc.baton
      rw [hj, hw] at hb
      simp [WorkerPc.region, DispatcherPc.region, Baton] at hb
  · by_cases ha : s.dispatcherAsleep = true
    · right
      have hboth := h.notBoth hc
      have hwaits := h.asleep ha
      have hb := hc.baton
      refine worker_enabled (by simpa [ha] using hboth) ?_ ?_
      · intro hw
        rw [hw] at hb
        obtain hd | hd | hd := hwaits <;>
          simp [hd, WorkerPc.region, DispatcherPc.region, Baton] at hb
      · intro hw
        have hready : s.workerReady = true := h.ready (by rw [hw]; rfl)
        rw [hw] at hb
        obtain hblock | ⟨-, hann⟩ := h.dispatcher ha
        · obtain hd | hd | hd := hwaits <;>
            simp [State.dispatcherBlocked, hd, hready, hb.2.1] at hblock
        · rw [hw] at hann
          contradiction
    · exact .inl (dispatcher_enabled (by simpa using ha) hj hd)

/-- What no interleaving of `spin` gets into. -/
structure NeverStuck (profiles : GroupId → Option ProfileBinding) (s : State) : Prop where
  waits : ¬(s.dispatcherAsleep = true ∧ s.workerAsleep = true)
  join : ¬(s.dispatcher = .join ∧ s.workerAsleep = true)
  /-- A raised `worker_ready` is still to be announced to a dispatcher that sleeps for it. -/
  ready : s.dispatcherAsleep = true → s.dispatcher = .waitReady → s.workerReady = true →
    s.worker.announces = true
  /-- So are `worker_idle` and `worker_error`. -/
  idle : s.dispatcherAsleep = true → s.dispatcher ≠ .waitReady →
    s.workerIdle = true ∨ s.workerError.isSome = true → s.worker.announces = true
  /-- So are `pending` and `stop` to a worker that sleeps for them. -/
  handed : s.workerAsleep = true → s.pending.isSome = true ∨ s.stop = true →
    s.dispatcher.announces = true
  progress : (∀ r, s.dispatcher ≠ .done r) →
    (∃ i, (dispatcherStep profiles s i).isSome = true) ∨ ∃ i, (workerStep s i).isSome = true

/-- **No stuck state**: whenever `cancel` is called, no wake-up is lost. -/
theorem spin_never_stuck (h : Spun profiles s) : NeverStuck profiles s := by
  obtain ⟨hc, hw⟩ := h.invariants
  constructor
  case waits => exact hw.notBoth hc
  case join =>
      rintro ⟨hd, hwa⟩
      simp [hw.joining hc hd] at hwa
  case ready =>
      intro ha hd hr
      obtain hb | hb := hw.dispatcher ha
      · simp [State.dispatcherBlocked, hd, hr] at hb
      · exact hb.2
  case idle =>
      intro ha hd hi
      obtain hb | hb := hw.dispatcher ha
      · obtain hd' | hd' | hd' := hw.asleep ha
        · exact absurd hd' hd
        all_goals
          simp only [State.dispatcherBlocked, hd'] at hb
          simp [hb.1, hb.2] at hi
      · exact hb.2
  case handed =>
      intro ha hf
      obtain ⟨hp, hst⟩ | hann := (hw.worker ha).2
      · simp [hp, hst] at hf
      · exact hann
  case progress => exact hw.progress hc

/-- `cancel` comes while the dispatcher sleeps for a busy worker, and no
notification follows it. -/
def cancelledAsleep : List Action :=
  [.dispatcher .ok, .dispatcher .ok, .dispatcher .ok, .worker .ok, .worker (.pidTgid 7),
    .dispatcher .ok, .dispatcher .ok, .dispatcher .ok, .cancel]

theorem spin_never_stuck_cancelled :
    ∃ s, Steps.exec (step fun _ => none) {} cancelledAsleep = some s ∧
      s.dispatcherAsleep = true ∧ s.spinning = false ∧ NeverStuck (fun _ => none) s :=
  ⟨_, rfl, rfl, rfl,
    spin_never_stuck ⟨{}, cancelledAsleep, ⟨⟨rfl, rfl, rfl, rfl, rfl⟩, rfl, rfl⟩, rfl⟩⟩

end Steps

end ScxSlam.Executor
