import ScxSlam.Executor.Wakeups
import ScxSlam.Lib.Fair

/-!
# ScxSlam.Executor.Fairness

A call of `spin` that is told to stop returns in every fair run.

Once `spinning` is cleared or the context is shut down, the dispatcher goes
through at most one more turn of its loop, and the worker through at most one
more callback.  The thread that helps is the worker, where it can go on, and
else the dispatcher, which then waits for nothing: a flag that it sleeps for is
raised by a worker that still runs.
-/

namespace ScxSlam.Executor

/-! ## what is left to do -/

/-- The dispatcher's steps to its return, once it is to stop. -/
def DispatcherPc.left : DispatcherPc → Nat
  | .entry => 20
  | .reset => 19
  | .spawn => 18
  | .waitReady => 17
  | .waitIdle => 16
  | .getNext => 15
  | .bind _ => 14
  | .createMessage .. => 13
  | .take .. => 12
  | .extract .. => 11
  | .observeSelected _ => 10
  | .checkExpired _ | .makeHint .. => 9
  | .publish _ | .dropObserve _ => 8
  | .returnMessage .. | .handoff _ => 7
  | .releaseGroup .. | .notifyHandoff => 6
  | .loopHead => 5
  | .stopSpinning => 4
  | .finalWait => 3
  | .notifyStop => 2
  | .join => 1
  | .done _ => 0

/-- The worker's steps to its wait or its end. -/
def WorkerPc.left : WorkerPc → Nat
  | .admission _ => 13
  | .enterHandler _ => 12
  | .handling _ => 11
  | .handlerReturn .. | .executeAny _ => 10
  | .handlerRelease .. | .executing _ | .dropObserve _ => 9
  | .dropReturn _ | .catchReturn _ | .configuring => 8
  | .dropRelease _ | .catchRelease _ | .register => 7
  | .destroy _ | .catchClear _ | .notifyReady => 6
  | .catchFlag _ | .park => 5
  | .unwind _ | .waiting => 4
  | .failing => 3
  | .failNotify => 2
  | .failCancel => 1
  | .exited | .absent => 0

namespace State

/-- Work that was handed over is still to be done. -/
def workerLeft (s : State) : Nat :=
  if s.worker = .waiting ∧ s.pending.isSome = true then 14 else s.worker.left

/-- The worker can go on, and has something to do. -/
def workerDue (s : State) : Bool :=
  match s.worker with
  | .absent | .exited => false
  | .waiting => !s.workerAsleep && (s.pending.isSome || s.stop)
  | _ => true

/-- The steps to the return; a worker that gets something to do counts as one. -/
def left (s : State) : Nat :=
  2 * (16 * s.dispatcher.left + s.workerLeft) + (!s.workerDue).toNat

/-- `spin` is to stop, and no longer about to start. -/
def Ending (s : State) : Prop :=
  s.contextOk = false ∨ s.spinning = false ∧ s.dispatcher ≠ .entry

end State

section Steps

variable {profiles : GroupId → Option ProfileBinding} {s s' : State} {i : Input}

theorem WorkerPc.left_le (pc : WorkerPc) : pc.left ≤ 13 := by
  cases pc <;> simp [WorkerPc.left]

theorem workerLeft_le (s : State) : s.workerLeft ≤ 14 := by
  have hle := s.worker.left_le
  unfold State.workerLeft
  split <;> omega

/-- The dispatcher comes nearer to its return. -/
theorem left_of_dispatcher (h : s'.dispatcher.left < s.dispatcher.left) : s'.left < s.left := by
  have hle := workerLeft_le s'
  have hflag := Bool.toNat_le (!s'.workerDue)
  unfold State.left
  omega

/-- So does the worker, to its own. -/
theorem left_of_worker (hd : s'.dispatcher = s.dispatcher) (h : s'.workerLeft < s.workerLeft) :
    s'.left < s.left := by
  have hflag := Bool.toNat_le (!s'.workerDue)
  unfold State.left
  rw [hd]
  omega

/-! ## the dispatcher -/

/-- A step of the dispatcher's, as long as it is to stop: it comes nearer to its
return, or sleeps for a flag that is not raised. -/
theorem dispatcher_moves (hend : s.Ending) (hs : dispatcherStep profiles s i = some s') :
    s'.dispatcher.left < s.dispatcher.left ∧ s'.Ending ∨
      s.dispatcherBlocked ∧ s' = { s with dispatcherAsleep := true } := by
  have hmoves : ∀ {pc : DispatcherPc} {s₁ : State}, s₁.dispatcher = pc →
      s₁.contextOk = s.contextOk →
      s₁.spinning = s.spinning → s.dispatcher ≠ .entry → pc ≠ .entry →
      pc.left < s.dispatcher.left → s₁.dispatcher.left < s.dispatcher.left ∧ s₁.Ending := by
    intro pc s₁ hd hcontext hspinning hentry hpc hlt
    refine ⟨hd ▸ hlt, ?_⟩
    obtain hdown | ⟨hspun, -⟩ := hend
    · exact .inl (hcontext.trans hdown)
    · exact .inr ⟨hspinning.trans hspun, hd ▸ hpc⟩
  cases hd : s.dispatcher <;> simp only [dispatcherStep, hd] at hs
  case entry =>
      have hdown : s.contextOk = false := hend.resolve_right fun h => h.2 hd
      left
      cases i <;> simp only [startStep, hd] at hs <;> try contradiction
      split at hs <;> cases hs <;> exact ⟨by simp [DispatcherPc.left], .inl hdown⟩
  case reset =>
      left
      rw [hd] at hmoves
      cases i <;> simp only [startStep, hd] at hs <;> cases hs
      exact hmoves rfl rfl rfl (by simp) (by simp) (by simp [DispatcherPc.left])
  case spawn =>
      left
      rw [hd] at hmoves
      cases i <;> simp only [startStep, hd] at hs <;> cases hs <;>
        exact hmoves rfl rfl rfl (by simp) (by simp) (by simp [DispatcherPc.left])
  case loopHead =>
      left
      rw [hd] at hmoves
      have hleave : ¬(s.contextOk = true ∧ s.spinning = true) := by
        rintro ⟨hcontext, hspinning⟩
        obtain hdown | ⟨hspun, -⟩ := hend
        · rw [hcontext] at hdown
          cases hdown
        · rw [hspinning] at hspun
          cases hspun
      rw [if_neg hleave] at hs
      split at hs <;> cases hs
      exact hmoves rfl rfl rfl (by simp) (by simp) (by simp [DispatcherPc.left])
  case waitReady =>
      rw [hd] at hmoves
      simp only [waitReadyStep] at hs
      split at hs <;> try contradiction
      split at hs <;> try contradiction
      split at hs
      · left
        split at hs <;> cases hs <;>
          exact hmoves rfl rfl rfl (by simp) (by simp) (by simp [DispatcherPc.left])
      · next hnot =>
        cases hs
        exact .inr ⟨by simpa [State.dispatcherBlocked, hd] using hnot, by rw [hd]⟩
  case waitIdle =>
      rw [hd] at hmoves
      simp only [waitIdleStep] at hs
      split at hs <;> try contradiction
      split at hs <;> try contradiction
      split at hs
      · left
        split at hs <;> cases hs
        · exact hmoves rfl rfl rfl (by simp) (by simp) (by simp [DispatcherPc.left])
        · refine hmoves rfl rfl rfl (by simp) ?_ ?_ <;> split <;> simp [DispatcherPc.left]
      · next hnot =>
        cases hs
        simp only [not_or, Bool.not_eq_true, Option.isSome_eq_false_iff, Option.isNone_iff_eq_none]
          at hnot
        exact .inr ⟨by simpa [State.dispatcherBlocked, hd] using ⟨hnot.1, hnot.2.1⟩, by rw [hd]⟩
  case finalWait =>
      rw [hd] at hmoves
      simp only [finalWaitStep] at hs
      split at hs <;> try contradiction
      split at hs
      · left
        repeat' split at hs
        all_goals cases hs
        all_goals exact hmoves rfl rfl rfl (by simp) (by simp) (by simp [DispatcherPc.left])
      · next hnot =>
        split at hs <;> cases hs
        simp only [not_or, Bool.not_eq_true, Option.isSome_eq_false_iff, Option.isNone_iff_eq_none]
          at hnot
        exact .inr ⟨by simpa [State.dispatcherBlocked, hd] using hnot, by rw [hd]⟩
  case stopSpinning =>
      left
      split at hs <;> cases hs
      exact ⟨by simp [DispatcherPc.left], .inr ⟨rfl, by simp⟩⟩
  case done => contradiction
  case handoff w =>
      left
      rw [hd] at hmoves
      split at hs <;> cases hs
      exact hmoves rfl rfl rfl (by simp) (by simp [handoffStep])
        (by simp [handoffStep, DispatcherPc.left])
  case checkExpired w =>
      left
      rw [hd] at hmoves
      obtain ⟨-, rfl⟩ | ⟨b, now, -, rfl⟩ := dispatchCheckStep_cases hs
      · exact hmoves rfl rfl rfl (by simp) (by simp) (by simp [DispatcherPc.left])
      · refine hmoves rfl rfl rfl (by simp) ?_ ?_ <;> cases b <;> simp [DispatcherPc.left]
  case releaseGroup w after =>
      left
      rw [hd] at hmoves
      split at hs <;> cases after <;> cases hs
      · exact hmoves rfl rfl rfl (by simp) (by simp) (by simp [DispatcherPc.left])
      · exact hmoves rfl rfl rfl (by simp) (by simp) (by simp [DispatcherPc.left])
  case returnMessage | notifyHandoff | notifyStop | join =>
      left
      rw [hd] at hmoves
      split at hs <;> cases hs
      exact hmoves rfl rfl rfl (by simp) (by simp) (by simp [DispatcherPc.left])
  all_goals
    left
    rw [hd] at hmoves
    cases i <;>
      simp only [getNextStep, bindStep, extractStep, createStep, takeStep, observeSelectedStep,
        dispatchDropStep, makeHintStep, publishStep] at hs
  all_goals repeat' split at hs
  all_goals cases hs
  all_goals
    refine hmoves rfl rfl rfl (by simp) ?_ ?_
  all_goals simp [DispatcherPc.left]

/-- A wait the dispatcher is held in is one for a worker that has something to do. -/
theorem blocked_due (hc : Control s) (hw : Wakeups s) (hb : s.dispatcherBlocked) :
    s.workerDue = true := by
  have hwaits : s.dispatcher = .waitReady ∧ s.workerReady = false ∨
      (s.dispatcher = .waitIdle ∨ s.dispatcher = .finalWait) ∧ s.workerIdle = false := by
    unfold State.dispatcherBlocked at hb
    split at hb
    case h_1 hd => exact .inl ⟨hd, hb⟩
    case h_2 hd => exact .inr ⟨.inl hd, hb.1⟩
    case h_3 hd => exact .inr ⟨.inr hd, hb.1⟩
    case h_4 => contradiction
  have hbaton := hc.baton
  cases hpc : s.worker with
  | absent =>
      rw [hpc] at hbaton
      obtain ⟨hd, -⟩ | ⟨hd | hd, -⟩ := hwaits <;>
        simp [hd, WorkerPc.region, DispatcherPc.region, Baton] at hbaton
  | exited =>
      have hready := hw.ready (by rw [hpc]; rfl)
      rw [hpc] at hbaton
      obtain ⟨-, hr⟩ | ⟨-, hi⟩ := hwaits
      · rw [hready] at hr
        contradiction
      · rw [hbaton.2.1] at hi
        contradiction
  | waiting =>
      have hready := hw.ready (by rw [hpc]; rfl)
      rw [hpc] at hbaton
      obtain ⟨-, hr⟩ | ⟨hd, hi⟩ := hwaits
      · rw [hready] at hr
        contradiction
      obtain ⟨-, ⟨-, hidle, -⟩ | ⟨hpending, -, hstop, -⟩⟩ := hbaton
      · rw [hidle] at hi
        contradiction
      -- the work was announced before the dispatcher came here, so the worker is awake
      have hawake : s.workerAsleep = false := by
        by_contra hasleep
        obtain ⟨-, ⟨hnone, -⟩ | hann⟩ := hw.worker (by simpa using hasleep)
        · simp [hnone] at hpending
        · obtain hd | hd := hd <;> simp [hd, DispatcherPc.announces] at hann
      simp [State.workerDue, hpc, hawake, hpending]
  | _ => simp [State.workerDue, hpc]

/-! ## the worker -/

/-- A step of the worker's: it comes nearer to its wait or its end, or it had
nothing to do and sleeps. -/
theorem worker_moves (hc : Control s) (hs : workerStep s i = some s') :
    s'.dispatcher = s.dispatcher ∧ s'.contextOk = s.contextOk ∧
      (s.spinning = false → s'.spinning = false) ∧
      (s'.workerLeft < s.workerLeft ∨
        s.worker = .waiting ∧ s.pending = none ∧ s.stop = false ∧
          s' = { s with workerAsleep := true }) := by
  have hleft : ∀ {t : State}, t.worker ≠ .waiting → t.workerLeft = t.worker.left := by
    intro t ht
    simp [State.workerLeft, ht]
  by_cases hwaits : s.worker = .waiting ∨ s.worker = .park
  · obtain hpc | hpc := hwaits <;> simp only [workerStep, hpc] at hs <;> split at hs <;> cases hs
    · next hawake =>
      obtain ⟨-, hawake⟩ := hawake
      obtain hp | ⟨w, hp⟩ := Option.eq_none_or_eq_some s.pending
      · by_cases hst : s.stop = true
        · have hleaves : workerWait s = s.workerGoto .exited := by simp [workerWait, hp, hst]
          rw [hleaves]
          refine ⟨rfl, rfl, id, .inl ?_⟩
          rw [hleft (by simp)]
          simp [State.workerLeft, hpc, hp, WorkerPc.left]
        · have hst : s.stop = false := by simpa using hst
          have hsleeps : workerWait s = { s with workerAsleep := true } := by
            simp [workerWait, hpc, hp, hst]
          rw [hsleeps]
          exact ⟨rfl, rfl, id, .inr ⟨hpc, hp, hst, rfl⟩⟩
      · have htakes : workerWait s = { s with
            pending := none
            worker := if w.message.isSome then .admission w else .executeAny w } := by
          simp [workerWait, hp]
        rw [htakes]
        refine ⟨rfl, rfl, id, .inl ?_⟩
        rw [hleft (by split <;> simp)]
        simp only [State.workerLeft, hpc, hp, Option.isSome_some, and_self, if_true]
        split <;> simp [WorkerPc.left]
    · have hpending : s.pending = none := by
        have hb := hc.baton
        rw [hpc] at hb
        exact hb.1
      rw [hleft (t := s) (by simp [hpc]), hpc]
      simp only [workerWait, State.notifyAll, hpending]
      split
      · refine ⟨rfl, rfl, id, .inl ?_⟩
        rw [hleft (by simp)]
        simp [WorkerPc.left]
      · refine ⟨rfl, rfl, id, .inl ?_⟩
        simp [State.workerLeft, WorkerPc.left]
  · simp only [not_or] at hwaits
    rw [hleft hwaits.1]
    have hmoves : ∀ {s₁ : State}, s₁.worker ≠ .waiting → s₁.worker.left < s.worker.left →
        s₁.workerLeft < s.worker.left := fun hne hlt => hleft hne ▸ hlt
    cases hpc : s.worker <;> simp only [hpc, not_true_eq_false, false_and, and_false] at hwaits <;>
      simp only [workerStep, hpc] at hs <;> try contradiction
    case admission w =>
        rw [hpc] at hmoves
        obtain ⟨-, rfl⟩ | ⟨b, now, -, rfl⟩ := admissionStep_cases hs
        · exact ⟨rfl, rfl, id, .inl (hmoves (by simp) (by simp [WorkerPc.left]))⟩
        · refine ⟨rfl, rfl, id, .inl (hmoves ?_ ?_)⟩ <;> cases b <;> simp [WorkerPc.left]
    case handlerRelease w thrown =>
        rw [hpc] at hmoves
        split at hs <;> cases hs
        refine ⟨rfl, rfl, id, .inl (hmoves ?_ ?_)⟩ <;> cases thrown <;> simp [WorkerPc.left]
    all_goals rw [hpc] at hmoves
    all_goals try cases i <;> simp only [workerDropStep, executingStep] at hs
    all_goals repeat' split at hs
    all_goals cases hs
    all_goals
      refine ⟨rfl, rfl, ?_, .inl (hmoves (by simp) (by simp [WorkerPc.left]))⟩
      simp

/-! ## every fair run returns -/

/-- The steps of a thread. -/
def Thread.acts : Thread → Action → Prop
  | .dispatcher, a => ∃ i, a = .dispatcher i
  | .worker, a => ∃ i, a = .worker i

/-- The thread that helps: the worker where it can go on, else the dispatcher. -/
def State.helper (s : State) : Thread :=
  if s.workerDue then .worker else .dispatcher

theorem helper_of_due (h : s.workerDue = true) : s.helper = .worker := by
  rw [State.helper, if_pos h]

theorem helper_of_not_due (h : s.workerDue = false) : s.helper = .dispatcher := by
  rw [State.helper, h]
  rfl

/-- `spin` has returned. -/
def State.Returned (s : State) : Prop :=
  ∃ r, s.dispatcher = .done r

/-- The thread that helps can go on. -/
theorem helper_enabled (hc : Control s) (hw : Wakeups s) (hnot : ¬s.Returned) :
    ∃ a, s.helper.acts a ∧ (step profiles s a).isSome = true := by
  cases hdue : s.workerDue with
  | true =>
      rw [helper_of_due hdue]
      have hawake : s.workerAsleep = false := by
        by_contra hasleep
        have hasleep : s.workerAsleep = true := by simpa using hasleep
        simp [State.workerDue, (hw.worker hasleep).1, hasleep] at hdue
      obtain ⟨i, hi⟩ := worker_enabled hawake (s := s)
        (fun hpc => by simp [State.workerDue, hpc] at hdue)
        (fun hpc => by simp [State.workerDue, hpc] at hdue)
      exact ⟨.worker i, ⟨i, rfl⟩, hi⟩
  | false =>
      rw [helper_of_not_due hdue]
      have hwaits : s.worker = .absent ∨ s.worker = .exited ∨ s.worker = .waiting := by
        cases hpc : s.worker <;> simp [State.workerDue, hpc] at hdue ⊢
      by_cases hj : s.dispatcher = .join
      · have hb := hc.baton
        have hawake := hw.joining hc hj
        obtain hpc | hpc | hpc := hwaits
        · rw [hpc, hj] at hb
          simp [WorkerPc.region, DispatcherPc.region, Baton] at hb
        · exact ⟨.dispatcher .ok, ⟨.ok, rfl⟩, by simp [step, dispatcherStep, hj, hpc]⟩
        · simp only [State.workerDue, hpc, hawake] at hdue
          rw [hpc, hj] at hb
          simp [WorkerPc.region, DispatcherPc.region, Baton] at hb
          simp [hb] at hdue
      · have hawake : s.dispatcherAsleep = false := by
          by_contra hasleep
          obtain hb | ⟨-, hann⟩ := hw.dispatcher (by simpa using hasleep)
          · rw [blocked_due hc hw hb] at hdue
            contradiction
          · obtain hpc | hpc | hpc := hwaits <;> simp [hpc, WorkerPc.announces] at hann
        obtain ⟨i, hi⟩ := @dispatcher_enabled profiles s hawake hj fun r hd => hnot ⟨r, hd⟩
        exact ⟨.dispatcher i, ⟨i, rfl⟩, hi⟩

theorem State.Ending.worked (h : s.Ending) (hd : s'.dispatcher = s.dispatcher)
    (hcontext : s'.contextOk = s.contextOk) (hspun : s.spinning = false → s'.spinning = false) :
    s'.Ending :=
  h.imp hcontext.trans fun h => ⟨hspun h.1, hd ▸ h.2⟩

/-- A state that is to stop stays one. -/
theorem step_ending :
    Steps.Preserved (step profiles) fun s => (Control s ∧ Wakeups s) ∧ s.Ending := by
  rintro s a s' ⟨hi, hend⟩ hs
  refine ⟨step_wakeups s a s' hi hs, ?_⟩
  cases a with
  | dispatcher i =>
      obtain ⟨-, hend'⟩ | ⟨-, rfl⟩ := dispatcher_moves hend hs
      · exact hend'
      · exact hend
  | worker i =>
      obtain ⟨hd, hcontext, hspun, -⟩ := worker_moves hi.1 hs
      exact hend.worked hd hcontext hspun
  | cancel =>
      cases hs
      exact hend.worked rfl rfl fun _ => rfl
  | shutdown =>
      cases hs
      exact .inl rfl
  | wake t => cases t <;> cases hs <;> exact hend

/-- What brings a call of `spin` that is to stop to its end. -/
theorem stop_helpful : Fair.Helpful (step profiles) Thread.acts State.helper
    (fun s => (Control s ∧ Wakeups s) ∧ s.Ending) State.Returned State.left where
  stable := step_ending
  enabled s h hnot := helper_enabled h.1.1 h.1.2 hnot
  moves := by
    rintro s a s' ⟨⟨hc, hw⟩, hend⟩ - hs
    cases a with
    | dispatcher i =>
        obtain ⟨hlt, -⟩ | ⟨hb, rfl⟩ := dispatcher_moves hend hs
        · exact .inl (left_of_dispatcher hlt)
        · have hdue := blocked_due hc hw hb
          refine .inr ⟨rfl, rfl, ?_⟩
          rw [helper_of_due hdue]
          rintro ⟨j, hj⟩
          cases hj
    | worker i =>
        obtain ⟨hd, -, -, hlt | ⟨hpc, hp, hst, rfl⟩⟩ := worker_moves hc hs
        · exact .inl (left_of_worker hd hlt)
        · have hdue : s.workerDue = false := by simp [State.workerDue, hpc, hp, hst]
          have hdue' : State.workerDue { s with workerAsleep := true } = s.workerDue := by
            simp [State.workerDue, hpc, hp, hst]
          refine .inr ⟨by simp only [State.left, hdue', State.workerLeft],
            by simp only [State.helper, hdue'], ?_⟩
          rw [helper_of_not_due hdue]
          rintro ⟨j, hj⟩
          cases hj
    | cancel | shutdown =>
        cases hs
        refine .inr ⟨rfl, rfl, ?_⟩
        cases s.helper <;> simp [Thread.acts]
    | wake t =>
        have hno : ¬s.helper.acts (.wake t) := by cases s.helper <;> simp [Thread.acts]
        cases t <;> cases hs
        · exact .inr ⟨rfl, rfl, hno⟩
        · by_cases hdue : State.workerDue { s with workerAsleep := false } = s.workerDue
          · exact .inr ⟨by simp only [State.left, hdue, State.workerLeft],
              by simp only [State.helper, hdue], hno⟩
          · have hraised : s.workerDue = false ∧
                State.workerDue { s with workerAsleep := false } = true := by
              cases hpc : s.worker <;> simp_all [State.workerDue]
            left
            simp [State.left, hraised, State.workerLeft]

/-! ## after a callback has thrown -/

/-- Once the worker exists, the dispatcher leaves it and its error alone, and
returns only after it has joined it. -/
theorem dispatcher_joins (hc : Control s) (hw : s.worker ≠ .absent)
    (hs : dispatcherStep profiles s i = some s') :
    s'.worker = s.worker ∧ s'.workerError = s.workerError ∧
      ∀ r, s'.dispatcher = .done r → s.worker = .exited ∧ r = s.dispatchError.or s.workerError := by
  by_cases ht : s.dispatcher.region = .turn
  · by_cases hh : ∃ w, s.dispatcher = .handoff w
    · obtain ⟨w, hd⟩ := hh
      simp only [dispatcherStep, hd] at hs
      split at hs <;> cases hs
      refine ⟨rfl, rfl, fun r hr => ?_⟩
      cases hr
    · obtain ⟨hf, hworker, hregion⟩ := turn_step hs ht (by simpa using hh)
      refine ⟨hworker, hf.error, fun r hd => ?_⟩
      rw [hd] at hregion
      simp [DispatcherPc.region] at hregion
  · have hbegun : s.dispatcher.region ≠ .boot ∧ s.dispatcher.region ≠ .spawning := by
      constructor
      · exact fun hd => hw (hc.absent (.inl hd)).1
      · exact fun hd => hw (hc.absent (.inr hd)).1
    cases hd : s.dispatcher <;>
      simp only [hd, DispatcherPc.region, not_true_eq_false, ne_eq, false_and, and_false]
        at ht hbegun <;>
      simp only [dispatcherStep, hd] at hs
    case waitReady =>
        simp only [waitReadyStep] at hs
        repeat' split at hs
        all_goals cases hs
        all_goals exact ⟨rfl, rfl, by simp [hd]⟩
    case waitIdle =>
        simp only [waitIdleStep] at hs
        repeat' split at hs
        all_goals cases hs
        all_goals exact ⟨rfl, rfl, by simp [hd]⟩
    case loopHead =>
        split at hs <;> cases hs
        refine ⟨rfl, rfl, ?_⟩
        split <;> simp
    case finalWait =>
        simp only [finalWaitStep] at hs
        repeat' split at hs
        all_goals cases hs
        all_goals exact ⟨rfl, rfl, by simp [hd]⟩
    case join =>
        split at hs <;> cases hs
        next hexited =>
        refine ⟨rfl, rfl, fun r hr => ⟨hexited.2, ?_⟩⟩
        cases hr
        rfl
    case done => contradiction
    case notifyHandoff | notifyStop | stopSpinning =>
        split at hs <;> cases hs
        refine ⟨rfl, rfl, fun r hr => ?_⟩
        cases hr

/-- A callback, an observer or the sink threw on the worker; a return of
`spin` is then one with an error. -/
structure State.Threw (s : State) : Prop where
  worker : s.worker.region = .failing ∨ s.worker.region = .failed ∨
    s.worker = .exited ∧ s.workerError.isSome = true
  returned : ∀ r, s.dispatcher = .done r → r.isSome = true

theorem State.Threw.of_failing (hc : Control s) (hw : s.worker = .failing) : s.Threw := by
  refine ⟨.inl (by rw [hw]; rfl), fun r hd => ?_⟩
  have hb := hc.baton
  rw [hw, hd] at hb
  simp [WorkerPc.region, DispatcherPc.region, Baton] at hb

/-- The worker's way out, from where it has caught an exception. -/
theorem failing_step (hw : s.worker.region = .failing ∨ s.worker.region = .failed)
    (hs : workerStep s i = some s') :
    s'.worker.left < s.worker.left ∧ s'.dispatcher = s.dispatcher ∧
      (s'.worker.region = .failed ∨ s.worker.region = .failed ∧ s'.worker = .exited ∧
        s'.workerError = s.workerError ∧ s'.spinning = false) := by
  cases hpc : s.worker <;>
    simp only [hpc, WorkerPc.region, reduceCtorEq, or_false, or_true] at hw <;>
    simp only [workerStep, hpc] at hs <;> split at hs <;> cases hs
  case failing.isTrue => exact ⟨by simp [WorkerPc.left], rfl, .inl rfl⟩
  case failNotify.isTrue => exact ⟨by simp [WorkerPc.left], rfl, .inl rfl⟩
  case failCancel.isTrue => exact ⟨by simp [WorkerPc.left], rfl, .inr ⟨rfl, rfl, rfl, rfl⟩⟩

theorem step_threw :
    Steps.Preserved (step profiles) fun s => (Control s ∧ Wakeups s) ∧ s.Threw := by
  rintro s a s' ⟨hi, ht⟩ hs
  refine ⟨step_wakeups s a s' hi hs, ?_⟩
  cases a with
  | dispatcher i =>
      have hthere : s.worker ≠ .absent := by
        intro hpc
        have hw := ht.worker
        simp [hpc, WorkerPc.region] at hw
      obtain ⟨hworker, herror, hreturns⟩ := dispatcher_joins hi.1 hthere hs
      refine ⟨by rw [hworker, herror]; exact ht.worker, fun r hd => ?_⟩
      obtain ⟨hexited, rfl⟩ := hreturns r hd
      have hw := ht.worker
      rw [hexited] at hw
      obtain hw | hw | ⟨-, herror⟩ := hw
      · cases hw
      · cases hw
      · rw [Option.isSome_or, herror, Bool.or_true]
  | worker i =>
      have hfailing : s.worker.region = .failing ∨ s.worker.region = .failed := by
        obtain hw | hw | ⟨hw, -⟩ := ht.worker
        · exact .inl hw
        · exact .inr hw
        · simp [step, workerStep, hw] at hs
      obtain ⟨-, hd, hw | ⟨hw, hw', herror, -⟩⟩ := failing_step hfailing hs
      · exact ⟨.inr (.inl hw), hd ▸ ht.returned⟩
      · have hb := hi.1.baton
        rw [hw] at hb
        exact ⟨.inr (.inr ⟨hw', herror ▸ hb.2.2.1⟩), hd ▸ ht.returned⟩
  | cancel | shutdown =>
      cases hs
      exact ⟨ht.worker, ht.returned⟩
  | wake t => cases t <;> cases hs <;> exact ⟨ht.worker, ht.returned⟩

/-- `spin` is to stop, or the worker is about to tell it so. -/
def State.Stopping (s : State) : Prop :=
  s.worker.region = .failing ∨ s.worker.region = .failed ∨ s.Ending

/-- An exception on the worker stops `spin`. -/
theorem failing_progress : Fair.Progress (step profiles) Thread.worker.acts
    (fun s => (Control s ∧ Wakeups s) ∧ s.Stopping) State.Ending fun s => s.worker.left where
  stable := by
    rintro s a s' ⟨hi, hstop⟩ hs
    refine ⟨step_wakeups s a s' hi hs, ?_⟩
    obtain hw | hend : (s.worker.region = .failing ∨ s.worker.region = .failed) ∨ s.Ending :=
      or_assoc.mpr hstop
    · cases a with
      | dispatcher i =>
          have hthere : s.worker ≠ .absent := by
            intro hpc
            simp [hpc, WorkerPc.region] at hw
          rw [State.Stopping, (dispatcher_joins hi.1 hthere hs).1]
          exact or_assoc.mp (.inl hw)
      | worker i =>
          obtain ⟨-, hd, hw' | ⟨hw, -, -, hspun⟩⟩ := failing_step hw hs
          · exact .inr (.inl hw')
          · refine .inr (.inr (.inr ⟨hspun, fun he => ?_⟩))
            have hb := hi.1.baton
            rw [hw, ← hd, he] at hb
            simp [DispatcherPc.region, Baton] at hb
      | cancel | shutdown =>
          cases hs
          exact or_assoc.mp (.inl hw)
      | wake t => cases t <;> cases hs <;> exact or_assoc.mp (.inl hw)
    · exact .inr (.inr (step_ending s a s' ⟨hi, hend⟩ hs).2)
  enabled := by
    rintro s ⟨⟨-, hwake⟩, hstop⟩ hnot
    have hw : s.worker.region = .failing ∨ s.worker.region = .failed :=
      (or_assoc.mpr hstop).resolve_right hnot
    have hawake : s.workerAsleep = false := by
      by_contra hasleep
      rw [(hwake.worker (by simpa using hasleep)).1] at hw
      simp [WorkerPc.region] at hw
    obtain ⟨i, hi⟩ := worker_enabled hawake (s := s)
      (fun hpc => by simp [hpc, WorkerPc.region] at hw)
      (fun hpc => by simp [hpc, WorkerPc.region] at hw)
    exact ⟨.worker i, ⟨i, rfl⟩, hi⟩
  keeps := by
    rintro s a s' ⟨hi, hstop⟩ hnot hs
    have hw : s.worker.region = .failing ∨ s.worker.region = .failed :=
      (or_assoc.mpr hstop).resolve_right hnot
    cases a with
    | dispatcher i =>
        have hthere : s.worker ≠ .absent := by
          intro hpc
          simp [hpc, WorkerPc.region] at hw
        rw [(dispatcher_joins hi.1 hthere hs).1]
    | worker i => exact Nat.le_of_lt (failing_step hw hs).1
    | cancel | shutdown =>
        cases hs
        exact Nat.le_refl _
    | wake t => cases t <;> cases hs <;> exact Nat.le_refl _
  falls := by
    rintro s a s' ⟨hi, hstop⟩ hnot ⟨i, rfl⟩ hs
    exact (failing_step ((or_assoc.mpr hstop).resolve_right hnot) hs).1

/-- **Termination**: where neither thread is kept from going on forever, a call
of `spin` that is to stop returns, and so does one whose worker has caught an
exception, with an error.  No worker thread and no work is left. -/
theorem fair_run_returns {ρ : Fair.Run (step profiles)} {n : Nat} (h : Spun profiles (ρ.state n))
    (hfair : ∀ t : Thread, ρ.WeaklyFair t.acts)
    (hstop : (ρ.state n).Ending ∨ (ρ.state n).worker = .failing) :
    ∃ m r, n ≤ m ∧ (ρ.state m).dispatcher = .done r ∧
      ((ρ.state m).worker = .absent ∨ (ρ.state m).worker = .exited) ∧
      (ρ.state m).pending = none ∧ ((ρ.state n).worker = .failing → r.isSome = true) := by
  have hstopping : (ρ.state n).Stopping := by
    obtain hend | hw := hstop
    · exact .inr (.inr hend)
    · exact .inl (by rw [hw]; rfl)
  obtain ⟨k, hk, hend⟩ := failing_progress.reaches (hfair .worker) ⟨h.invariants, hstopping⟩
  have hk' := Fair.Run.always step_wakeups h.invariants hk
  obtain ⟨m, hm, r, hd⟩ := stop_helpful.reaches hfair ⟨hk', hend⟩
  obtain ⟨hc, -⟩ := Fair.Run.always step_wakeups hk' hm
  have hgone : ((ρ.state m).worker = .absent ∨ (ρ.state m).worker = .exited) ∧
      (ρ.state m).pending = none := by
    have hb := hc.baton
    rw [hd] at hb
    cases hpc : (ρ.state m).worker with
    | absent =>
        rw [hpc] at hb
        exact ⟨.inl rfl, hb.1⟩
    | exited =>
        rw [hpc] at hb
        exact ⟨.inr rfl, hb.1⟩
    | _ => simp [hpc, WorkerPc.region, DispatcherPc.region, Baton] at hb
  refine ⟨m, r, Nat.le_trans hk hm, hd, hgone.1, hgone.2, fun hw => ?_⟩
  have hthrew := State.Threw.of_failing h.invariants.1 hw
  exact (Fair.Run.always step_threw ⟨h.invariants, hthrew⟩ (Nat.le_trans hk hm)).2.returned r hd

/-- A callback is selected, handed over and throws. -/
def thrown : List Action :=
  [.dispatcher .ok, .dispatcher .ok, .dispatcher .ok, .worker .ok, .worker (.pidTgid 7),
    .dispatcher .ok, .worker .ok, .worker .ok, .dispatcher .ok, .dispatcher .ok,
    .dispatcher (.selected none none), .dispatcher .ok, .dispatcher (.now 5), .dispatcher .ok,
    .dispatcher .ok, .dispatcher .ok, .worker .ok, .worker .ok, .worker .throws, .worker .ok,
    .worker .ok, .worker .ok, .worker .ok, .worker .ok]

/-- The dispatcher sleeps for an idle worker and finds its error. -/
def rethrown : List Action :=
  [.dispatcher .ok, .dispatcher .ok, .worker .ok, .worker .ok, .dispatcher .ok, .dispatcher .ok,
    .dispatcher .ok, .dispatcher .ok, .worker .ok, .dispatcher .ok]

theorem fair_run_returns_rethrown :
    ∃ ρ : Fair.Run (step fun _ => none), (ρ.state 0).worker = .failing ∧
      (ρ.state 0).spinning = true ∧
      ∃ m r, 0 ≤ m ∧ (ρ.state m).dispatcher = .done r ∧
        ((ρ.state m).worker = .absent ∨ (ρ.state m).worker = .exited) ∧
        (ρ.state m).pending = none ∧ ((ρ.state 0).worker = .failing → r.isSome = true) := by
  obtain ⟨s, s', hs, hw, hspun, hs', hd, hx, hidle⟩ : ∃ s s' : State,
      Steps.exec (step fun _ => none) {} thrown = some s ∧ s.worker = .failing ∧
      s.spinning = true ∧ Steps.exec (step fun _ => none) s rethrown = some s' ∧
      s'.dispatcher = .done (some .external) ∧ s'.worker = .exited ∧
      step (fun _ => none) s' .cancel = some s' :=
    ⟨_, _, rfl, rfl, rfl, rfl, rfl, rfl, rfl⟩
  obtain ⟨ρ, hstart, hend⟩ := Fair.exists_run hs' hidle
  refine ⟨ρ, by rw [hstart, hw], by rw [hstart, hspun], ?_⟩
  refine fair_run_returns ⟨{}, thrown, ⟨⟨rfl, rfl, rfl, rfl, rfl⟩, rfl, rfl⟩, hstart ▸ hs⟩ ?_
    (.inr (by rw [hstart, hw]))
  -- both threads are done, so neither is kept from anything
  intro t n hcan
  exfalso
  obtain ⟨a, ha, hsome⟩ := hcan (max n rethrown.length) (Nat.le_max_left _ _)
  rw [(hend _ (Nat.le_max_right _ _)).1] at hsome
  cases t <;> obtain ⟨i, rfl⟩ := ha
  · simp [step, dispatcherStep, hd] at hsome
  · simp [step, workerStep, hx] at hsome

end Steps

end ScxSlam.Executor
