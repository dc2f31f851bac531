import ScxSlam.Executor.Spin

/-!
# ScxSlam.Executor.Control

Who may act.  The mutex-protected flags of `Impl` implement a baton: the
dispatcher holds it from the moment it sees the worker idle until the
handoff, the worker holds it from the moment it takes the pending work until
it parks again.  `Control` says which flags go with which pair of program
points; every interleaving keeps it (`step_control`), and it is the only
invariant of this development that mentions the flags.
-/

namespace ScxSlam.Executor

/-! ## regions of the two programs -/

/-- Stretches of `spin` between which the flags change. -/
inductive DispatcherRegion
  | boot
  | spawning
  | ready
  | loop
  | turn
  | stopping
  | closing
  | over
  deriving DecidableEq

/-- Regions in which no dispatch error has been caught yet. -/
def DispatcherRegion.live : DispatcherRegion → Bool
  | .spawning | .ready | .loop | .turn => true
  | _ => false

/-- The region of a program point of the dispatcher. -/
def DispatcherPc.region : DispatcherPc → DispatcherRegion
  | .entry | .reset => .boot
  | .spawn => .spawning
  | .waitReady => .ready
  | .loopHead | .waitIdle | .notifyHandoff => .loop
  | .stopSpinning | .finalWait => .stopping
  | .notifyStop | .join => .closing
  | .done _ => .over
  | _ => .turn

/-- Stretches of the worker between which the flags change. -/
inductive WorkerRegion
  | absent
  | starting
  | unparked
  | waiting
  | busy
  | failing
  | failed
  | exited
  deriving DecidableEq

/-- The region of a program point of the worker. -/
def WorkerPc.region : WorkerPc → WorkerRegion
  | .absent => .absent
  | .configuring | .register => .starting
  | .notifyReady | .park => .unparked
  | .waiting => .waiting
  | .failing => .failing
  | .failNotify | .failCancel => .failed
  | .exited => .exited
  | _ => .busy

/-- The members `spin` resets before it creates the worker. -/
structure State.Fresh (s : State) : Prop where
  pending : s.pending = none
  ready : s.workerReady = false
  idle : s.workerIdle = false
  clear : s.hintNeedsClear = false
  stop : s.stop = false
  error : s.workerError = none

/-! ## the baton -/

/-- What the flags say in each worker region. -/
def Baton (s : State) (d : DispatcherRegion) : WorkerRegion → Prop
  | .absent => s.pending = none ∧ (d = .boot ∨ d = .over ∨ d = .spawning ∧ s.Fresh)
  | .starting => d = .ready ∧ s.Fresh
  | .unparked => s.pending = none ∧ s.workerIdle = false ∧ s.stop = false ∧
      s.workerError = none ∧ (d = .ready ∨ d = .loop ∨ d = .stopping)
  | .waiting => s.workerError = none ∧
      ((s.pending = none ∧ s.workerIdle = true ∧
          (d = .closing ∧ s.stop = true ∨
            s.stop = false ∧ (d = .ready ∨ d = .loop ∨ d = .turn ∨ d = .stopping))) ∨
        (s.pending.isSome = true ∧ s.workerIdle = false ∧ s.stop = false ∧
          (d = .loop ∨ d = .stopping)))
  | .busy => s.pending = none ∧ s.workerIdle = false ∧ s.stop = false ∧
      s.workerError = none ∧ (d = .loop ∨ d = .stopping)
  | .failing => s.pending = none ∧ s.workerIdle = false ∧ s.stop = false ∧
      s.workerError = none ∧ (d = .ready ∨ d = .loop ∨ d = .stopping)
  | .failed => s.pending = none ∧ s.workerIdle = true ∧ s.workerError.isSome = true ∧
      (d = .ready ∨ d = .loop ∨ d = .stopping ∨ d = .closing)
  | .exited => s.pending = none ∧ s.workerIdle = true ∧
      (s.workerError.isSome = true ∧
          (d = .ready ∨ d = .loop ∨ d = .stopping ∨ d = .closing ∨ d = .over) ∨
        s.workerError = none ∧ (d = .closing ∨ d = .over))

/-- The control invariant: the flags agree with both program points, and no
dispatch error is recorded while the dispatch loop still runs. -/
structure Control (s : State) : Prop where
  baton : Baton s s.dispatcher.region s.worker.region
  running : s.dispatcher.region.live → s.dispatchError = none

/-- `Control` at named regions. -/
theorem Control.of_regions {s : State} {d : DispatcherRegion} {w : WorkerRegion}
    (hd : s.dispatcher.region = d) (hw : s.worker.region = w) (hb : Baton s d w)
    (he : d.live → s.dispatchError = none) : Control s := by
  subst hd
  subst hw
  exact ⟨hb, he⟩

theorem Init.control {s : State} (h : Init s) : Control s :=
  .of_regions (d := .boot) (w := .absent) (by rw [h.dispatcher]; rfl) (by rw [h.worker]; rfl)
    ⟨h.pending, .inl rfl⟩ (by simp [DispatcherRegion.live])

/-- A dispatcher inside its turn: the worker is parked, nothing is pending. -/
theorem Control.turn {s : State} (h : Control s) (ht : s.dispatcher.region = .turn) :
    s.worker = .waiting ∧ s.pending = none ∧ s.workerIdle = true ∧ s.workerError = none ∧
      s.stop = false := by
  have hb := h.baton
  rw [ht] at hb
  cases hw : s.worker <;> simp_all [WorkerPc.region, Baton]

/-- A worker that holds work: nothing is pending and the dispatcher is
outside its turn. -/
theorem Control.busy {s : State} (h : Control s) (hw : s.worker.region = .busy) :
    s.pending = none ∧ (s.dispatcher.region = .loop ∨ s.dispatcher.region = .stopping) := by
  have hb := h.baton
  rw [hw] at hb
  exact ⟨hb.1, hb.2.2.2.2⟩

/-- Pending work waits for a worker that is in `condition.wait`. -/
theorem Control.handed {s : State} (h : Control s) {w : PendingWork}
    (hp : s.pending = some w) :
    s.worker = .waiting ∧
      (s.dispatcher.region = .loop ∨ s.dispatcher.region = .stopping) := by
  have hb := h.baton
  cases hw : s.worker <;> simp_all [WorkerPc.region, Baton]
  all_goals grind [State.Fresh]

/-! ## every step keeps it -/

/-- The members `Control` reads, apart from the program points. -/
structure SameFlags (s s' : State) : Prop where
  pending : s'.pending = s.pending
  ready : s'.workerReady = s.workerReady
  idle : s'.workerIdle = s.workerIdle
  clear : s'.hintNeedsClear = s.hintNeedsClear
  stop : s'.stop = s.stop
  error : s'.workerError = s.workerError

theorem SameFlags.of_eq {s s' : State}
    (h : (s'.pending, s'.workerReady, s'.workerIdle, s'.hintNeedsClear, s'.stop, s'.workerError) =
      (s.pending, s.workerReady, s.workerIdle, s.hintNeedsClear, s.stop, s.workerError)) :
    SameFlags s s' := by
  simp only [Prod.mk.injEq] at h
  obtain ⟨hpending, hready, hidle, hclear, hstop, herror⟩ := h
  exact ⟨hpending, hready, hidle, hclear, hstop, herror⟩

theorem SameFlags.goto (s : State) (pc : DispatcherPc) : SameFlags s (s.goto pc) := .of_eq rfl

theorem SameFlags.fresh {s s' : State} (h : SameFlags s s') (hf : s.Fresh) : s'.Fresh :=
  ⟨h.pending.trans hf.pending, h.ready.trans hf.ready, h.idle.trans hf.idle,
    h.clear.trans hf.clear, h.stop.trans hf.stop, h.error.trans hf.error⟩

theorem SameFlags.baton {s s' : State} (h : SameFlags s s') {d : DispatcherRegion}
    {w : WorkerRegion} (hb : Baton s d w) : Baton s' d w := by
  cases w <;> simp only [Baton, h.pending, h.idle, h.stop, h.error] at hb ⊢
  case absent => exact ⟨hb.1, hb.2.imp id (.imp id (.imp id h.fresh))⟩
  case starting => exact ⟨hb.1, h.fresh hb.2⟩
  all_goals exact hb

/-- A dispatcher step inside one region leaves the baton where it is. -/
theorem Control.same_region {s s' : State} (h : Control s) (hf : SameFlags s s')
    (hd : s'.dispatcher.region = s.dispatcher.region)
    (hw : s'.worker.region = s.worker.region) (he : s'.dispatchError = s.dispatchError) :
    Control s' := by
  refine ⟨?_, ?_⟩
  · rw [hd, hw]
    exact hf.baton h.baton
  · rw [hd, he]
    exact h.running

/-- The dispatcher leaves its turn without having handed anything over. -/
theorem Control.leave_turn {s s' : State} (h : Control s) (hf : SameFlags s s')
    (ht : s.dispatcher.region = .turn) (hw : s'.worker = s.worker)
    (hd : s'.dispatcher.region = .loop ∧ s'.dispatchError = s.dispatchError ∨
      s'.dispatcher.region = .stopping) : Control s' := by
  obtain ⟨h1, h2, h3, h4, h5⟩ := h.turn ht
  have he := h.running (by rw [ht]; rfl)
  refine ⟨?_, ?_⟩
  · rw [hw, h1]
    refine ⟨hf.error.trans h4, .inl ⟨hf.pending.trans h2, hf.idle.trans h3,
      .inr ⟨hf.stop.trans h5, ?_⟩⟩⟩
    obtain ⟨hd, -⟩ | hd := hd <;> simp [hd]
  · obtain ⟨hd, hd'⟩ | hd := hd
    · exact fun _ => hd'.trans he
    · simp [hd, DispatcherRegion.live]

section Steps

variable {profiles : GroupId → Option ProfileBinding} {s s' : State} {i : Input}

theorem checkExpiry_frame {w : PendingWork} {t : Thread} {b : Bool}
    (h : checkExpiry s w t i = some (b, s')) :
    ∃ now, s' = { s with clock := now }.emit [.check w.serial t b] := by
  cases i <;> simp only [checkExpiry] at h
  case ok =>
      split at h
      · contradiction
      · cases h
        exact ⟨s.clock, rfl⟩
  case now now =>
      split at h
      · cases h
        exact ⟨now, rfl⟩
      · contradiction
  all_goals contradiction

/-- An expiry verdict can only be positive when the profile rejects. -/
theorem checkExpiry_reject {w : PendingWork} {t : Thread} {b : Bool}
    (h : checkExpiry s w t i = some (b, s')) : b = true → w.rejectExpired = true := by
  cases i <;> simp only [checkExpiry] at h
  case ok =>
      split at h <;> cases h
      simp
  case now now =>
      split at h
      · next hr => exact fun _ => hr.1
      · contradiction
  all_goals contradiction

/-- The dispatcher's check throws, or says whether the message is dropped. -/
theorem dispatchCheckStep_cases {w : PendingWork} (hs : dispatchCheckStep s w i = some s') :
    (i = .throws ∧ s' = s.dispatchCatch w .external) ∨
      ∃ b now, (b = true → w.rejectExpired = true) ∧
        s' = ({ s with clock := now }.emit [.check w.serial .dispatcher b]).goto
          (if b then .dropObserve w else .publish w) := by
  cases i <;> simp only [dispatchCheckStep] at hs
  case throws =>
      split at hs <;> cases hs
      exact .inl ⟨rfl, rfl⟩
  all_goals
    obtain ⟨⟨b, s₁⟩, h₁, h₂⟩ := Option.map_eq_some_iff.mp hs
    have hrej := checkExpiry_reject h₁
    obtain ⟨now, rfl⟩ := checkExpiry_frame h₁
    cases h₂
    exact .inr ⟨b, now, hrej, rfl⟩

/-- So does the worker's. -/
theorem admissionStep_cases {w : PendingWork} (hs : admissionStep s w i = some s') :
    (i = .throws ∧ s' = s.workerGoto (.catchReturn w)) ∨
      ∃ b now, (b = true → w.rejectExpired = true) ∧
        s' = ({ s with clock := now }.emit [.check w.serial .worker b]).workerGoto
          (if b then .dropObserve w else .enterHandler w) := by
  cases i <;> simp only [admissionStep] at hs
  case throws =>
      split at hs <;> cases hs
      exact .inl ⟨rfl, rfl⟩
  all_goals
    obtain ⟨⟨b, s₁⟩, h₁, h₂⟩ := Option.map_eq_some_iff.mp hs
    have hrej := checkExpiry_reject h₁
    obtain ⟨now, rfl⟩ := checkExpiry_frame h₁
    cases h₂
    exact .inr ⟨b, now, hrej, rfl⟩

/-- Inside its turn the dispatcher touches no flag, except to hand over. -/
theorem turn_step (hs : dispatcherStep profiles s i = some s')
    (ht : s.dispatcher.region = .turn) (hh : ∀ w, s.dispatcher ≠ .handoff w) :
    SameFlags s s' ∧ s'.worker = s.worker ∧
      (s'.dispatchError = s.dispatchError ∧
          (s'.dispatcher.region = .turn ∨ s'.dispatcher.region = .loop) ∨
        s'.dispatcher.region = .stopping) := by
  cases hd : s.dispatcher <;> simp only [hd, DispatcherPc.region] at ht <;>
    simp only [dispatcherStep, hd] at hs <;> try contradiction
  case handoff w => exact absurd hd (hh w)
  case checkExpired w =>
      obtain ⟨-, rfl⟩ | ⟨b, now, -, rfl⟩ := dispatchCheckStep_cases hs
      · exact ⟨.of_eq rfl, rfl, .inl ⟨rfl, .inl rfl⟩⟩
      · cases b <;> exact ⟨.of_eq rfl, rfl, .inl ⟨rfl, .inl rfl⟩⟩
  case getNext =>
      cases i <;> simp only [getNextStep] at hs <;> cases hs <;>
        exact ⟨.of_eq rfl, rfl, by simp [DispatcherPc.region]⟩
  case bind e =>
      cases i <;> simp only [bindStep] at hs
      all_goals repeat' split at hs
      all_goals cases hs
      all_goals exact ⟨.of_eq rfl, rfl, by simp [DispatcherPc.region]⟩
  case extract w b =>
      cases i <;> simp only [extractStep] at hs
      all_goals repeat' split at hs
      all_goals cases hs
      all_goals refine ⟨.of_eq rfl, rfl, ?_⟩
      all_goals simp [DispatcherPc.region]
  case returnMessage w after =>
      split at hs <;> cases hs
      exact ⟨.of_eq rfl, rfl, .inl ⟨rfl, .inl rfl⟩⟩
  case releaseGroup w after =>
      split at hs <;> cases after <;> cases hs
      · exact ⟨.of_eq rfl, rfl, .inl ⟨rfl, .inr rfl⟩⟩
      · exact ⟨.of_eq rfl, rfl, .inr rfl⟩
  all_goals
    cases i <;>
      simp only [createStep, takeStep, observeSelectedStep, dispatchDropStep, makeHintStep,
        publishStep] at hs
  all_goals try split at hs
  all_goals try cases hs
  all_goals exact ⟨.of_eq rfl, rfl, .inl ⟨rfl, .inl rfl⟩⟩

/-- Before the worker exists. -/
theorem Control.absent (hc : Control s)
    (hd : s.dispatcher.region = .boot ∨ s.dispatcher.region = .spawning) :
    s.worker = .absent ∧ s.pending = none ∧ (s.dispatcher.region = .spawning → s.Fresh) := by
  have hb := hc.baton
  cases hw : s.worker <;> simp only [hw, WorkerPc.region, Baton] at hb <;>
    grind

theorem startStep_control (hc : Control s) (hs : startStep s i = some s') : Control s' := by
  cases i <;> simp only [startStep] at hs <;> try contradiction
  case ok =>
      cases hd : s.dispatcher <;> simp only [hd] at hs <;> try contradiction
      case entry =>
          obtain ⟨hw, hp, -⟩ := hc.absent (.inl (by rw [hd]; rfl))
          split at hs <;> cases hs
          · exact .of_regions (d := .over) rfl (congrArg _ hw) ⟨hp, .inr (.inl rfl)⟩ nofun
          · exact .of_regions (d := .boot) rfl (congrArg _ hw) ⟨hp, .inl rfl⟩ nofun
      case reset =>
          obtain ⟨hw, -, -⟩ := hc.absent (.inl (by rw [hd]; rfl))
          cases hs
          exact .of_regions (d := .spawning) rfl (congrArg _ hw)
            ⟨rfl, .inr (.inr ⟨rfl, ⟨rfl, rfl, rfl, rfl, rfl, rfl⟩⟩)⟩ fun _ => rfl
      case spawn =>
          obtain ⟨-, -, hf⟩ := hc.absent (.inr (by rw [hd]; rfl))
          have he := hc.running (by rw [hd]; rfl)
          cases hs
          have hf' := hf (by rw [hd]; rfl)
          exact .of_regions (d := .ready) (w := .starting) rfl rfl
            ⟨rfl, ⟨hf'.pending, hf'.ready, hf'.idle, hf'.clear, hf'.stop, hf'.error⟩⟩ fun _ => he
  case throws =>
      split at hs <;> cases hs
      next hd =>
        obtain ⟨hw, hp, -⟩ := hc.absent (.inr (by rw [hd]; rfl))
        exact .of_regions (d := .over) rfl (congrArg _ hw) ⟨hp, .inr (.inl rfl)⟩ nofun

/-- The dispatcher leaves `waitReady` or the loop for the shutdown path. -/
theorem Control.stopping (hc : Control s) (hf : SameFlags s s') (hw : s'.worker = s.worker)
    (hd : s.dispatcher.region = .ready ∨ s.dispatcher.region = .loop ∨
      s.dispatcher.region = .stopping) (hd' : s'.dispatcher.region = .stopping)
    (hr : s.dispatcher.region = .ready → s.workerReady = true) : Control s' := by
  have hb := hf.baton hc.baton
  refine .of_regions hd' (congrArg _ hw) ?_ nofun
  cases hr : s.worker.region <;> rw [hr] at hb <;> simp only [Baton] at hb ⊢ <;>
    grind [State.Fresh, SameFlags]

theorem waitReadyStep_control (hc : Control s) (hd : s.dispatcher = .waitReady)
    (hs : waitReadyStep s = some s') : Control s' := by
  have hb := hc.baton
  simp only [waitReadyStep] at hs
  split at hs
  · contradiction
  · split at hs
    · next hr =>
      split at hs <;> cases hs
      · exact hc.stopping (.of_eq rfl) rfl (.inl (by rw [hd]; rfl)) rfl
          fun _ => hr
      · refine .of_regions (d := .loop) rfl rfl ?_ fun _ => hc.running (by rw [hd]; rfl)
        rw [hd] at hb
        refine (SameFlags.goto s _).baton ?_
        change Baton s .loop s.worker.region
        cases hw : s.worker.region <;> rw [hw] at hb <;>
          simp only [Baton, DispatcherPc.region] at hb ⊢ <;> grind [State.Fresh]
    · cases hs
      exact hc.same_region (.of_eq rfl) rfl rfl rfl

theorem waitIdleStep_control (hc : Control s) (hd : s.dispatcher = .waitIdle)
    (hs : waitIdleStep s = some s') : Control s' := by
  have hb := hc.baton
  simp only [waitIdleStep] at hs
  split at hs
  · contradiction
  · split at hs
    · next hr =>
      split at hs
      · cases hs
        exact hc.stopping (.of_eq rfl) rfl (.inr (.inl (by rw [hd]; rfl))) rfl
          (by simp [hd, DispatcherPc.region])
      · next he =>
        cases hs
        by_cases hsp : s.spinning
        · refine .of_regions (d := .turn) (by simp [hsp, DispatcherPc.region]) rfl ?_
            fun _ => hc.running (by rw [hd]; rfl)
          rw [hd] at hb
          refine (SameFlags.goto s _).baton ?_
          change Baton s .turn s.worker.region
          cases hw : s.worker.region <;> rw [hw] at hb <;>
            simp only [Baton, DispatcherPc.region] at hb ⊢ <;> grind [State.Fresh]
        · exact hc.stopping (.of_eq rfl) rfl (.inr (.inl (by rw [hd]; rfl)))
            (by simp [hsp, DispatcherPc.region]) (by simp [hd, DispatcherPc.region])
    · cases hs
      exact hc.same_region (.of_eq rfl) rfl rfl rfl

theorem handoffStep_control {w : PendingWork} (hc : Control s) (hd : s.dispatcher = .handoff w) :
    Control (handoffStep s w) := by
  obtain ⟨hw, hp, hi, he, hst⟩ := hc.turn (by rw [hd]; rfl)
  refine .of_regions (d := .loop) (w := .waiting) rfl (congrArg _ hw) ?_
    fun _ => hc.running (by rw [hd]; rfl)
  exact ⟨he, .inr ⟨rfl, rfl, hst, .inl rfl⟩⟩

theorem finalWaitStep_control (hc : Control s) (hd : s.dispatcher = .finalWait)
    (hs : finalWaitStep s i = some s') : Control s' := by
  have hb := hc.baton
  have key : (s.workerIdle = true ∨ s.workerError.isSome = true) →
      ∀ s₁ : State, s₁.pending = s.pending → s₁.workerIdle = s.workerIdle → s₁.stop = true →
        s₁.workerError = s.workerError → s₁.worker = s.worker →
        s₁.dispatcher.region = .closing → Control s₁ := by
    intro hready s₁ h1 h2 h3 h4 h5 h6
    refine .of_regions h6 (congrArg _ h5) ?_ nofun
    rw [hd] at hb
    cases hw : s.worker.region <;> rw [hw] at hb <;>
      simp only [Baton, DispatcherPc.region] at hb ⊢ <;> grind [State.Fresh]
  simp only [finalWaitStep] at hs
  split at hs
  · contradiction
  · split at hs
    · next hready =>
      have hgo := key (by simpa using hready)
      split at hs
      · split at hs <;> cases hs <;> exact hgo _ rfl rfl rfl rfl rfl rfl
      · split at hs <;> cases hs
        exact hgo _ rfl rfl rfl rfl rfl rfl
    · split at hs <;> cases hs
      exact hc.same_region (.of_eq rfl) rfl rfl rfl

/-- Every dispatcher step keeps the control invariant. -/
theorem dispatcher_control (hc : Control s) (hs : dispatcherStep profiles s i = some s') :
    Control s' := by
  by_cases ht : s.dispatcher.region = .turn
  · by_cases hh : ∃ w, s.dispatcher = .handoff w
    · obtain ⟨w, hd⟩ := hh
      simp only [dispatcherStep, hd] at hs
      split at hs <;> cases hs
      exact handoffStep_control hc hd
    · obtain ⟨hf, hw, hr⟩ := turn_step hs ht (by simpa using hh)
      obtain ⟨he, hr | hr⟩ | hr := hr
      · exact hc.same_region hf (hr.trans ht.symm) (congrArg _ hw) he
      · exact hc.leave_turn hf ht hw (.inl ⟨hr, he⟩)
      · exact hc.leave_turn hf ht hw (.inr hr)
  · cases hd : s.dispatcher <;> simp only [hd, DispatcherPc.region, not_true_eq_false] at ht <;>
      simp only [dispatcherStep, hd] at hs
    case entry | reset | spawn => exact startStep_control hc hs
    case waitReady =>
        split at hs
        · exact waitReadyStep_control hc hd hs
        · contradiction
    case loopHead =>
        split at hs <;> cases hs
        by_cases hl : s.contextOk ∧ s.spinning
        · exact hc.same_region (.of_eq rfl)
            (by simp [hl, hd, DispatcherPc.region]) rfl rfl
        · exact hc.stopping (.of_eq rfl) rfl (.inr (.inl (by rw [hd]; rfl)))
            (by simp [hl, DispatcherPc.region]) (by simp [hd, DispatcherPc.region])
    case waitIdle =>
        split at hs
        · exact waitIdleStep_control hc hd hs
        · contradiction
    case finalWait => exact finalWaitStep_control hc hd hs
    case join =>
        split at hs <;> cases hs
        next hj =>
          have hb := hc.baton
          rw [hd, hj.2] at hb
          refine .of_regions (d := .over) (w := .exited) rfl (congrArg _ hj.2) ?_ nofun
          exact ⟨hb.1, hb.2.1, hb.2.2.imp (.imp id fun _ => by simp) (.imp id fun _ => .inr rfl)⟩
    case done => contradiction
    case notifyHandoff | stopSpinning | notifyStop =>
        split at hs <;> cases hs
        exact hc.same_region (.of_eq rfl) (by rw [hd]; rfl) rfl rfl

/-! ### the worker -/

theorem workerWait_workerGoto (s : State) (pc : WorkerPc) :
    workerWait (s.workerGoto pc) = workerWait s := by
  simp only [workerWait, State.workerGoto]
  split <;> rfl

/-- Taking the pending work, leaving on `stop`, or going to sleep. -/
theorem workerWait_control (hc : Control s) (hw : s.worker = .waiting) :
    Control (workerWait s) := by
  have hb := hc.baton
  rw [hw] at hb
  obtain ⟨he, ⟨hp, hi, hd⟩ | ⟨hp, hi, hst, hd⟩⟩ := hb
  · by_cases hst : s.stop
    · simp only [workerWait, hp, if_pos hst]
      refine .of_regions (w := .exited) rfl rfl ⟨hp, hi, .inr ⟨he, ?_⟩⟩ hc.running
      obtain ⟨hd, -⟩ | ⟨hd, -⟩ := hd
      · exact .inl hd
      · rw [hst] at hd
        contradiction
    · simp only [workerWait, hp, if_neg hst]
      exact .of_regions (w := .waiting) rfl rfl ⟨he, .inl ⟨rfl, hi, hd⟩⟩ hc.running
  · obtain ⟨w, hp⟩ := Option.isSome_iff_exists.mp hp
    simp only [workerWait, hp]
    refine .of_regions (w := .busy) rfl ?_ ⟨rfl, hi, hst, he, hd⟩ hc.running
    dsimp only
    split <;> rfl

/-- The worker raises `worker_idle` on its way into `condition.wait`. -/
theorem parked_control (hc : Control s) (hw : s.worker = .park) :
    Control ({ s with workerIdle := true }.notifyAll.workerGoto .waiting) := by
  have hb := hc.baton
  rw [hw] at hb
  obtain ⟨h1, h2, h3, h4, h5⟩ := hb
  refine .of_regions (w := .waiting) rfl rfl ⟨h4, .inl ⟨h1, rfl, .inr ⟨h3, ?_⟩⟩⟩ hc.running
  obtain h5 | h5 | h5 := h5
  · exact .inl h5
  · exact .inr (.inl h5)
  · exact .inr (.inr (.inr h5))

/-- A worker step inside its busy region keeps the flags, or clears
`hint_needs_clear`, and ends in the region, before parking, or failing. -/
theorem busy_step (hs : workerStep s i = some s') (hw : s.worker.region = .busy) :
    (s'.pending = s.pending ∧ s'.workerReady = s.workerReady ∧ s'.workerIdle = s.workerIdle ∧
      s'.stop = s.stop ∧ s'.workerError = s.workerError) ∧
      (s'.dispatcher = s.dispatcher ∧ s'.dispatchError = s.dispatchError) ∧
      (s'.worker.region = .busy ∨ s'.worker.region = .unparked ∨ s'.worker.region = .failing) := by
  cases hp : s.worker <;> simp only [hp, WorkerPc.region] at hw <;>
    simp only [workerStep, hp] at hs <;> try contradiction
  case admission w =>
      obtain ⟨-, rfl⟩ | ⟨b, now, -, rfl⟩ := admissionStep_cases hs
      · exact ⟨⟨rfl, rfl, rfl, rfl, rfl⟩, ⟨rfl, rfl⟩, .inl rfl⟩
      · cases b <;> exact ⟨⟨rfl, rfl, rfl, rfl, rfl⟩, ⟨rfl, rfl⟩, .inl rfl⟩
  case handlerRelease w thrown =>
      split at hs <;> cases hs
      cases thrown <;> exact ⟨⟨rfl, rfl, rfl, rfl, rfl⟩, ⟨rfl, rfl⟩, .inl rfl⟩
  case unwind w =>
      split at hs <;> cases hs
      exact ⟨⟨rfl, rfl, rfl, rfl, rfl⟩, ⟨rfl, rfl⟩, .inr (.inr rfl)⟩
  case destroy w =>
      split at hs <;> cases hs
      exact ⟨⟨rfl, rfl, rfl, rfl, rfl⟩, ⟨rfl, rfl⟩, .inr (.inl rfl)⟩
  all_goals try cases i <;> simp only [workerDropStep, executingStep] at hs
  all_goals try split at hs
  all_goals cases hs
  all_goals exact ⟨⟨rfl, rfl, rfl, rfl, rfl⟩, ⟨rfl, rfl⟩, .inl rfl⟩

/-- Every worker step keeps the control invariant. -/
theorem worker_control (hc : Control s) (hs : workerStep s i = some s') : Control s' := by
  have hb := hc.baton
  by_cases hw : s.worker.region = .busy
  · obtain ⟨⟨hp, -, hi, hst, he⟩, ⟨hd, hde⟩, hr⟩ := busy_step hs hw
    rw [hw] at hb
    obtain ⟨h1, h2, h3, h4, h5⟩ := hb
    obtain hr | hr | hr := hr
    · exact .of_regions (congrArg _ hd) hr ⟨hp.trans h1, hi.trans h2, hst.trans h3, he.trans h4, h5⟩
        (by rw [hde]; exact hc.running)
    · exact .of_regions (congrArg _ hd) hr
        ⟨hp.trans h1, hi.trans h2, hst.trans h3, he.trans h4, .inr h5⟩
        (by rw [hde]; exact hc.running)
    · exact .of_regions (congrArg _ hd) hr
        ⟨hp.trans h1, hi.trans h2, hst.trans h3, he.trans h4, .inr h5⟩
        (by rw [hde]; exact hc.running)
  · cases hp : s.worker <;> simp only [hp, WorkerPc.region, not_true_eq_false] at hw <;>
      simp only [workerStep, hp] at hs <;> rw [hp] at hb
    case absent | exited => contradiction
    case configuring =>
        obtain ⟨hd, hf⟩ := hb
        split at hs <;> cases hs
        · exact .of_regions (w := .starting) rfl rfl
            ⟨hd, hf.pending, hf.ready, hf.idle, hf.clear, hf.stop, hf.error⟩ hc.running
        · exact .of_regions (w := .failing) rfl rfl
            ⟨hf.pending, hf.idle, hf.stop, hf.error, .inl hd⟩ hc.running
    case register =>
        obtain ⟨hd, hf⟩ := hb
        split at hs <;> cases hs
        exact .of_regions (w := .unparked) rfl rfl
          ⟨hf.pending, hf.idle, hf.stop, hf.error, .inl hd⟩ hc.running
    case notifyReady =>
        split at hs <;> cases hs
        exact hc.same_region (.of_eq rfl) rfl (by rw [hp]; rfl) rfl
    case park =>
        split at hs <;> cases hs
        rw [← workerWait_workerGoto _ .waiting]
        exact workerWait_control (parked_control hc hp) rfl
    case waiting =>
        split at hs <;> cases hs
        exact workerWait_control hc hp
    case failing =>
        split at hs <;> cases hs
        obtain ⟨h1, h2, h3, h4, h5⟩ := hb
        refine .of_regions (w := .failed) rfl rfl ⟨h1, rfl, rfl, ?_⟩ hc.running
        obtain h5 | h5 | h5 := h5
        · exact .inl h5
        · exact .inr (.inl h5)
        · exact .inr (.inr (.inl h5))
    case failNotify =>
        split at hs <;> cases hs
        exact hc.same_region (.of_eq rfl) rfl (by rw [hp]; rfl) rfl
    case failCancel =>
        split at hs <;> cases hs
        obtain ⟨h1, h2, h3, h4⟩ := hb
        refine .of_regions (w := .exited) rfl rfl ⟨h1, h2, .inl ⟨h3, ?_⟩⟩ hc.running
        obtain h4 | h4 | h4 | h4 := h4
        · exact .inl h4
        · exact .inr (.inl h4)
        · exact .inr (.inr (.inl h4))
        · exact .inr (.inr (.inr (.inl h4)))

/-- **The baton**: every step of every interleaving keeps `Control`. -/
theorem step_control : Steps.Preserved (step profiles) Control := by
  intro s a s' hc hs
  cases a with
  | dispatcher i => exact dispatcher_control hc hs
  | worker i => exact worker_control hc hs
  | cancel =>
      cases hs
      exact hc.same_region (.of_eq rfl) rfl rfl rfl
  | shutdown =>
      cases hs
      exact hc.same_region (.of_eq rfl) rfl rfl rfl
  | wake t =>
      cases t <;> cases hs <;> exact hc.same_region (.of_eq rfl) rfl rfl rfl

end Steps

end ScxSlam.Executor
