import ScxSlam.Executor.Job
import ScxSlam.Executor.Protocol

/-!
# ScxSlam.Executor.Contract

The contract of `FreshnessExecutor::spin` over all interleavings: hint
ownership, the lifecycle of messages and callback groups, the trace of the
sink, and the admission of messages.
-/

namespace ScxSlam.Executor

/-! ## a run -/

/-- One group whose messages are observed and rejected once expired. -/
def tourProfiles : GroupId → Option ProfileBinding
  | 1 => some {
      profile := { relativeDeadlineNs := 50, rejectExpired := true }
      metadataExtractor := true
      observer := true }
  | _ => none

/-- `spin` until a first message of group 1 is being handled. -/
def tourHandling : List Action :=
  [.dispatcher .ok, .dispatcher .ok, .dispatcher .ok, .worker .ok, .worker (.pidTgid 7),
    .worker .ok, .worker .ok, .dispatcher .ok, .dispatcher .ok, .dispatcher .ok,
    .dispatcher (.selected (some 1) (some ⟨.rosMessage⟩)), .dispatcher .ok, .dispatcher .ok,
    .dispatcher .ok, .dispatcher (.metadata ⟨3, 90⟩), .dispatcher .ok, .dispatcher (.now 100),
    .dispatcher .ok, .dispatcher .ok, .dispatcher .ok, .worker .ok, .worker (.now 110), .worker .ok]

/-- The callback returns, a second message expires before it is published,
and `cancel` ends the run. -/
def tour : List Action :=
  tourHandling ++
    [.worker .ok, .worker .ok, .worker .ok, .worker .ok, .worker .ok, .dispatcher .ok,
      .dispatcher .ok, .dispatcher (.selected (some 1) (some ⟨.rosMessage⟩)), .dispatcher .ok,
      .dispatcher .ok, .dispatcher .ok, .dispatcher (.metadata ⟨4, 200⟩), .dispatcher .ok,
      .dispatcher (.now 300), .dispatcher .ok, .dispatcher .ok, .dispatcher .ok, .cancel,
      .dispatcher .ok, .dispatcher .ok, .dispatcher .ok, .dispatcher .ok, .worker .ok,
      .dispatcher .ok]

/-- Where a list of actions leads from a fresh executor. -/
def tourState (as : List Action) : State := (Steps.exec (step tourProfiles) {} as).getD {}

/-- A run that goes through ends in its state. -/
theorem tourState_exec {as : List Action}
    (h : (Steps.exec (step tourProfiles) {} as).isSome = true) :
    Steps.exec (step tourProfiles) {} as = some (tourState as) := by
  obtain ⟨s, hs⟩ := Option.isSome_iff_exists.mp h
  rw [tourState, hs]
  rfl

/-- The tour up to a callback. -/
theorem tourHandling_reachable : Reachable tourProfiles (tourState tourHandling) :=
  ⟨{}, tourHandling, ⟨rfl, rfl, rfl, rfl, rfl⟩, tourState_exec (by decide)⟩

/-- The whole tour is a run. -/
theorem tour_runs : Steps.exec (step tourProfiles) {} tour = some (tourState tour) :=
  tourState_exec (by decide)

/-- The end of the tour is a reachable state. -/
theorem tour_reachable : Reachable tourProfiles (tourState tour) :=
  ⟨{}, tour, ⟨rfl, rfl, rfl, rfl, rfl⟩, tour_runs⟩

section Contract

variable {profiles : GroupId → Option ProfileBinding} {s s' : State} {i : Input} {L : Ledger}

/-! ## hint ownership -/

/-- The work of a worker inside `execute_taken_subscription` or
`execute_any_executable`. -/
def WorkerPc.running? : WorkerPc → Option PendingWork
  | .enterHandler w | .handling w | .handlerReturn w _ | .handlerRelease w _ => some w
  | .executeAny w | .executing w => some w
  | _ => none

/-- Where the dispatcher calls `get_next_executable`, drops a message,
publishes, or hands over. -/
def DispatcherPc.commits : DispatcherPc → Bool
  | .getNext | .dropObserve _ | .publish _ | .handoff _ => true
  | _ => false

/-- The worker waits and has been assigned nothing. -/
def Parked (s : State) : Prop :=
  s.worker = .waiting ∧ s.workerIdle = true ∧ s.pending = none

/-- During a turn of the dispatcher the worker is parked. -/
theorem Control.parked (h : Control s) (ht : s.dispatcher.region = .turn) : Parked s := by
  obtain ⟨hw, hp, hi, -⟩ := h.turn ht
  exact ⟨hw, hi, hp⟩

/-- **Hint ownership**: while a callback runs, the last operation on the
sink is the publication of its own hint; and the dispatcher commits to new
work only while the worker is parked with nothing assigned. -/
theorem running_owns_hint (h : Reachable profiles s) :
    (∀ w, s.worker.running? = some w →
      (sinkOps s.log).getLast? = some (.publish s.workerId w.serial w.hint)) ∧
    (s.dispatcher.commits = true → Parked s) := by
  obtain ⟨L, hread, hc, hr⟩ := h.read
  constructor
  · intro w hw
    have hhint : s.worker.hinted? = some w := by
      cases hp : s.worker <;> simp_all [WorkerPc.running?, WorkerPc.hinted?, WorkerPc.work?]
    exact Ledger.last_op hread hr.worker (hr.busySlot w hhint)
  · intro hd
    refine hc.parked ?_
    cases hp : s.dispatcher <;> simp_all [DispatcherPc.commits, DispatcherPc.region]

/-- The callback of the tour runs under its own hint. -/
theorem running_owns_hint_tour :
    (sinkOps (tourState tourHandling).log).getLast? =
      some (.publish 7 1 { makeHint {} ⟨3, 90⟩ with deadlineTsNs := 140 }) :=
  (running_owns_hint tourHandling_reachable).1 _ rfl

/-! ## messages and groups -/

/-- Some party holds `w`. -/
def Held (s : State) (w : PendingWork) : Prop :=
  s.dispatcher.work? = some w ∨ s.pending = some w ∨ s.worker.work? = some w

/-- Work in hand is what the ledger says it is. -/
theorem Related.held (hr : Related s L) {w : PendingWork} (h : Held s w) : Holds L w := by
  obtain h | h | h := h
  · exact hr.turn w h
  · exact (hr.handed w h).1
  · exact hr.busy w h

/-- A selection nobody holds has nothing out. -/
theorem Related.unheld (hr : Related s L) {k : Nat} (h : ∀ w, Held s w → w.serial ≠ k)
    (hk : k = L.serial) : L.message = false ∧ L.owed = false := by
  have hnone : ∀ w, ¬Held s w := fun w hw => h w hw ((hr.held hw).serial.trans hk.symm)
  have free := fun (o : Option PendingWork) (ho : ∀ w, o = some w → Held s w) =>
    Option.eq_none_iff_forall_ne_some.mpr fun w hw => hnone w (ho w hw)
  obtain ⟨hm, ho, -⟩ := hr.free (free _ fun w hw => .inl hw) (free _ fun w hw => .inr (.inl hw))
    (free _ fun w hw => .inr (.inr hw))
  exact ⟨hm, ho⟩

/-- Nobody holds anything when `spin` has returned. -/
theorem Control.done (hc : Control s) {r : Option Failure} (hd : s.dispatcher = .done r) :
    ∀ w, ¬Held s w := by
  have hb := hc.baton
  rw [hd] at hb
  rintro w (h | h | h)
  · rw [hd] at h
    contradiction
  · cases hw : s.worker <;> rw [hw] at hb <;>
      simp [Baton, WorkerPc.region, DispatcherPc.region] at hb <;> simp_all
  · cases hw : s.worker <;> rw [hw] at hb h <;>
      simp [Baton, WorkerPc.region, DispatcherPc.region, WorkerPc.work?] at hb h

/-- **Message and group lifecycle**, whatever fails where.  A selection
creates at most one message, which is never given back more often than
created; once nobody holds its work the message is back and the group is
released, and when `spin` returns nobody holds anything; a group is released
neither while its message is out nor after a later selection. -/
theorem messages_and_groups_return (h : Reachable profiles s) :
    (∀ k l, l <+: s.log → l.count (.create k) ≤ 1 ∧
      l.count (.giveBack k) ≤ l.count (.create k)) ∧
    (∀ k, (∀ w, Held s w → w.serial ≠ k) →
      s.log.count (.giveBack k) = s.log.count (.create k) ∧
      ∀ g, .claim k (some g) ∈ s.log → .release k g ∈ s.log) ∧
    (∀ r, s.dispatcher = .done r → ∀ w, ¬Held s w) ∧
    (∀ w, Held s w → w.message.isSome = true → ∀ g, .release w.serial g ∉ s.log) ∧
    (∀ l k g l', s.log = l ++ .release k g :: l' → l.count (.giveBack k) = l.count (.create k) ∧
      ∀ k' g', .claim k' g' ∈ l → k' ≤ k) := by
  obtain ⟨L, hread, hc, hr⟩ := h.read
  refine ⟨?_, ?_, fun r hd => hc.done hd, ?_, ?_⟩
  · rintro k l ⟨l', hl⟩
    obtain ⟨L₁, hL₁, -⟩ := Steps.exec_split (hl ▸ hread)
    have ht := Ledger.traffic hL₁
    exact ⟨ht.once k, by rw [ht.out k]; exact Nat.le_add_right _ _⟩
  · intro k hk
    have ht := Ledger.traffic hread
    have hfree := hr.unheld hk
    constructor
    · rw [ht.out k]
      grind
    · intro g hg
      obtain hrel | ⟨hks, ho, -⟩ := ht.claimed k g hg
      · exact hrel
      · rw [(hfree hks).2] at ho
        contradiction
  · intro w hw hm g
    have hh := hr.held hw
    have hout : L.message = true := by
      rw [hh.message] at hm
      cases hL : L.message with
      | true => rfl
      | false => simp [hL] at hm
    rw [hh.serial]
    exact (Ledger.traffic hread).held (.inl hout) g
  · intro l k g l' hl
    obtain ⟨L₁, L₂, hL₁, hacc, -⟩ := Ledger.read_middle (hl ▸ hread)
    cases hacc with
    | release _ hg hm =>
        constructor
        · rw [(Ledger.traffic hL₁).out]
          simp [hm]
        · intro k' g' hmem
          exact Ledger.bounded hL₁ _ hmem k' rfl

/-- The second message of the tour goes back, and so does its group. -/
theorem messages_and_groups_return_tour :
    (tourState tour).log.count (.giveBack 2) = 1 ∧ Event.release 2 1 ∈ (tourState tour).log := by
  have h := messages_and_groups_return tour_reachable
  have hdone : (tourState tour).dispatcher = .done none := by decide
  obtain ⟨hcount, hrel⟩ := h.2.1 2 fun w hw => absurd hw (h.2.2.1 none hdone w)
  exact ⟨hcount, hrel 1 (by decide)⟩

/-! ## the trace of the sink -/

/-- The call to `clear` throws. -/
def Action.clearFails : Action → Bool
  | .dispatcher .clearThrows | .worker .clearThrows => true
  | _ => false

/-- Nothing is left to clear once the last wait is over. -/
def Swept (s : State) : Prop :=
  s.dispatcher.region = .closing ∨ s.dispatcher.region = .over → s.worker.region ≠ .absent →
    s.hintNeedsClear = false

/-- The flag is only raised by the handoff, and only the dispatcher's last
wait leads out of the loop. -/
theorem dispatcher_swept (hc : Control s) (hsw : Swept s) (hi : i ≠ .clearThrows)
    (hs : dispatcherStep profiles s i = some s') : Swept s' := by
  by_cases ht : s.dispatcher.region = .turn
  · by_cases hh : ∃ w, s.dispatcher = .handoff w
    · obtain ⟨w, hd⟩ := hh
      simp only [dispatcherStep, hd] at hs
      split at hs <;> cases hs
      simp [Swept, handoffStep, DispatcherPc.region]
    · obtain ⟨-, -, hr⟩ := turn_step hs ht (by simpa using hh)
      rintro (hd | hd) <;> obtain ⟨-, hr | hr⟩ | hr := hr <;> cases hd.symm.trans hr
  · cases hd : s.dispatcher <;> simp only [hd, DispatcherPc.region, not_true_eq_false] at ht <;>
      simp only [dispatcherStep, hd] at hs
    case entry | reset | spawn =>
        obtain ⟨hw, -, -⟩ := hc.absent (by rw [hd]; first | exact .inl rfl | exact .inr rfl)
        cases i <;> simp only [startStep, hd] at hs <;> try contradiction
        all_goals try split at hs
        all_goals cases hs
        all_goals simp [Swept, hw, DispatcherPc.region, WorkerPc.region]
    case waitReady | waitIdle =>
        simp only [waitReadyStep, waitIdleStep] at hs
        repeat' split at hs
        all_goals cases hs
        all_goals
          simp only [Swept, hd, DispatcherPc.region, State.goto, State.dispatchThrows] at hsw ⊢
          try split
          all_goals grind
    case finalWait =>
        simp only [finalWaitStep] at hs
        repeat' split at hs
        all_goals cases hs
        all_goals
          simp only [Swept, hd, DispatcherPc.region, State.goto, State.emit] at hsw ⊢
          grind
    case done => contradiction
    all_goals
      split at hs <;> cases hs
      simp only [Swept, hd, DispatcherPc.region, State.goto, State.notifyAll] at hsw ⊢
      try split
      all_goals grind

/-- Effects only the dispatcher has. -/
def Event.dispatched : Event → Bool
  | .claim _ _ | .create _ | .accept _ _ _ | .select _ _ | .publish _ _ _ => true
  | .check _ t _ | .drop _ t _ | .clear _ t => t = .dispatcher
  | _ => false

/-- Giving back dispatches nothing. -/
theorem returnEvents_dispatched (w : PendingWork) : ∀ e ∈ w.returnEvents, e.dispatched = false := by
  simp only [PendingWork.returnEvents]
  split <;> simp [Event.dispatched]

/-- Releasing dispatches nothing. -/
theorem releaseEvents_dispatched (e : AnyExecutable) :
    ∀ e' ∈ e.releaseEvents, e'.dispatched = false := by
  simp only [AnyExecutable.releaseEvents]
  split <;> simp [Event.dispatched]

/-- A waiting worker touches neither the dispatcher nor the log. -/
theorem workerWait_frame (s : State) : (workerWait s).dispatcher = s.dispatcher ∧
    (workerWait s).hintNeedsClear = s.hintNeedsClear ∧ (workerWait s).log = s.log := by
  simp only [workerWait]
  repeat' split
  all_goals exact ⟨rfl, rfl, rfl⟩

/-- What a worker step leaves alone. -/
theorem worker_frame (hs : workerStep s i = some s') : s'.dispatcher = s.dispatcher ∧
    (s'.hintNeedsClear = s.hintNeedsClear ∨ s'.hintNeedsClear = false) ∧
    ∃ es, s'.log = s.log ++ es ∧ ∀ e ∈ es, e.dispatched = false := by
  have quiet : ∀ s' : State, s'.dispatcher = s.dispatcher → s'.hintNeedsClear = s.hintNeedsClear →
      s'.log = s.log → s'.dispatcher = s.dispatcher ∧
        (s'.hintNeedsClear = s.hintNeedsClear ∨ s'.hintNeedsClear = false) ∧
        ∃ es, s'.log = s.log ++ es ∧ ∀ e ∈ es, e.dispatched = false :=
    fun s' h1 h2 h3 => ⟨h1, .inl h2, [], by rw [h3, List.append_nil], by simp⟩
  cases hp : s.worker <;> simp only [workerStep, hp] at hs
  case absent | exited => contradiction
  case park | waiting =>
      split at hs <;> cases hs
      obtain ⟨h1, h2, h3⟩ := workerWait_frame _
      exact quiet _ h1 h2 h3
  case admission w =>
      obtain ⟨-, rfl⟩ | ⟨b, now, -, rfl⟩ := admissionStep_cases hs
      · exact quiet _ rfl rfl rfl
      · exact ⟨rfl, .inl rfl, _, rfl, by simp [Event.dispatched]⟩
  case executing w =>
      cases i <;> simp only [executingStep] at hs <;> cases hs
      case executed released =>
          refine ⟨rfl, .inl rfl, _, rfl, ?_⟩
          cases released with
          | false => simp
          | true => exact releaseEvents_dispatched _
      case throws => exact quiet _ rfl rfl rfl
  case dropReturn w | handlerReturn w _ | catchReturn w =>
      split at hs <;> cases hs
      exact ⟨rfl, .inl rfl, _, rfl, returnEvents_dispatched w⟩
  case dropRelease w | handlerRelease w _ | catchRelease w | unwind w | destroy w =>
      split at hs <;> cases hs
      exact ⟨rfl, .inl rfl, _, rfl, releaseEvents_dispatched _⟩
  case catchFlag w =>
      split at hs <;> cases hs
      exact ⟨rfl, .inr rfl, [], (List.append_nil _).symm, by simp⟩
  all_goals try cases i <;> simp only [workerDropStep] at hs
  all_goals try split at hs
  all_goals cases hs
  all_goals first
    | exact quiet _ rfl rfl rfl
    | exact ⟨rfl, .inl rfl, _, rfl, by simp [Event.dispatched]⟩

/-- Every step but a failing clear keeps the sink swept. -/
theorem step_swept {a : Action} (hc : Control s) (hsw : Swept s) (ha : a.clearFails = false)
    (hs : step profiles s a = some s') : Swept s' := by
  cases a with
  | dispatcher i => exact dispatcher_swept hc hsw (by rintro rfl; contradiction) hs
  | worker i =>
      obtain ⟨hd, hcl, -⟩ := worker_frame hs
      have hpresent : s.worker.region ≠ .absent := by
        cases hp : s.worker <;> simp_all [WorkerPc.region, step, workerStep]
      intro hdr _
      have hoff := hsw (hd ▸ hdr) hpresent
      obtain hcl | hcl := hcl
      · exact hcl.trans hoff
      · exact hcl
  | cancel | shutdown =>
      cases hs
      exact hsw
  | wake t => cases t <;> cases hs <;> exact hsw

/-- **Sink trace**: when `spin` returns after its worker was created and no
clear failed, the sink has seen one publication for each published job and,
if there was any, exactly one clear at the end, all with one worker id. -/
theorem sink_publishes_then_clears {s₀ : State} {as : List Action} {r : Option Failure}
    (h₀ : Init s₀) (hrun : Steps.exec (step profiles) s₀ as = some s)
    (hclear : ∀ a ∈ as, a.clearFails = false) (hdone : s.dispatcher = .done r)
    (hworker : s.worker ≠ .absent) :
    sinkOps s.log =
      (publications s.log).map (fun p => .publish s.workerId p.1 p.2) ++
        if publications s.log = [] then [] else [.clear s.workerId] := by
  obtain ⟨L, hread, hc, hr⟩ := Reachable.read ⟨s₀, as, h₀, hrun⟩
  have hswept : Swept s := by
    have hkeep : ∀ (s : State) (a : Action) (s' : State), Control s ∧ Swept s →
        a.clearFails = false → step profiles s a = some s' → Control s' ∧ Swept s' :=
      fun s a s' hp ha hs => ⟨step_control s a s' hp.1 hs, step_swept hp.1 hp.2 ha hs⟩
    refine ((Steps.Along.of_forall hclear s₀).exec hkeep ⟨h₀.control, ?_⟩ hrun).2
    rw [Swept, h₀.dispatcher]
    simp [DispatcherPc.region]
  have hsink := Ledger.sink hread
  have hslot : L.slot = none := by
    have hpresent : s.worker.region ≠ .absent := by
      cases hp : s.worker <;> simp_all [WorkerPc.region]
    have hoff := hswept (.inr (by rw [hdone]; rfl)) hpresent
    simpa [hot, hoff, hdone, DispatcherPc.isHandoff] using hr.slot hpresent
  rw [hsink.ops s.workerId hr.worker]
  congr 1
  cases hcl : L.cleared with
  | true => simp [hsink.used hcl]
  | false =>
      have hlast := hsink.slot
      rw [hcl, hslot] at hlast
      have hnil : publications s.log = [] := List.getLast?_eq_none_iff.mp hlast.symm
      simp [hnil]

/-- One publication and one clear. -/
theorem sink_publishes_then_clears_tour :
    sinkOps (tourState tour).log =
      [.publish 7 1 { makeHint {} ⟨3, 90⟩ with deadlineTsNs := 140 }, .clear 7] := by
  have hdone : (tourState tour).dispatcher = .done none := by decide
  exact sink_publishes_then_clears ⟨rfl, rfl, rfl, rfl, rfl⟩ tour_runs (by decide) hdone (by decide)

end Contract

end ScxSlam.Executor
