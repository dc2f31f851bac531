import ScxSlam.Executor.Turn

/-!
# ScxSlam.Executor.Job

The worker's half of the refinement, and the refinement itself: the log of
every interleaving is accepted by the ledger (`step_refines`,
`Reachable.read`).
-/

namespace ScxSlam.Executor

section Job

variable {profiles : GroupId → Option ProfileBinding} {s s' : State} {i : Input} {L L' : Ledger}

/-! ## the worker's job -/

/-- While the worker holds the job, a worker step need only account for the
worker's own program point. -/
theorem Related.busy_next (hr : Related s L) (hc : Control s) (hw : s.worker.region = .busy)
    (hd : s'.dispatcher = s.dispatcher) (hp : s'.pending = s.pending)
    (hid : s'.workerId = s.workerId) (hser : s'.serial = s.serial)
    (hserial : L'.serial = L.serial)
    (hworker : L'.worker = none ∨ L'.worker = some s.workerId)
    (hcleared : L'.cleared = true → Retired s') (hslot : L'.slot.isSome = hot s')
    (hregion : s'.worker.region ≠ .absent ∧ s'.worker.region ≠ .starting)
    (hbusy : ∀ w, s'.worker.work? = some w → Holds L' w) (hstage : s'.worker.AtStage L')
    (hhint : ∀ w, s'.worker.hinted? = some w → L'.slot = some (w.serial, w.hint))
    (hfree : s'.worker.work? = none →
      L'.message = false ∧ L'.owed = false ∧ (L'.stage.settled = true ∨ Doomed s')) :
    Related s' L' := by
  obtain ⟨hpn, hdr⟩ := hc.busy hw
  have hdw : s.dispatcher.work? = none ∧ s.dispatcher.AtStage L' := by
    cases hpc : s.dispatcher <;> simp [hpc, DispatcherPc.region] at hdr <;>
      exact ⟨rfl, trivial⟩
  refine ⟨hserial.trans (hr.serial.trans hser.symm), ?_, ?_, hcleared, fun _ => hslot, ?_, ?_, ?_,
    hbusy, hstage, hhint, fun _ _ h => hfree h⟩
  · rintro (h | h)
    · exact absurd h hregion.1
    · exact absurd h hregion.2
  · rw [hid]
    exact hworker
  · rw [hd, hdw.1]
    simp
  · rw [hd]
    exact hdw.2
  · rw [hp, hpn]
    simp

/-- A busy step after which the worker still owns the hinted job. -/
theorem Related.busy_work {w w' : PendingWork} {es : List Event} (hr : Related s L)
    (hc : Control s) (hw : s.worker.region = .busy) (hhint : s.worker.hinted? = some w)
    (hlog : s'.log = s.log ++ es) (hread : Steps.exec Ledger.step L es = some L')
    (hd : (s'.dispatcher, s'.pending, s'.workerId, s'.serial, s'.hintNeedsClear, s'.dispatchError,
        s'.workerError) = (s.dispatcher, s.pending, s.workerId, s.serial, s.hintNeedsClear,
        s.dispatchError, s.workerError))
    (hsink : (L'.serial, L'.worker, L'.cleared, L'.slot) =
      (L.serial, L.worker, L.cleared, L.slot))
    (hregion : s'.worker.region = .busy) (hcf : s'.worker.isCatchFlag = false)
    (hwork : s'.worker.work? = some w') (hsame : w'.serial = w.serial ∧ w'.hint = w.hint)
    (hh : Holds L' w') (hstage : s'.worker.AtStage L') : Follows s s' L := by
  simp only [Prod.mk.injEq] at hd hsink
  obtain ⟨hd, hp, hid, hser, hcl, hde, hwe⟩ := hd
  obtain ⟨hserial, hworker, hcleared, hslot⟩ := hsink
  have hslotw := hr.busySlot w hhint
  have hcf0 : s.worker.isCatchFlag = false ∧ s.worker.hinted? = s.worker.work? := by
    cases hpc : s.worker <;> simp [hpc, WorkerPc.hinted?] at hhint <;> exact ⟨rfl, rfl⟩
  have hhinted : s'.worker.hinted? = some w' ∨ s'.worker.hinted? = none := by
    cases hpc : s'.worker <;> simp_all [WorkerPc.hinted?, WorkerPc.work?]
  refine ⟨es, L', hlog, hread, hr.busy_next hc hw hd hp hid hser hserial
    (by rw [hworker]; exact hr.worker) ?_ ?_ ?_ ?_ hstage ?_ ?_⟩
  · intro hL
    have hret : s.dispatchError.isSome = true ∨ s.workerError.isSome = true := by
      obtain hdr | hdr := (hc.busy hw).2 <;>
        simpa [Retired, Doomed, hw, hcf0.2, hdr] using hr.cleared (hcleared ▸ hL)
    refine .inl ?_
    rw [Doomed, hde, hwe]
    exact hret.imp id .inl
  · rw [hslot, hr.slot (by rw [hw]; simp)]
    simp only [hot, hcl, hd, hcf, hcf0.1]
  · rw [hregion]
    simp
  · intro w₁ h₁
    cases hwork.symm.trans h₁
    exact hh
  · intro w₁ h₁
    obtain h | h := hhinted
    · cases h.symm.trans h₁
      rw [hslot, hslotw, hsame.1, hsame.2]
    · cases h.symm.trans h₁
  · rw [hwork]
    simp

theorem admissionStep_follows {w : PendingWork} (hr : Related s L) (hc : Control s)
    (hp : s.worker = .admission w) (hs : admissionStep s w i = some s') : Follows s s' L := by
  have hw : s.worker.region = .busy := by rw [hp]; rfl
  have hh : Holds L w := hr.busy _ (by rw [hp]; rfl)
  have hhint : s.worker.hinted? = some w := by rw [hp]; rfl
  obtain ⟨hst, hm⟩ : L.stage = .published ∧ L.message = true := by
    simpa [hp, WorkerPc.AtStage] using hr.busyStage
  obtain ⟨-, rfl⟩ | ⟨b, now, hrej, rfl⟩ := admissionStep_cases hs
  · exact hr.busy_work hc hw hhint (List.append_nil _).symm rfl
      rfl rfl rfl rfl rfl ⟨rfl, rfl⟩ hh trivial
  · have hread : Steps.exec Ledger.step L [.check w.serial .worker b] =
        some { L with stage := if b then .expired else .admitted } := by
      rw [hh.reject] at hrej
      simp only [Steps.exec_singleton, Ledger.step, hh.serial, true_and]
      exact if_pos ⟨hst, hm, hrej⟩
    have hpc : ∀ pc : WorkerPc, pc = (if b then .dropObserve w else .enterHandler w) →
        pc.region = .busy ∧ pc.isCatchFlag = false ∧ pc.work? = some w ∧
          pc.AtStage { L with stage := if b then .expired else .admitted } := by
      rintro pc rfl
      cases b <;> exact ⟨rfl, rfl, rfl, rfl⟩
    obtain ⟨h1, h2, h3, h4⟩ := hpc _ rfl
    exact hr.busy_work hc hw hhint rfl hread rfl rfl h1 h2 h3 ⟨rfl, rfl⟩ (hh.at_stage _) h4

theorem workerDropStep_follows {w : PendingWork} (hr : Related s L) (hc : Control s)
    (hp : s.worker = .dropObserve w) (hs : workerDropStep s w i = some s') : Follows s s' L := by
  have hw : s.worker.region = .busy := by rw [hp]; rfl
  have hh : Holds L w := hr.busy _ (by rw [hp]; rfl)
  have hhint : s.worker.hinted? = some w := by rw [hp]; rfl
  have hst : L.stage = .expired := by simpa [hp, WorkerPc.AtStage] using hr.busyStage
  have hread : Steps.exec Ledger.step L [.drop w.serial .worker w.observer] =
      some { L with stage := .dropped } := by
    simp [Ledger.step, hh.serial, hh.observer, hst]
  cases i <;> simp only [workerDropStep] at hs <;> try contradiction
  case ok =>
      cases hs
      exact hr.busy_work hc hw hhint rfl hread rfl rfl rfl rfl rfl ⟨rfl, rfl⟩
        (hh.at_stage _) rfl
  case throws =>
      split at hs <;> cases hs
      exact hr.busy_work hc hw hhint rfl hread rfl rfl rfl rfl rfl ⟨rfl, rfl⟩
        (hh.at_stage _) trivial

/-- Giving the message back on the worker. -/
theorem Related.busy_return {w : PendingWork} (hr : Related s L) (hc : Control s)
    (hw : s.worker.region = .busy) (hwork : s.worker.work? = some w)
    (hhint : s.worker.hinted? = some w) {pc : WorkerPc} (hregion : pc.region = .busy)
    (hcf : pc.isCatchFlag = false) (hpc : pc.work? = some w.returned)
    (hstage : pc.AtStage { L with message := false }) :
    Follows s ((s.emit w.returnEvents).workerGoto pc) L :=
  hr.busy_work hc hw hhint rfl (hr.busy w hwork).read_return
    rfl rfl hregion hcf hpc
    ⟨w.serial_returned, w.hint_returned⟩ (hr.busy w hwork).returned hstage

/-- Releasing the group on the worker. -/
theorem Related.busy_release {w : PendingWork} (hr : Related s L) (hc : Control s)
    (hw : s.worker.region = .busy) (hwork : s.worker.work? = some w)
    (hhint : s.worker.hinted? = some w) (hm : L.message = false) {pc : WorkerPc}
    (hregion : pc.region = .busy) (hcf : pc.isCatchFlag = false)
    (hpc : pc.work? = some w.released) (hstage : pc.AtStage { L with owed := false }) :
    Follows s ((s.emit w.executable.releaseEvents).workerGoto pc) L :=
  hr.busy_work hc hw hhint rfl ((hr.busy w hwork).read_release hm)
    rfl rfl hregion hcf hpc ⟨rfl, rfl⟩
    (hr.busy w hwork).released hstage

theorem executingStep_follows {w : PendingWork} (hr : Related s L) (hc : Control s)
    (hp : s.worker = .executing w) (hs : executingStep s w i = some s') : Follows s s' L := by
  have hw : s.worker.region = .busy := by rw [hp]; rfl
  have hh : Holds L w := hr.busy _ (by rw [hp]; rfl)
  have hhint : s.worker.hinted? = some w := by rw [hp]; rfl
  obtain ⟨hst, hm⟩ : L.stage = .entered ∧ L.message = false := by
    simpa [hp, WorkerPc.AtStage] using hr.busyStage
  cases i <;> simp only [executingStep] at hs <;> try contradiction
  case executed released =>
      cases hs
      cases released with
      | false =>
          exact hr.busy_work hc hw hhint rfl rfl rfl rfl rfl rfl rfl ⟨rfl, rfl⟩ hh
            ⟨by rw [hst]; rfl, hm⟩
      | true =>
          exact hr.busy_work hc hw hhint rfl (hh.read_release hm)
            rfl rfl rfl rfl rfl ⟨rfl, rfl⟩
            hh.settle ⟨by rw [hst]; rfl, hm⟩
  case throws =>
      cases hs
      exact hr.busy_work hc hw hhint (List.append_nil _).symm rfl
        rfl rfl rfl rfl rfl ⟨rfl, rfl⟩ hh trivial

/-- The worker's own clear. -/
theorem catchClear_follows {w : PendingWork} (hr : Related s L) (hc : Control s)
    (hp : s.worker = .catchClear w) :
    Follows s ((s.emit [.clear s.workerId .worker]).workerGoto (.catchFlag w)) L := by
  have hw : s.worker.region = .busy := by rw [hp]; rfl
  have hh : Holds L w := hr.busy _ (by rw [hp]; rfl)
  have hslot : L.slot = some (w.serial, w.hint) := hr.busySlot w (by rw [hp]; rfl)
  have hm : L.message = false := by simpa [hp, WorkerPc.AtStage] using hr.busyStage
  refine ⟨[.clear s.workerId .worker], { L with
      slot := none
      worker := some s.workerId
      cleared := true }, rfl, ?_, hr.busy_next hc hw rfl rfl rfl rfl rfl (.inr rfl)
        (fun _ => .inr (.inl (by rintro ⟨⟩))) ?_ ⟨by rintro ⟨⟩, by rintro ⟨⟩⟩ ?_ hm
        (by rintro _ ⟨⟩) (by rintro ⟨⟩)⟩
  · simp only [Steps.exec_singleton, Ledger.step]
    exact if_pos ⟨by rw [hslot]; rfl, hr.worker⟩
  · simp [hot, WorkerPc.isCatchFlag]
  · rintro w' ⟨⟩
    exact ⟨hh.serial, hh.message, hh.subscription, hh.group, hh.owed, hh.observer, hh.reject⟩

/-- The worker tells the dispatcher that nothing is left to clear. -/
theorem catchFlag_follows {w : PendingWork} (hr : Related s L) (hc : Control s)
    (hp : s.worker = .catchFlag w) :
    Follows s ({ s with hintNeedsClear := false }.workerGoto (.unwind w)) L := by
  have hw : s.worker.region = .busy := by rw [hp]; rfl
  have hslot : L.slot.isSome = false := by
    rw [hr.slot (by rw [hw]; rintro ⟨⟩)]
    simp [hot, hp, WorkerPc.isCatchFlag]
  have hhand : s.dispatcher.isHandoff = false := by
    obtain h | h := (hc.busy hw).2 <;> cases hd : s.dispatcher <;>
      simp_all [DispatcherPc.region, DispatcherPc.isHandoff]
  refine ⟨[], L, (List.append_nil _).symm, rfl, hr.busy_next hc hw rfl rfl rfl rfl rfl hr.worker
    (fun _ => .inr (.inl (by rintro ⟨⟩))) ?_ ⟨by rintro ⟨⟩, by rintro ⟨⟩⟩ ?_ ?_
    (by rintro _ ⟨⟩) (by rintro ⟨⟩)⟩
  · simp [hslot, hot, hhand]
  · rintro w' ⟨⟩
    exact hr.busy _ (by rw [hp]; rfl)
  · simpa [hp, WorkerPc.AtStage] using hr.busyStage

/-- The job leaves the worker: its executable is destroyed. -/
theorem Related.busy_leave {w : PendingWork} {pc : WorkerPc} (hr : Related s L) (hc : Control s)
    (hw : s.worker.region = .busy) (hwork : s.worker.work? = some w)
    (hcf : s.worker.isCatchFlag = false) (hm : L.message = false)
    (hpc : pc = .failing ∨ pc = .park ∧ L.stage.settled = true ∧
      s.worker.hinted? = s.worker.work?) :
    Follows s ((s.emit w.executable.releaseEvents).workerGoto pc) L := by
  have hwork' : pc.work? = none ∧ pc.hinted? = none ∧ pc.isCatchFlag = false ∧
      pc.region ≠ .absent ∧ pc.region ≠ .starting ∧ pc.AtStage { L with owed := false } := by
    obtain rfl | ⟨rfl, -⟩ := hpc <;> exact ⟨rfl, rfl, rfl, by rintro ⟨⟩, by rintro ⟨⟩, trivial⟩
  obtain ⟨h1, h2, h3, h4, h5, h6⟩ := hwork'
  refine ⟨w.executable.releaseEvents, { L with owed := false }, rfl,
    (hr.busy w hwork).read_release hm, hr.busy_next hc hw rfl rfl rfl rfl rfl hr.worker ?_ ?_
      ⟨h4, h5⟩ ?_ h6 ?_ ?_⟩
  · intro hcl
    obtain rfl | ⟨rfl, -, hhw⟩ := hpc
    · exact .inl (.inr (.inr rfl))
    · have hret := hr.cleared hcl
      obtain hdr | hdr := (hc.busy hw).2
      all_goals
        simp only [Retired, hhw, hdr, Doomed, hw] at hret
        have hret : s.dispatchError.isSome = true ∨ s.workerError.isSome = true := by
          simpa using hret
        exact .inl (hret.imp id .inl)
  · simpa [hot, h3, hcf] using hr.slot (by rw [hw]; rintro ⟨⟩)
  · simp [h1]
  · simp [h2]
  · intro _
    obtain rfl | ⟨rfl, hst, -⟩ := hpc
    · exact ⟨hm, rfl, .inr (.inr (.inr rfl))⟩
    · exact ⟨hm, rfl, .inl hst⟩

/-- Every step of a worker that holds the job. -/
theorem busy_follows (hr : Related s L) (hc : Control s) (hw : s.worker.region = .busy)
    (hs : workerStep s i = some s') : Follows s s' L := by
  have hstage := hr.busyStage
  cases hp : s.worker <;> simp only [hp, WorkerPc.region, reduceCtorEq] at hw <;>
    simp only [workerStep, hp] at hs <;> rw [hp] at hstage
  case admission w => exact admissionStep_follows hr hc hp hs
  case dropObserve w => exact workerDropStep_follows hr hc hp hs
  case dropReturn w =>
      split at hs <;> cases hs
      exact hr.busy_return hc (by rw [hp]; rfl) (by rw [hp]; rfl) (by rw [hp]; rfl) rfl rfl rfl
        ⟨hstage, rfl⟩
  case dropRelease w =>
      split at hs <;> cases hs
      exact hr.busy_release hc (by rw [hp]; rfl) (by rw [hp]; rfl) (by rw [hp]; rfl) hstage.2
        rfl rfl rfl ⟨by rw [hstage.1]; rfl, hstage.2⟩
  case enterHandler w =>
      split at hs <;> cases hs
      have hh : Holds L w := hr.busy _ (by rw [hp]; rfl)
      have hread : Steps.exec Ledger.step L [.handle w.serial] =
          some { L with stage := .entered } := by
        simp only [Steps.exec_singleton, Ledger.step, hh.serial]
        exact if_pos ⟨trivial, hstage⟩
      exact hr.busy_work hc (by rw [hp]; rfl) (by rw [hp]; rfl) rfl hread
        rfl rfl rfl rfl rfl ⟨rfl, rfl⟩
        (hh.at_stage _) rfl
  case handling w =>
      have hh : Holds L w := hr.busy _ (by rw [hp]; rfl)
      cases i <;> simp only at hs <;> cases hs <;>
        exact hr.busy_work hc (by rw [hp]; rfl) (by rw [hp]; rfl) (List.append_nil _).symm rfl
          rfl rfl rfl rfl rfl ⟨rfl, rfl⟩ hh hstage
  case handlerReturn w thrown =>
      split at hs <;> cases hs
      exact hr.busy_return hc (by rw [hp]; rfl) (by rw [hp]; rfl) (by rw [hp]; rfl) rfl rfl rfl
        ⟨hstage, rfl⟩
  case handlerRelease w thrown =>
      split at hs <;> cases hs
      cases thrown with
      | false =>
          exact hr.busy_release hc (by rw [hp]; rfl) (by rw [hp]; rfl) (by rw [hp]; rfl) hstage.2
            rfl rfl rfl ⟨by rw [hstage.1]; rfl, hstage.2⟩
      | true =>
          exact hr.busy_release hc (by rw [hp]; rfl) (by rw [hp]; rfl) (by rw [hp]; rfl) hstage.2
            rfl rfl rfl trivial
  case executeAny w =>
      split at hs <;> cases hs
      have hh : Holds L w := hr.busy _ (by rw [hp]; rfl)
      have hread : Steps.exec Ledger.step L [.execute w.serial] =
          some { L with stage := .entered } := by
        simp only [Steps.exec_singleton, Ledger.step, hh.serial]
        exact if_pos ⟨trivial, hstage⟩
      exact hr.busy_work hc (by rw [hp]; rfl) (by rw [hp]; rfl) rfl hread
        rfl rfl rfl rfl rfl ⟨rfl, rfl⟩
        (hh.at_stage _) ⟨rfl, hstage.2⟩
  case executing w => exact executingStep_follows hr hc hp hs
  case catchReturn w =>
      split at hs <;> cases hs
      exact hr.busy_return hc (by rw [hp]; rfl) (by rw [hp]; rfl) (by rw [hp]; rfl) rfl rfl rfl rfl
  case catchRelease w =>
      split at hs <;> cases hs
      exact hr.busy_release hc (by rw [hp]; rfl) (by rw [hp]; rfl) (by rw [hp]; rfl) hstage
        rfl rfl rfl hstage
  case catchClear w =>
      cases i <;> simp only at hs <;> cases hs
      case ok => exact catchClear_follows hr hc hp
      case clearThrows =>
          exact hr.busy_work hc (by rw [hp]; rfl) (by rw [hp]; rfl) (List.append_nil _).symm rfl
            rfl rfl rfl rfl rfl ⟨rfl, rfl⟩
            (hr.busy _ (by rw [hp]; rfl)) hstage
  case catchFlag w =>
      split at hs <;> cases hs
      exact catchFlag_follows hr hc hp
  case unwind w =>
      split at hs <;> cases hs
      exact hr.busy_leave hc (by rw [hp]; rfl) (by rw [hp]; rfl) (by rw [hp]; rfl) hstage (.inl rfl)
  case destroy w =>
      split at hs <;> cases hs
      exact hr.busy_leave hc (by rw [hp]; rfl) (by rw [hp]; rfl) (by rw [hp]; rfl) hstage.2
        (.inr ⟨rfl, hstage.1, by rw [hp]; rfl⟩)

/-! ## steps outside the job -/

/-- A step that moves no job, no message, no group and no sink operation. -/
theorem Related.frame (hr : Related s L) (hp : s'.pending = s.pending)
    (hser : s'.serial = s.serial) (hid : L.worker = none ∨ L.worker = some s'.workerId)
    (hd : s'.dispatcher.work? = s.dispatcher.work?) (hds : s'.dispatcher.AtStage L)
    (hw : s'.worker.work? = s.worker.work?) (hws : s'.worker.AtStage L)
    (hwh : s'.worker.hinted? = s.worker.hinted?)
    (hboot : s'.worker.region = .absent ∨ s'.worker.region = .starting → L = {})
    (hslot : s'.worker.region ≠ .absent → L.slot.isSome = hot s')
    (hdoom : Doomed s → Doomed s') (hret : Retired s → Retired s') : Related s' L := by
  refine ⟨hr.serial.trans hser.symm, hboot, hid, fun h => hret (hr.cleared h), hslot, ?_, hds, ?_,
    ?_, hws, ?_, ?_⟩
  · rw [hd]
    exact hr.turn
  · rw [hp]
    exact hr.handed
  · rw [hw]
    exact hr.busy
  · rw [hwh]
    exact hr.busySlot
  · rw [hd, hp, hw]
    intro h1 h2 h3
    obtain ⟨h4, h5, h6⟩ := hr.free h1 h2 h3
    exact ⟨h4, h5, h6.imp id hdoom⟩

/-- A step without effects keeps the ledger. -/
theorem Related.follows (hr : Related s' L) (hlog : s'.log = s.log) : Follows s s' L :=
  ⟨[], L, hlog.trans (List.append_nil _).symm, rfl, hr⟩

/-- A dispatcher step between its turns that leaves the sink alone. -/
theorem Related.dispatcher_frame (hr : Related s L) (hlog : s'.log = s.log)
    (hp : s'.pending = s.pending) (hser : s'.serial = s.serial)
    (hid : s'.workerId = s.workerId) (hw : s'.worker = s.worker)
    (hcl : s'.hintNeedsClear = s.hintNeedsClear)
    (hd : s.dispatcher.work? = none ∧ s'.dispatcher.work? = none)
    (hhand : s.dispatcher.isHandoff = false ∧ s'.dispatcher.isHandoff = false)
    (hds : s'.dispatcher.AtStage L)
    (hde : s.dispatchError.isSome = true → s'.dispatchError.isSome = true)
    (hwe : s'.workerError = s.workerError)
    (hover : s.dispatcher.region = .closing ∨ s.dispatcher.region = .over →
      s'.dispatcher.region = .closing ∨ s'.dispatcher.region = .over) : Follows s s' L := by
  have hdoom : Doomed s → Doomed s' := by
    rw [Doomed, Doomed, hw, hwe]
    exact Or.imp hde id
  refine (hr.frame hp hser (by rw [hid]; exact hr.worker) (hd.2.trans hd.1.symm) hds
    (by rw [hw]) (by rw [hw]; exact hr.busyStage) (by rw [hw]) (by rw [hw]; exact hr.boot) ?_
    hdoom ?_).follows hlog
  · intro h
    rw [hr.slot (by rwa [hw] at h)]
    simp only [hot, hcl, hw, hhand]
  · rintro (h | h | h)
    · exact .inl (hdoom h)
    · exact .inr (.inl (by rwa [hw]))
    · exact .inr (.inr (hover h))

/-- A step of a worker that holds no job and takes none. -/
theorem Related.worker_frame (hr : Related s L) (hp : s'.pending = s.pending)
    (hser : s'.serial = s.serial)
    (hid : L.worker = none ∨ L.worker = some s'.workerId) (hd : s'.dispatcher = s.dispatcher)
    (hcl : s'.hintNeedsClear = s.hintNeedsClear)
    (hw : s.worker.work? = none ∧ s'.worker.work? = none) (hpresent : s.worker.region ≠ .absent)
    (hboot : s'.worker.region = .absent ∨ s'.worker.region = .starting →
      s.worker.region = .starting)
    (hdoom : Doomed s → Doomed s') : Related s' L := by
  have idle : ∀ pc : WorkerPc, pc.work? = none →
      pc.hinted? = none ∧ pc.isCatchFlag = false ∧ pc.AtStage L := by
    intro pc hpc
    cases pc <;> simp [WorkerPc.work?] at hpc <;> exact ⟨rfl, rfl, trivial⟩
  obtain ⟨hh, hcf, -⟩ := idle _ hw.1
  obtain ⟨hh', hcf', hst'⟩ := idle _ hw.2
  refine hr.frame hp hser hid (by rw [hd]) (by rw [hd]; exact hr.turnStage)
    (hw.2.trans hw.1.symm) hst' (hh'.trans hh.symm) (fun h => hr.boot (.inr (hboot h))) ?_ hdoom ?_
  · intro _
    rw [hr.slot hpresent]
    simp only [hot, hcl, hd, hcf, hcf']
  · rintro (h | h | h)
    · exact .inl (hdoom h)
    · exact absurd (hh.trans hw.1.symm) h
    · exact .inr (.inr (by rwa [hd]))

theorem Related.worker_quiet (hr : Related s L) (hlog : s'.log = s.log)
    (hp : s'.pending = s.pending) (hser : s'.serial = s.serial)
    (hid : L.worker = none ∨ L.worker = some s'.workerId) (hd : s'.dispatcher = s.dispatcher)
    (hcl : s'.hintNeedsClear = s.hintNeedsClear)
    (hw : s.worker.work? = none ∧ s'.worker.work? = none) (hpresent : s.worker.region ≠ .absent)
    (hboot : s'.worker.region = .absent ∨ s'.worker.region = .starting →
      s.worker.region = .starting)
    (hdoom : Doomed s → Doomed s') : Follows s s' L :=
  (hr.worker_frame hp hser hid hd hcl hw hpresent hboot hdoom).follows hlog

/-- Before the worker exists the ledger is blank. -/
theorem Related.blank (hser : s'.serial = 0) (hp : s'.pending = none)
    (hd : s'.dispatcher.work? = none) (hds : s'.dispatcher.AtStage {})
    (hw : s'.worker = .absent ∨ s'.worker = .configuring ∧ hot s' = false) :
    Related s' {} := by
  have hw' : s'.worker.work? = none ∧ s'.worker.hinted? = none ∧ s'.worker.AtStage {} := by
    obtain hw | ⟨hw, -⟩ := hw <;> rw [hw] <;> exact ⟨rfl, rfl, trivial⟩
  refine ⟨hser.symm, fun _ => rfl, .inl rfl, nofun, ?_, ?_, hds, ?_, ?_, hw'.2.2, ?_,
    fun _ _ _ => ⟨rfl, rfl, .inl rfl⟩⟩
  · intro h
    obtain hw | ⟨-, hw⟩ := hw
    · rw [hw] at h
      exact absurd rfl h
    · exact hw.symm
  · rw [hd]
    nofun
  · rw [hp]
    nofun
  · rw [hw'.1]
    nofun
  · rw [hw'.2.1]
    nofun

theorem startStep_follows (hr : Related s L) (hc : Control s) (hs : startStep s i = some s') :
    Follows s s' L := by
  have blank : s.worker = .absent → L = {} ∧ s.serial = 0 := by
    intro hw
    have hL : L = {} := hr.boot (.inl (by rw [hw]; rfl))
    exact ⟨hL, by rw [← hr.serial, hL]⟩
  cases i <;> simp only [startStep] at hs <;> try contradiction
  case ok =>
      cases hd : s.dispatcher <;> simp only [hd] at hs <;> try contradiction
      case entry =>
          obtain ⟨hw, hp, -⟩ := hc.absent (.inl (by rw [hd]; rfl))
          obtain ⟨rfl, hser⟩ := blank hw
          split at hs <;> cases hs <;>
            exact ⟨[], {}, (List.append_nil _).symm, rfl, .blank hser hp rfl trivial (.inl hw)⟩
      case reset =>
          obtain ⟨hw, -, -⟩ := hc.absent (.inl (by rw [hd]; rfl))
          obtain ⟨rfl, hser⟩ := blank hw
          cases hs
          exact ⟨[], {}, (List.append_nil _).symm, rfl, .blank hser rfl rfl trivial (.inl hw)⟩
      case spawn =>
          obtain ⟨hw, hp, hf⟩ := hc.absent (.inr (by rw [hd]; rfl))
          obtain ⟨rfl, hser⟩ := blank hw
          cases hs
          refine ⟨[], {}, (List.append_nil _).symm, rfl,
            .blank hser hp rfl trivial (.inr ⟨rfl, ?_⟩)⟩
          simp [hot, (hf (by rw [hd]; rfl)).clear, DispatcherPc.isHandoff]
  case throws =>
      split at hs <;> cases hs
      next hd =>
        obtain ⟨hw, hp, -⟩ := hc.absent (.inr (by rw [hd]; rfl))
        obtain ⟨rfl, hser⟩ := blank hw
        exact ⟨[], {}, (List.append_nil _).symm, rfl, .blank hser hp rfl trivial (.inl hw)⟩

/-- The dispatcher's last wait, with its clear. -/
theorem finalWaitStep_follows (hr : Related s L) (hc : Control s) (hd : s.dispatcher = .finalWait)
    (hs : finalWaitStep s i = some s') : Follows s s' L := by
  have hdw : s.dispatcher.work? = none ∧ s.dispatcher.isHandoff = false := by
    rw [hd]; exact ⟨rfl, rfl⟩
  have hnot : ¬(s.dispatcher.region = .closing ∨ s.dispatcher.region = .over) := by
    rw [hd]; simp [DispatcherPc.region]
  simp only [finalWaitStep] at hs
  split at hs
  · contradiction
  · split at hs
    · next hready =>
      have hb := hc.baton
      rw [hd] at hb
      have hidle : s.worker.region ≠ .absent ∧ s.worker.work? = none ∧ s.pending = none ∧
          s.worker.isCatchFlag = false := by
        cases hw : s.worker <;> rw [hw] at hb <;>
          simp only [Baton, WorkerPc.region, DispatcherPc.region] at hb <;>
          grind [WorkerPc.work?, WorkerPc.region, WorkerPc.isCatchFlag, State.Fresh]
      obtain ⟨hpresent, hwork, hpend, hcf⟩ := hidle
      split at hs
      · next hneeds =>
        split at hs <;> cases hs
        · have hslot : L.slot.isSome = true := by
            rw [hr.slot hpresent]
            simp [hot, hneeds, hcf]
          have hh : s.worker.hinted? = none ∧ s.worker.AtStage L := by
            cases hw : s.worker <;> simp [hw, WorkerPc.work?] at hwork <;> exact ⟨rfl, trivial⟩
          obtain ⟨h1, h2, h3⟩ := hr.free hdw.1 hpend hwork
          refine ⟨[.clear s.workerId .dispatcher], { L with
              slot := none
              worker := some s.workerId
              cleared := true }, rfl, ?_, hr.serial, ?_, .inr rfl, fun _ => .inr (.inr (.inl rfl)),
            ?_, by rintro _ ⟨⟩, trivial, ?_, ?_, ?_, ?_, fun _ _ _ => ⟨h1, h2, h3.imp id ?_⟩⟩
          · simp only [Steps.exec_singleton, Ledger.step]
            exact if_pos ⟨hslot, hr.worker⟩
          · intro h
            rw [hr.boot h] at hslot
            contradiction
          · simp [hot, DispatcherPc.isHandoff]
          · simp [hpend]
          · simp [hwork]
          · cases hw : s.worker <;> simp [hw, WorkerPc.work?] at hwork <;>
              exact trivial
          · simp [hh.1]
          · simp [Doomed]
        · exact hr.dispatcher_frame rfl rfl rfl rfl rfl rfl ⟨hdw.1, rfl⟩ ⟨hdw.2, rfl⟩ trivial
            (fun _ => rfl) rfl fun h => absurd h hnot
      · split at hs <;> cases hs
        exact hr.dispatcher_frame rfl rfl rfl rfl rfl rfl ⟨hdw.1, rfl⟩ ⟨hdw.2, rfl⟩ trivial
          id rfl fun h => absurd h hnot
    · split at hs <;> cases hs
      exact hr.dispatcher_frame rfl rfl rfl rfl rfl rfl ⟨hdw.1, hdw.1⟩ ⟨hdw.2, hdw.2⟩
        hr.turnStage id rfl id

theorem waitIdleStep_follows (hr : Related s L) (hc : Control s) (hd : s.dispatcher = .waitIdle)
    (hs : waitIdleStep s = some s') : Follows s s' L := by
  have hc' := waitIdleStep_control hc hd hs
  have hdw : s.dispatcher.work? = none ∧ s.dispatcher.isHandoff = false := by
    rw [hd]; exact ⟨rfl, rfl⟩
  have hnot : ¬(s.dispatcher.region = .closing ∨ s.dispatcher.region = .over) := by
    rw [hd]; nofun
  simp only [waitIdleStep] at hs
  split at hs
  · contradiction
  · split at hs
    · split at hs
      · cases hs
        exact hr.dispatcher_frame rfl rfl rfl rfl rfl rfl ⟨hdw.1, rfl⟩ ⟨hdw.2, rfl⟩ trivial
          (fun _ => rfl) rfl fun h => absurd h hnot
      · cases hs
        by_cases hsp : s.spinning
        · rw [if_pos hsp] at hc' ⊢
          obtain ⟨hw, hp, -, he, -⟩ := hc'.turn rfl
          have hde := hc'.running rfl
          obtain ⟨-, -, hst⟩ := hr.free hdw.1 hp (by rw [show s.worker = _ from hw]; rfl)
          have hst : L.stage.settled = true := by
            refine hst.resolve_right ?_
            rw [Doomed, show s.dispatchError = none from hde, show s.workerError = none from he,
              show s.worker = _ from hw]
            simp [WorkerPc.region]
          exact hr.dispatcher_frame rfl rfl rfl rfl rfl rfl ⟨hdw.1, rfl⟩ ⟨hdw.2, rfl⟩ hst id rfl
            fun h => absurd h hnot
        · rw [if_neg hsp]
          exact hr.dispatcher_frame rfl rfl rfl rfl rfl rfl ⟨hdw.1, rfl⟩ ⟨hdw.2, rfl⟩ trivial id
            rfl fun h => absurd h hnot
    · cases hs
      exact hr.dispatcher_frame rfl rfl rfl rfl rfl rfl ⟨hdw.1, hdw.1⟩ ⟨hdw.2, hdw.2⟩
        hr.turnStage id rfl id

/-- Every step of the dispatcher. -/
theorem dispatcher_follows (hr : Related s L) (hc : Control s)
    (hs : dispatcherStep profiles s i = some s') : Follows s s' L := by
  have quiet : ∀ pc : DispatcherPc, s.dispatcher.work? = none → s.dispatcher.isHandoff = false →
      pc.work? = none → pc.isHandoff = false → pc.AtStage L →
      (s.dispatcher.region = .closing ∨ s.dispatcher.region = .over →
        pc.region = .closing ∨ pc.region = .over) → Follows s (s.goto pc) L :=
    fun pc h1 h2 h3 h4 h5 h6 => hr.dispatcher_frame rfl rfl rfl rfl rfl rfl ⟨h1, h3⟩ ⟨h2, h4⟩ h5
      id rfl h6
  cases hd : s.dispatcher <;> simp only [dispatcherStep, hd] at hs
  case entry | reset | spawn => exact startStep_follows hr hc hs
  case waitReady =>
      split at hs
      · simp only [waitReadyStep] at hs
        split at hs
        · contradiction
        · split at hs
          · split at hs <;> cases hs
            · exact hr.dispatcher_frame rfl rfl rfl rfl rfl rfl (by rw [hd]; exact ⟨rfl, rfl⟩)
                (by rw [hd]; exact ⟨rfl, rfl⟩) trivial (fun _ => rfl) rfl
                (by rw [hd]; simp [DispatcherPc.region])
            · exact quiet _ (by rw [hd]; rfl) (by rw [hd]; rfl) rfl rfl trivial
                (by rw [hd]; simp [DispatcherPc.region])
          · cases hs
            exact hr.dispatcher_frame rfl rfl rfl rfl rfl rfl (by rw [hd]; exact ⟨rfl, rfl⟩)
              (by rw [hd]; exact ⟨rfl, rfl⟩) hr.turnStage id rfl id
      · contradiction
  case loopHead =>
      split at hs <;> cases hs
      refine quiet _ (by rw [hd]; rfl) (by rw [hd]; rfl) ?_ ?_ ?_
        (by rw [hd]; simp [DispatcherPc.region]) <;>
        split <;> first | rfl | trivial
  case waitIdle =>
      split at hs
      · exact waitIdleStep_follows hr hc hd hs
      · contradiction
  case getNext => exact getNextStep_follows hr hc hd hs
  case bind e => exact bindStep_follows hr hc hd hs
  case createMessage w b => exact createStep_follows hr hc hd hs
  case take w b => exact takeStep_follows hr hc hd hs
  case extract w b => exact extractStep_follows hr hc hd hs
  case observeSelected w => exact observeSelectedStep_follows hr hc hd hs
  case checkExpired w => exact dispatchCheckStep_follows hr hc hd hs
  case dropObserve w => exact dispatchDropStep_follows hr hc hd hs
  case makeHint w b => exact makeHintStep_follows hr hc hd hs
  case publish w => exact publishStep_follows hr hc hd hs
  case returnMessage w after =>
      split at hs <;> cases hs
      exact returnMessage_follows hr hc hd
  case releaseGroup w after =>
      have hf := releaseGroup_follows hr hc hd
      split at hs <;> cases after <;> cases hs <;> exact hf
  case handoff w =>
      split at hs <;> cases hs
      exact handoffStep_follows hr hc hd
  case finalWait => exact finalWaitStep_follows hr hc hd hs
  case join =>
      split at hs <;> cases hs
      exact quiet _ (by rw [hd]; rfl) (by rw [hd]; rfl) rfl rfl trivial fun _ => .inr rfl
  case done => contradiction
  case notifyHandoff | stopSpinning =>
      split at hs <;> cases hs
      exact hr.dispatcher_frame rfl rfl rfl rfl rfl rfl (by rw [hd]; exact ⟨rfl, rfl⟩)
        (by rw [hd]; exact ⟨rfl, rfl⟩) trivial id rfl (by rw [hd]; simp [DispatcherPc.region])
  case notifyStop =>
      split at hs <;> cases hs
      exact hr.dispatcher_frame rfl rfl rfl rfl rfl rfl (by rw [hd]; exact ⟨rfl, rfl⟩)
        (by rw [hd]; exact ⟨rfl, rfl⟩) trivial id rfl fun _ => .inl rfl

/-- The worker takes the pending job, leaves, or goes to sleep. -/
theorem workerWait_follows (hr : Related s L) (hc : Control s) (hw : s.worker = .waiting) :
    Follows s (workerWait s) L := by
  cases hp : s.pending with
  | none =>
      simp only [workerWait, hp]
      split <;>
        exact hr.worker_quiet rfl (by first | rfl | exact hp.symm) rfl hr.worker rfl rfl
          (by rw [hw]; exact ⟨rfl, rfl⟩) (by rw [hw]; rintro ⟨⟩) (by simp [WorkerPc.region])
          (by rw [Doomed, Doomed, hw]; simp [WorkerPc.region])
  | some w =>
      obtain ⟨-, hdr⟩ := hc.handed hp
      obtain ⟨hh, hst, hslot⟩ := hr.handed w hp
      have hdw : s.dispatcher.work? = none ∧ s.dispatcher.AtStage L ∧
          s.dispatcher.isHandoff = false := by
        cases hpc : s.dispatcher <;> simp [hpc, DispatcherPc.region] at hdr <;>
          exact ⟨rfl, trivial, rfl⟩
      have hregion : (workerWait s).worker.region = .busy ∧ (workerWait s).worker.work? = some w ∧
          (workerWait s).worker.isCatchFlag = false ∧ (workerWait s).worker.AtStage L ∧
          (workerWait s).worker.hinted? = (workerWait s).worker.work? := by
        have hmsg : w.message.isSome = L.message := by
          rw [hh.message]
          cases L.message <;> rfl
        simp only [workerWait, hp, hmsg]
        cases hm : L.message with
        | true => exact ⟨rfl, rfl, rfl, ⟨by simp [hst, Ledger.launched, hm], hm⟩, rfl⟩
        | false => exact ⟨rfl, rfl, rfl, ⟨by simp [hst, Ledger.launched, hm], hm⟩, rfl⟩
      obtain ⟨hbusy, hwork, hcf, hstage, hhw⟩ := hregion
      have hsame : workerWait s = { s with
          pending := none
          worker := (workerWait s).worker } := by
        simp only [workerWait, hp]
      rw [hsame]
      refine ⟨[], L, (List.append_nil _).symm, rfl, hr.serial, ?_, hr.worker, ?_, ?_, ?_, hdw.2.1,
        by rintro _ ⟨⟩, ?_, hstage, ?_, fun _ _ h => ?_⟩
      · rintro (h | h) <;> cases hbusy.symm.trans h
      · intro hcl
        have hret := hr.cleared hcl
        obtain hdr | hdr := hdr
        all_goals
          simp only [Retired, Doomed, hw, hdr, WorkerPc.hinted?] at hret
          have hret : s.dispatchError.isSome = true ∨ s.workerError.isSome = true := by
            simpa [WorkerPc.region] using hret
          exact .inl (hret.imp id .inl)
      · intro _
        rw [hr.slot (by rw [hw]; rintro ⟨⟩)]
        have hcf' : WorkerPc.waiting.isCatchFlag = false := rfl
        simp only [hot, hw, hcf, hcf']
      · rw [show ({ s with pending := none, worker := (workerWait s).worker } : State).dispatcher
          = s.dispatcher from rfl, hdw.1]
        simp
      · intro w' hw'
        cases hwork.symm.trans hw'
        exact hh
      · intro w' hw'
        cases (hhw.trans hwork).symm.trans hw'
        exact hslot
      · cases hwork.symm.trans h

/-- Every step of the worker. -/
theorem worker_follows (hr : Related s L) (hc : Control s) (hs : workerStep s i = some s') :
    Follows s s' L := by
  by_cases hw : s.worker.region = .busy
  · exact busy_follows hr hc hw hs
  · cases hp : s.worker <;> simp only [hp, WorkerPc.region, not_true_eq_false] at hw <;>
      simp only [workerStep, hp] at hs
    case absent | exited => contradiction
    case configuring =>
        split at hs <;> cases hs
        · exact hr.worker_quiet rfl rfl rfl hr.worker rfl rfl (by rw [hp]; exact ⟨rfl, rfl⟩)
            (by rw [hp]; simp [WorkerPc.region]) (fun _ => by rw [hp]; rfl)
            (by simp [Doomed, hp, WorkerPc.region])
        · exact hr.worker_quiet rfl rfl rfl hr.worker rfl rfl (by rw [hp]; exact ⟨rfl, rfl⟩)
            (by rw [hp]; simp [WorkerPc.region])
            (by simp [WorkerPc.region]) fun _ => .inr (.inr rfl)
    case register =>
        have hL : L = {} := hr.boot (.inr (by rw [hp]; rfl))
        split at hs <;> cases hs
        exact hr.worker_quiet rfl rfl rfl (.inl (by rw [hL])) rfl rfl
          (by rw [hp]; exact ⟨rfl, rfl⟩) (by rw [hp]; simp [WorkerPc.region])
          (by simp [WorkerPc.region])
          (by simp [Doomed, hp, WorkerPc.region])
    case notifyReady =>
        split at hs <;> cases hs
        exact hr.worker_quiet rfl rfl rfl hr.worker rfl rfl (by rw [hp]; exact ⟨rfl, rfl⟩)
          (by rw [hp]; simp [WorkerPc.region]) (by simp [WorkerPc.region])
          (by simp [Doomed, hp, WorkerPc.region])
    case park =>
        split at hs <;> cases hs
        have hr' : Related ({ s with workerIdle := true }.notifyAll.workerGoto .waiting) L :=
          hr.worker_frame rfl rfl hr.worker rfl rfl (by rw [hp]; exact ⟨rfl, rfl⟩)
            (by rw [hp]; simp [WorkerPc.region]) (by simp [WorkerPc.region])
            (by simp [Doomed, hp, WorkerPc.region])
        rw [← workerWait_workerGoto _ .waiting]
        exact workerWait_follows hr' (parked_control hc hp) rfl
    case waiting =>
        split at hs <;> cases hs
        exact workerWait_follows hr hc hp
    case failing =>
        split at hs <;> cases hs
        exact hr.worker_quiet rfl rfl rfl hr.worker rfl rfl (by rw [hp]; exact ⟨rfl, rfl⟩)
          (by rw [hp]; simp [WorkerPc.region]) (by simp [WorkerPc.region]) fun _ => .inr (.inl rfl)
    case failNotify =>
        split at hs <;> cases hs
        exact hr.worker_quiet rfl rfl rfl hr.worker rfl rfl (by rw [hp]; exact ⟨rfl, rfl⟩)
          (by rw [hp]; simp [WorkerPc.region]) (by simp [WorkerPc.region])
          (by simp [Doomed, hp, WorkerPc.region])
    case failCancel =>
        split at hs <;> cases hs
        exact hr.worker_quiet rfl rfl rfl hr.worker rfl rfl (by rw [hp]; exact ⟨rfl, rfl⟩)
          (by rw [hp]; simp [WorkerPc.region]) (by simp [WorkerPc.region])
          (by simp [Doomed, hp, WorkerPc.region])

/-- The control invariant and the refinement relation together. -/
def Described (s : State) (L : Ledger) : Prop := Control s ∧ Related s L

/-- **Refinement**: the effects of every step of every interleaving are
accepted by the ledger. -/
theorem step_refines :
    Steps.Refines (step profiles) State.log Ledger.step Described := by
  rintro s a s' L ⟨hc, hr⟩ hs
  have hc' := step_control s a s' hc hs
  have follows : Follows s s' L := by
    cases a with
    | dispatcher i => exact dispatcher_follows hr hc hs
    | worker i => exact worker_follows hr hc hs
    | cancel | shutdown =>
        cases hs
        exact Related.follows (hr.frame rfl rfl hr.worker rfl hr.turnStage rfl hr.busyStage rfl
          hr.boot hr.slot id id) rfl
    | wake t =>
        cases t <;> cases hs <;>
          exact Related.follows (hr.frame rfl rfl hr.worker rfl hr.turnStage rfl hr.busyStage rfl
            hr.boot hr.slot id id) rfl
  obtain ⟨es, L', hes, hread, hr'⟩ := follows
  exact ⟨es, L', hes, hread, hc', hr'⟩

/-- The ledger reads the log of every reachable state and describes it. -/
theorem Reachable.read (h : Reachable profiles s) :
    ∃ L, Ledger.read s.log = some L ∧ Control s ∧ Related s L := by
  obtain ⟨s₀, as, h₀, has⟩ := h
  refine step_refines.exec (t := {}) ?_ ⟨h₀.control, h₀.related⟩ has
  rw [h₀.log]
  rfl

end Job

end ScxSlam.Executor
