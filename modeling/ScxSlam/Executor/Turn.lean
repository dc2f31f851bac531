import ScxSlam.Executor.Refine

/-!
# ScxSlam.Executor.Turn

The dispatcher's half of the refinement: each step of the dispatcher's turn,
from `get_next_executable` to the handoff, is read by the ledger and keeps
`Related`.
-/

namespace ScxSlam.Executor

section Turn

variable {profiles : GroupId → Option ProfileBinding} {s s' : State} {i : Input} {L L' : Ledger}

/-! ## the dispatcher's turn -/

/-- Between the worker's parking and the handoff the dispatcher owns the job
alone, so a step need only account for the dispatcher's own program point. -/
theorem Related.turn_next (hr : Related s L) (hc : Control s)
    (ht : s.dispatcher.region = .turn) (hf : SameFlags s s') (hw : s'.worker = s.worker)
    (hid : s'.workerId = s.workerId) (hserial : L'.serial = s'.serial)
    (hworker : L'.worker = none ∨ L'.worker = some s.workerId)
    (hcleared : L'.cleared = L.cleared) (hslot : L'.slot.isSome = hot s')
    (hturn : ∀ w, s'.dispatcher.work? = some w → Holds L' w)
    (hstage : s'.dispatcher.AtStage L')
    (hfree : s'.dispatcher.work? = none →
      L'.message = false ∧ L'.owed = false ∧ (L'.stage.settled = true ∨ Doomed s')) :
    Related s' L' := by
  obtain ⟨h1, h2, h3, h4, h5⟩ := hc.turn ht
  have hp : s'.pending = none := hf.pending.trans h2
  have hw' : s'.worker = .waiting := hw.trans h1
  refine ⟨hserial, ?_, ?_, ?_, fun _ => hslot, hturn, hstage, ?_, ?_, ?_, ?_,
    fun hd _ _ => hfree hd⟩
  · rw [hw']
    simp [WorkerPc.region]
  · rw [hid]
    exact hworker
  · intro hcl
    have hret := hr.cleared (hcleared ▸ hcl)
    have he := hc.running (by rw [ht]; rfl)
    simp [Retired, Doomed, he, h4, h1, ht, WorkerPc.region, WorkerPc.hinted?] at hret
  · rw [hp]
    simp
  · rw [hw']
    simp [WorkerPc.work?]
  · rw [hw']
    trivial
  · rw [hw']
    simp [WorkerPc.hinted?, WorkerPc.work?]

/-- A turn step that leaves the sink alone. -/
theorem Related.turn_quiet (hr : Related s L) (hc : Control s)
    (ht : s.dispatcher.region = .turn) (hf : SameFlags s s') (hw : s'.worker = s.worker)
    (hid : s'.workerId = s.workerId) (hserial : L'.serial = s'.serial)
    (hsink : L'.worker = L.worker ∧ L'.cleared = L.cleared ∧ L'.slot = L.slot)
    (hhand : s.dispatcher.isHandoff = false ∧ s'.dispatcher.isHandoff = false)
    (hturn : ∀ w, s'.dispatcher.work? = some w → Holds L' w)
    (hstage : s'.dispatcher.AtStage L')
    (hfree : s'.dispatcher.work? = none →
      L'.message = false ∧ L'.owed = false ∧ (L'.stage.settled = true ∨ Doomed s')) :
    Related s' L' := by
  refine hr.turn_next hc ht hf hw hid hserial ?_ hsink.2.1 ?_ hturn hstage hfree
  · rw [hsink.1]
    exact hr.worker
  · rw [hsink.2.2, hr.slot (by rw [(hc.turn ht).1]; simp [WorkerPc.region])]
    simp only [hot, hf.clear, hw, hhand]

/-- Between two turns neither a message is out nor a group owed. -/
theorem Related.idle (hr : Related s L) (hc : Control s) (ht : s.dispatcher.region = .turn)
    (hw : s.dispatcher.work? = none) : L.message = false ∧ L.owed = false := by
  obtain ⟨h1, h2, -⟩ := hc.turn ht
  obtain ⟨h3, h4, -⟩ := hr.free hw h2 (by rw [h1]; rfl)
  exact ⟨h3, h4⟩

/-- What the refinement theorem says of one step. -/
def Follows (s s' : State) (L : Ledger) : Prop :=
  ∃ es L', s'.log = s.log ++ es ∧ Steps.exec Ledger.step L es = some L' ∧ Related s' L'

/-- A turn step after which the dispatcher still owns the job. -/
theorem Related.turn_work {w : PendingWork} {es : List Event} (hr : Related s L)
    (hc : Control s) (ht : s.dispatcher.region = .turn) (hf : SameFlags s s')
    (hw : s'.worker = s.worker) (hid : s'.workerId = s.workerId)
    (hhand : s.dispatcher.isHandoff = false) (hhand' : s'.dispatcher.isHandoff = false)
    (hlog : s'.log = s.log ++ es) (hread : Steps.exec Ledger.step L es = some L')
    (hserial : L'.serial = s'.serial)
    (hsink : L'.worker = L.worker ∧ L'.cleared = L.cleared ∧ L'.slot = L.slot)
    (hwork : s'.dispatcher.work? = some w) (hh : Holds L' w)
    (hstage : s'.dispatcher.AtStage L') : Follows s s' L := by
  refine ⟨es, L', hlog, hread, hr.turn_quiet hc ht hf hw hid hserial hsink ⟨hhand, hhand'⟩ ?_
    hstage fun h => ?_⟩
  · intro w' hw'
    cases hwork.symm.trans hw'
    exact hh
  · cases hwork.symm.trans h

/-- A turn step after which nobody owns a job. -/
theorem Related.turn_free {es : List Event} (hr : Related s L) (hc : Control s)
    (ht : s.dispatcher.region = .turn) (hf : SameFlags s s') (hw : s'.worker = s.worker)
    (hid : s'.workerId = s.workerId) (hhand : s.dispatcher.isHandoff = false)
    (hhand' : s'.dispatcher.isHandoff = false) (hlog : s'.log = s.log ++ es)
    (hread : Steps.exec Ledger.step L es = some L') (hserial : L'.serial = s'.serial)
    (hsink : L'.worker = L.worker ∧ L'.cleared = L.cleared ∧ L'.slot = L.slot)
    (hwork : s'.dispatcher.work? = none) (hstage : s'.dispatcher.AtStage L')
    (hfree : L'.message = false ∧ L'.owed = false ∧ (L'.stage.settled = true ∨ Doomed s')) :
    Follows s s' L := by
  refine ⟨es, L', hlog, hread, hr.turn_quiet hc ht hf hw hid hserial hsink ⟨hhand, hhand'⟩ ?_
    hstage fun _ => hfree⟩
  rw [hwork]
  nofun

/-- The ledger after the next selection. -/
def Ledger.claimed (L : Ledger) (group : Option GroupId) : Ledger :=
  { L with
    serial := L.serial + 1
    group := group
    owed := group.isSome
    observed := false
    reject := false
    stage := .fresh }

/-- A settled ledger takes the next claim. -/
theorem claim_accepted (group : Option GroupId) (hm : L.message = false) (ho : L.owed = false)
    (hst : L.stage.settled = true) :
    Ledger.step L (.claim (L.serial + 1) group) = some (L.claimed group) := by
  simp [Ledger.step, Ledger.claimed, hm, ho, hst]

/-- Work that was just claimed has nothing yet. -/
theorem holds_claimed (group : Option GroupId) (subscription : Option Subscription)
    (hm : L.message = false) :
    Holds (L.claimed group) { executable := ⟨L.serial + 1, group, subscription⟩ } where
  serial := rfl
  message := by simp [Ledger.claimed, hm]
  subscription := by simp [Ledger.claimed, hm]
  group g hg := hg
  owed h := h
  observer := rfl
  reject := rfl

/-- The next executable is claimed. -/
theorem getNextStep_follows (hr : Related s L) (hc : Control s) (hd : s.dispatcher = .getNext)
    (hs : getNextStep s i = some s') : Follows s s' L := by
  have ht : s.dispatcher.region = .turn := by rw [hd]; rfl
  obtain ⟨hm, ho⟩ := hr.idle hc ht (by rw [hd]; rfl)
  have hst : L.stage.settled = true := by simpa [hd, DispatcherPc.AtStage] using hr.turnStage
  have hhand : s.dispatcher.isHandoff = false := by rw [hd]; rfl
  cases i <;> simp only [getNextStep] at hs <;> try contradiction
  case nothing | throws =>
      cases hs
      exact hr.turn_free hc ht (.of_eq rfl) rfl rfl hhand rfl
        (List.append_nil _).symm rfl hr.serial ⟨rfl, rfl, rfl⟩ rfl trivial ⟨hm, ho, .inl hst⟩
  case selected group subscription =>
      cases hs
      have hread : Steps.exec Ledger.step L [.claim (s.serial + 1) group] =
          some (L.claimed group) := by
        rw [Steps.exec_singleton, ← hr.serial]
        exact claim_accepted group hm ho hst
      refine hr.turn_work hc ht (.of_eq rfl) rfl rfl hhand rfl rfl hread
        (congrArg (· + 1) hr.serial) ⟨rfl, rfl, rfl⟩ rfl ?_ ⟨rfl, hm, rfl⟩
      rw [← hr.serial]
      exact holds_claimed group subscription hm
  case selectedThrows group subscription =>
      cases hs
      have hread : Steps.exec Ledger.step L ([.claim (s.serial + 1) group] ++
          AnyExecutable.releaseEvents ⟨s.serial + 1, group, subscription⟩) =
          some { L.claimed group with owed := false } := by
        rw [List.singleton_append, Steps.exec_cons, ← hr.serial, claim_accepted group hm ho hst]
        exact (holds_claimed group subscription hm).read_release hm
      exact hr.turn_free hc ht (.of_eq rfl) rfl rfl hhand rfl
        (List.append_assoc ..) hread (congrArg (· + 1) hr.serial) ⟨rfl, rfl, rfl⟩ rfl trivial
        ⟨hm, rfl, .inr (.inl rfl)⟩

/-- A profile is looked up, without an event. -/
theorem bindStep_follows {e : AnyExecutable} (hr : Related s L) (hc : Control s)
    (hd : s.dispatcher = .bind e) (hs : bindStep profiles s e i = some s') : Follows s s' L := by
  have ht : s.dispatcher.region = .turn := by rw [hd]; rfl
  have hh : Holds L { executable := e } := hr.turn _ (by rw [hd]; rfl)
  have hhand : s.dispatcher.isHandoff = false := by rw [hd]; rfl
  obtain ⟨hst, hm, ho⟩ : L.stage = .fresh ∧ L.message = false ∧ L.owed = L.group.isSome := by
    simpa [hd, DispatcherPc.AtStage] using hr.turnStage
  have goto : ∀ pc : DispatcherPc, pc.isHandoff = false → pc.work? = some { executable := e } →
      pc.AtStage L → Follows s (s.goto pc) L := fun pc hpc hwork hstage =>
    hr.turn_work hc ht (.goto s pc) rfl rfl hhand hpc (List.append_nil _).symm rfl hr.serial
      ⟨rfl, rfl, rfl⟩ hwork hh hstage
  cases i <;> simp only [bindStep] at hs <;> try contradiction
  case ok =>
      repeat' split at hs
      all_goals cases hs
      · exact goto _ rfl rfl (by simp [DispatcherPc.AtStage])
      · exact goto _ rfl rfl ⟨hst, hm, ho, by simp [*]⟩
      · exact goto _ rfl rfl (by simp [DispatcherPc.AtStage])
      · exact goto _ rfl rfl ⟨hst, hm⟩
  case throws =>
      cases hs
      exact hr.turn_free hc ht (.of_eq rfl) rfl rfl hhand rfl rfl
        (hh.read_release hm) hr.serial ⟨rfl, rfl, rfl⟩ rfl trivial ⟨hm, rfl, .inr (.inl rfl)⟩

/-- The catch site of the dispatcher: the job keeps its message and group. -/
theorem Related.turn_catch {w : PendingWork} {f : Failure} (hr : Related s L) (hc : Control s)
    (ht : s.dispatcher.region = .turn) (hhand : s.dispatcher.isHandoff = false)
    (hwork : s.dispatcher.work? = some w) : Follows s (s.dispatchCatch w f) L :=
  hr.turn_work hc ht (.goto s _) rfl rfl hhand rfl (List.append_nil _).symm rfl hr.serial
    ⟨rfl, rfl, rfl⟩ rfl (hr.turn w hwork) nofun

/-- A message is created. -/
theorem createStep_follows {w : PendingWork} {b : ProfileBinding} (hr : Related s L)
    (hc : Control s) (hd : s.dispatcher = .createMessage w b)
    (hs : createStep s w b i = some s') : Follows s s' L := by
  have ht : s.dispatcher.region = .turn := by rw [hd]; rfl
  have hh : Holds L w := hr.turn _ (by rw [hd]; rfl)
  have hhand : s.dispatcher.isHandoff = false := by rw [hd]; rfl
  obtain ⟨hst, hm, ho, hsub⟩ : L.stage = .fresh ∧ L.message = false ∧
      L.owed = L.group.isSome ∧ w.executable.subscription.isSome = true := by
    simpa [hd, DispatcherPc.AtStage] using hr.turnStage
  cases i <;> simp only [createStep] at hs <;> try contradiction
  case ok =>
      cases hs
      have hread : Steps.exec Ledger.step L [.create w.serial] =
          some { L with message := true, stage := .created } := by
        simp [Ledger.step, hh.serial, hst, ho]
      exact hr.turn_work hc ht (.of_eq rfl) rfl rfl hhand rfl rfl hread
        hr.serial ⟨rfl, rfl, rfl⟩ rfl ⟨hh.serial, congrArg some hh.serial, fun _ => hsub, hh.group,
          hh.owed, hh.observer, hh.reject⟩ ⟨rfl, rfl⟩
  case throws =>
      cases hs
      exact hr.turn_catch hc ht hhand (by rw [hd]; rfl)

/-- A message is taken, or goes back. -/
theorem takeStep_follows {w : PendingWork} {b : ProfileBinding} (hr : Related s L)
    (hc : Control s) (hd : s.dispatcher = .take w b) (hs : takeStep s w b i = some s') :
    Follows s s' L := by
  have ht : s.dispatcher.region = .turn := by rw [hd]; rfl
  have hh : Holds L w := hr.turn _ (by rw [hd]; rfl)
  have hhand : s.dispatcher.isHandoff = false := by rw [hd]; rfl
  have hst : L.stage = .created ∧ L.message = true := by
    simpa [hd, DispatcherPc.AtStage] using hr.turnStage
  cases i <;> simp only [takeStep] at hs <;> try contradiction
  case ok =>
      cases hs
      exact hr.turn_work hc ht (.goto s _) rfl rfl hhand rfl (List.append_nil _).symm rfl
        hr.serial ⟨rfl, rfl, rfl⟩ rfl hh hst
  case nothing =>
      cases hs
      exact hr.turn_work hc ht (.goto s _) rfl rfl hhand rfl (List.append_nil _).symm rfl
        hr.serial ⟨rfl, rfl, rfl⟩ rfl hh fun _ => .inl hst.1
  case throws =>
      cases hs
      exact hr.turn_catch hc ht hhand (by rw [hd]; rfl)

/-- The message is accepted with its flags, or goes back. -/
theorem extractStep_follows {w : PendingWork} {b : ProfileBinding} (hr : Related s L)
    (hc : Control s) (hd : s.dispatcher = .extract w b) (hs : extractStep s w b i = some s') :
    Follows s s' L := by
  have ht : s.dispatcher.region = .turn := by rw [hd]; rfl
  have hh : Holds L w := hr.turn _ (by rw [hd]; rfl)
  have hhand : s.dispatcher.isHandoff = false := by rw [hd]; rfl
  obtain ⟨hst, hm⟩ : L.stage = .created ∧ L.message = true := by
    simpa [hd, DispatcherPc.AtStage] using hr.turnStage
  cases i <;> simp only [extractStep] at hs <;> try contradiction
  case metadata m =>
      split at hs
      · cases hs
        exact hr.turn_catch hc ht hhand (by rw [hd]; rfl)
      · cases hs
        have hread : Steps.exec Ledger.step L
            [.accept w.serial b.observer b.profile.rejectExpired] = some { L with
              observed := b.observer
              reject := b.profile.rejectExpired
              stage := .accepted } := by
          simp [Ledger.step, hh.serial, hst, hm]
        refine hr.turn_work hc ht (.of_eq rfl) rfl rfl hhand ?_ rfl hread
          hr.serial ⟨rfl, rfl, rfl⟩ (w := { w with
            hint := makeHint b.profile m
            rejectExpired := b.profile.rejectExpired
            observer := b.observer }) ?_
          ⟨hh.serial, hh.message, hh.subscription, hh.group, hh.owed, rfl, rfl⟩ ?_ <;>
          cases hb : b.observer <;>
          simp [DispatcherPc.isHandoff, DispatcherPc.work?, DispatcherPc.AtStage, hm]
  case throws =>
      cases hs
      exact hr.turn_catch hc ht hhand (by rw [hd]; rfl)

/-- The observer is told, and may throw. -/
theorem observeSelectedStep_follows {w : PendingWork} (hr : Related s L) (hc : Control s)
    (hd : s.dispatcher = .observeSelected w) (hs : observeSelectedStep s w i = some s') :
    Follows s s' L := by
  have ht : s.dispatcher.region = .turn := by rw [hd]; rfl
  have hh : Holds L w := hr.turn _ (by rw [hd]; rfl)
  have hhand : s.dispatcher.isHandoff = false := by rw [hd]; rfl
  obtain ⟨hst, ho, hm⟩ : L.stage = .accepted ∧ L.observed = true ∧ L.message = true := by
    simpa [hd, DispatcherPc.AtStage] using hr.turnStage
  have hread : Steps.exec Ledger.step L [.select w.serial .dispatcher] =
      some { L with stage := .selected } := by
    simp [Ledger.step, hh.serial, hst, ho]
  cases i <;> simp only [observeSelectedStep] at hs <;> try contradiction
  case ok =>
      cases hs
      exact hr.turn_work hc ht (.of_eq rfl) rfl rfl hhand rfl rfl hread
        hr.serial ⟨rfl, rfl, rfl⟩ rfl (hh.at_stage _) ⟨hm, by simp [ho]⟩
  case throws =>
      cases hs
      exact hr.turn_work hc ht (.of_eq rfl) rfl rfl hhand rfl rfl hread
        hr.serial ⟨rfl, rfl, rfl⟩ rfl (hh.at_stage _) (by simp [DispatcherPc.AtStage])

/-- The dispatcher checks the message. -/
theorem dispatchCheckStep_follows {w : PendingWork} (hr : Related s L) (hc : Control s)
    (hd : s.dispatcher = .checkExpired w) (hs : dispatchCheckStep s w i = some s') :
    Follows s s' L := by
  have ht : s.dispatcher.region = .turn := by rw [hd]; rfl
  have hh : Holds L w := hr.turn _ (by rw [hd]; rfl)
  have hhand : s.dispatcher.isHandoff = false := by rw [hd]; rfl
  obtain ⟨hm, hst⟩ : L.message = true ∧
      if L.observed then L.stage = .selected else L.stage = .accepted := by
    simpa [hd, DispatcherPc.AtStage] using hr.turnStage
  obtain ⟨-, rfl⟩ | ⟨b, now, hrej, rfl⟩ := dispatchCheckStep_cases hs
  · exact hr.turn_catch hc ht hhand (by rw [hd]; rfl)
  · have hread : Steps.exec Ledger.step L [.check w.serial .dispatcher b] =
        some { L with stage := if b then .condemned else .passed } := by
      rw [hh.reject] at hrej
      simp only [Steps.exec_singleton, Ledger.step, hh.serial, true_and]
      exact if_pos ⟨hst, hrej⟩
    refine hr.turn_work hc ht (.of_eq rfl) rfl rfl hhand ?_ rfl hread
      hr.serial ⟨rfl, rfl, rfl⟩ (w := w) ?_ (hh.at_stage _) ?_ <;>
      cases b <;> simp [DispatcherPc.isHandoff, DispatcherPc.work?, DispatcherPc.AtStage, hm]

/-- The observer is told of the drop, and the message goes back. -/
theorem dispatchDropStep_follows {w : PendingWork} (hr : Related s L) (hc : Control s)
    (hd : s.dispatcher = .dropObserve w) (hs : dispatchDropStep s w i = some s') :
    Follows s s' L := by
  have ht : s.dispatcher.region = .turn := by rw [hd]; rfl
  have hh : Holds L w := hr.turn _ (by rw [hd]; rfl)
  have hhand : s.dispatcher.isHandoff = false := by rw [hd]; rfl
  have hst : L.stage = .condemned := by simpa [hd, DispatcherPc.AtStage] using hr.turnStage
  have hread : Steps.exec Ledger.step L [.drop w.serial .dispatcher w.observer] =
      some { L with stage := .dropped } := by
    simp [Ledger.step, hh.serial, hh.observer, hst]
  cases i <;> simp only [dispatchDropStep] at hs <;> try contradiction
  case ok =>
      cases hs
      exact hr.turn_work hc ht (.of_eq rfl) rfl rfl hhand rfl rfl hread
        hr.serial ⟨rfl, rfl, rfl⟩ rfl (hh.at_stage _) fun _ => .inr rfl
  case throws =>
      split at hs <;> cases hs
      exact hr.turn_work hc ht (.of_eq rfl) rfl rfl hhand rfl rfl hread
        hr.serial ⟨rfl, rfl, rfl⟩ rfl (hh.at_stage _) (by simp [DispatcherPc.AtStage])

/-- The hint is made and published. -/
theorem makeHintStep_follows {w : PendingWork} {b : ProfileBinding} (hr : Related s L)
    (hc : Control s) (hd : s.dispatcher = .makeHint w b) (hs : makeHintStep s w b i = some s') :
    Follows s s' L := by
  have ht : s.dispatcher.region = .turn := by rw [hd]; rfl
  have hh : Holds L w := hr.turn _ (by rw [hd]; rfl)
  have hhand : s.dispatcher.isHandoff = false := by rw [hd]; rfl
  obtain ⟨hst, hm⟩ : L.stage = .fresh ∧ L.message = false := by
    simpa [hd, DispatcherPc.AtStage] using hr.turnStage
  cases i <;> simp only [makeHintStep] at hs <;> try contradiction
  case now now =>
      split at hs <;> cases hs
      refine hr.turn_work hc ht (.of_eq rfl) rfl rfl hhand rfl
        (List.append_nil _).symm rfl hr.serial ⟨rfl, rfl, rfl⟩ rfl
        ⟨hh.serial, hh.message, hh.subscription, hh.group, hh.owed, hh.observer, hh.reject⟩ ?_
      simp [DispatcherPc.AtStage, hm, hst]
  case throws =>
      cases hs
      exact hr.turn_catch hc ht hhand (by rw [hd]; rfl)

/-- A publication: the dispatcher's turn is the only place where it is due. -/
theorem publishStep_follows {w : PendingWork} (hr : Related s L) (hc : Control s)
    (hd : s.dispatcher = .publish w) (hs : publishStep s w i = some s') : Follows s s' L := by
  have ht : s.dispatcher.region = .turn := by rw [hd]; rfl
  have hh : Holds L w := hr.turn _ (by rw [hd]; rfl)
  have hhand : s.dispatcher.isHandoff = false := by rw [hd]; rfl
  have hst : if L.message then L.stage = .passed else L.stage = .fresh := by
    simpa [hd, DispatcherPc.AtStage] using hr.turnStage
  cases i <;> simp only [publishStep] at hs <;> try contradiction
  case ok =>
      cases hs
      obtain ⟨hw, hp, hi, he, hstop⟩ := hc.turn ht
      have hde := hc.running (by rw [ht]; rfl)
      have hcl : L.cleared = false := by
        cases hcl : L.cleared with
        | false => rfl
        | true =>
            have hret := hr.cleared hcl
            simp [Retired, Doomed, he, hde, hw, ht, WorkerPc.region, WorkerPc.hinted?] at hret
      refine ⟨[.publish s.workerId w.serial w.hint], { L with
          stage := L.launched
          slot := some (w.serial, w.hint)
          worker := some s.workerId }, rfl, ?_, ?_⟩
      · simp only [Steps.exec_singleton, Ledger.step, hh.serial]
        exact if_pos ⟨trivial, hst, hcl, hr.worker⟩
      · refine hr.turn_next hc ht (.of_eq rfl) rfl rfl hr.serial (.inr rfl) rfl
          ?_ ?_ ⟨rfl, rfl⟩ (by simp [DispatcherPc.work?])
        · simp [hot, DispatcherPc.isHandoff, hw, WorkerPc.isCatchFlag]
        · rintro w' ⟨⟩
          exact ⟨hh.serial, hh.message, hh.subscription, hh.group, hh.owed, hh.observer, hh.reject⟩
  case throws =>
      cases hs
      exact hr.turn_catch hc ht hhand (by rw [hd]; rfl)

/-- The message goes back. -/
theorem returnMessage_follows {w : PendingWork} {after : AfterCleanup} (hr : Related s L)
    (hc : Control s) (hd : s.dispatcher = .returnMessage w after) :
    Follows s ((s.emit w.returnEvents).goto (.releaseGroup w.returned after)) L := by
  have ht : s.dispatcher.region = .turn := by rw [hd]; rfl
  have hh : Holds L w := hr.turn _ (by rw [hd]; rfl)
  have hst : after = .next → L.stage = .created ∨ L.stage = .dropped := by
    simpa [hd, DispatcherPc.AtStage] using hr.turnStage
  exact hr.turn_work hc ht (.of_eq rfl) rfl rfl (by rw [hd]; rfl) rfl rfl
    hh.read_return hr.serial ⟨rfl, rfl, rfl⟩ rfl hh.returned ⟨rfl, hst⟩

/-- The group is released. -/
theorem releaseGroup_follows {w : PendingWork} {after : AfterCleanup} (hr : Related s L)
    (hc : Control s) (hd : s.dispatcher = .releaseGroup w after) :
    Follows s (match after with
      | .next => (s.emit w.executable.releaseEvents).goto .loopHead
      | .rethrow f => (s.emit w.executable.releaseEvents).dispatchThrows f) L := by
  have ht : s.dispatcher.region = .turn := by rw [hd]; rfl
  have hh : Holds L w := hr.turn _ (by rw [hd]; rfl)
  have hhand : s.dispatcher.isHandoff = false := by rw [hd]; rfl
  obtain ⟨hm, hst⟩ : L.message = false ∧
      (after = .next → L.stage = .created ∨ L.stage = .dropped) := by
    simpa [hd, DispatcherPc.AtStage] using hr.turnStage
  cases after with
  | next =>
      refine hr.turn_free hc ht (.of_eq rfl) rfl rfl hhand rfl rfl
        (hh.read_release hm) hr.serial ⟨rfl, rfl, rfl⟩ rfl trivial ⟨hm, rfl, .inl ?_⟩
      obtain h | h := hst rfl <;> rw [h] <;> rfl
  | rethrow f =>
      exact hr.turn_free hc ht (.of_eq rfl) rfl rfl hhand rfl rfl
        (hh.read_release hm) hr.serial ⟨rfl, rfl, rfl⟩ rfl trivial ⟨hm, rfl, .inr (.inl rfl)⟩

/-- The handoff moves the job from the dispatcher to `pending`. -/
theorem handoffStep_follows {w : PendingWork} (hr : Related s L) (hc : Control s)
    (hd : s.dispatcher = .handoff w) : Follows s (handoffStep s w) L := by
  obtain ⟨hw, hp, hi, he, hstop⟩ := hc.turn (by rw [hd]; rfl)
  have hst : L.stage = L.launched ∧ L.slot = some (w.serial, w.hint) := by
    simpa [hd, DispatcherPc.AtStage] using hr.turnStage
  have hh : Holds L w := hr.turn _ (by rw [hd]; rfl)
  refine ⟨[], L, by simp [handoffStep, hp], rfl, hr.serial, ?_, hr.worker, ?_, ?_, nofun, trivial,
    ?_, ?_, ?_, ?_, nofun⟩
  · simp [handoffStep, hw, WorkerPc.region]
  · intro hcl
    have hret := hr.cleared hcl
    simpa [Retired, Doomed, handoffStep, hw, he, hd, DispatcherPc.region, WorkerPc.hinted?]
      using hret
  · simp [hst.2, hot, handoffStep, hw, WorkerPc.isCatchFlag]
  · rintro w' ⟨⟩
    exact ⟨hh, hst.1, hst.2⟩
  · simp [handoffStep, hw, WorkerPc.work?]
  · simp [handoffStep, hw, WorkerPc.AtStage]
  · simp [handoffStep, hw, WorkerPc.hinted?, WorkerPc.work?]

end Turn

end ScxSlam.Executor
