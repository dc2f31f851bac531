import ScxSlam.Executor.Contract

/-!
# ScxSlam.Executor.Admission

The message contract of `spin`: each accepted message is announced once,
checked on both threads, and then handled or dropped once.
-/

namespace ScxSlam.Executor

section Admission

variable {profiles : GroupId → Option ProfileBinding} {s s' : State} {i : Input} {L : Ledger}

/-! ## what the dispatcher is about to do -/

/-- The executable a program point has bound, and its binding once looked up. -/
def DispatcherPc.bound? : DispatcherPc → Option (AnyExecutable × Option ProfileBinding)
  | .bind e => some (e, none)
  | .createMessage w b | .take w b | .extract w b | .makeHint w b => some (w.executable, some b)
  | _ => none

/-- What the dispatcher's program point says about its log: where its
binding comes from, and which call comes next. -/
structure Intent (profiles : GroupId → Option ProfileBinding) (s : State) : Prop where
  bound : ∀ e b, s.dispatcher.bound? = some (e, b) → .claim e.serial e.callbackGroup ∈ s.log ∧
    ∀ b', b = some b' → b' = bindingFor profiles e
  accepted : ∀ k o r, .accept k o r ∈ s.log → ∃ e : AnyExecutable,
    .claim k e.callbackGroup ∈ s.log ∧ o = (bindingFor profiles e).observer ∧
      r = (bindingFor profiles e).profile.rejectExpired
  announced : ∀ k r, .accept k true r ∈ s.log →
    (∃ t, .select k t ∈ s.log) ∨ ∃ w, s.dispatcher = .observeSelected w ∧ w.serial = k
  dropped : ∀ k, .check k .dispatcher true ∈ s.log →
    (∃ o, .drop k .dispatcher o ∈ s.log) ∨ ∃ w, s.dispatcher = .dropObserve w ∧ w.serial = k

/-- Neither accepts a message nor finds one expired on the dispatcher. -/
def Event.isNeutral : Event → Bool
  | .accept _ _ _ => false
  | .check _ .dispatcher true => false
  | _ => true

/-- A step that promises nothing new and breaks no promise. -/
theorem Intent.keep {es : List Event} (h : Intent profiles s) (hlog : s'.log = s.log ++ es)
    (hes : ∀ e ∈ es, e.isNeutral = true)
    (hbound : ∀ e b, s'.dispatcher.bound? = some (e, b) → .claim e.serial e.callbackGroup ∈ s'.log ∧
      ∀ b', b = some b' → b' = bindingFor profiles e)
    (hsel : ∀ w, s.dispatcher = .observeSelected w →
      s'.dispatcher = .observeSelected w ∨ ∃ t, .select w.serial t ∈ es)
    (hdrop : ∀ w, s.dispatcher = .dropObserve w →
      s'.dispatcher = .dropObserve w ∨ ∃ o, .drop w.serial .dispatcher o ∈ es) :
    Intent profiles s' := by
  have old : ∀ e, e.isNeutral = false → e ∈ s'.log → e ∈ s.log := by
    intro e he hmem
    rw [hlog] at hmem
    obtain hmem | hmem := List.mem_append.mp hmem
    · exact hmem
    · rw [hes e hmem] at he
      contradiction
  have mono : ∀ e ∈ s.log, e ∈ s'.log := fun e he => by
    rw [hlog]
    exact List.mem_append_left _ he
  refine ⟨hbound, ?_, ?_, ?_⟩
  · intro k o r hacc
    obtain ⟨e, he, hor⟩ := h.accepted k o r (old _ rfl hacc)
    exact ⟨e, mono _ he, hor⟩
  · intro k r hacc
    obtain ⟨t, ht⟩ | ⟨w, hw, hk⟩ := h.announced k r (old _ rfl hacc)
    · exact .inl ⟨t, mono _ ht⟩
    · obtain hw' | ⟨t, ht⟩ := hsel w hw
      · exact .inr ⟨w, hw', hk⟩
      · exact .inl ⟨t, by rw [hlog, ← hk]; exact List.mem_append_right _ ht⟩
  · intro k hchk
    obtain ⟨o, ho⟩ | ⟨w, hw, hk⟩ := h.dropped k (old _ rfl hchk)
    · exact .inl ⟨o, mono _ ho⟩
    · obtain hw' | ⟨o, ho⟩ := hdrop w hw
      · exact .inr ⟨w, hw', hk⟩
      · exact .inl ⟨o, by rw [hlog, ← hk]; exact List.mem_append_right _ ho⟩

/-- Giving back says nothing about an admission. -/
theorem returnEvents_neutral (w : PendingWork) : ∀ e ∈ w.returnEvents, e.isNeutral = true := by
  simp only [PendingWork.returnEvents]
  split <;> simp [Event.isNeutral]

/-- Releasing says nothing about an admission. -/
theorem releaseEvents_neutral (e : AnyExecutable) :
    ∀ e' ∈ e.releaseEvents, e'.isNeutral = true := by
  simp only [AnyExecutable.releaseEvents]
  split <;> simp [Event.isNeutral]

/-- Only the dispatcher accepts messages, and only it condemns them. -/
theorem neutral_of_not_dispatched {e : Event} (h : e.dispatched = false) : e.isNeutral = true := by
  cases e <;> simp_all [Event.dispatched, Event.isNeutral]

/-- The program points that still have to tell the observer. -/
def DispatcherPc.owesObserver : DispatcherPc → Bool
  | .observeSelected _ | .dropObserve _ => true
  | _ => false

/-- A step from a program point without a promise. -/
theorem Intent.apart {es : List Event} {pc : DispatcherPc} (h : Intent profiles s)
    (hlog : s'.log = s.log ++ es) (hes : ∀ e ∈ es, e.isNeutral = true)
    (hbound : ∀ e b, s'.dispatcher.bound? = some (e, b) → .claim e.serial e.callbackGroup ∈ s'.log ∧
      ∀ b', b = some b' → b' = bindingFor profiles e)
    (hd : s.dispatcher = pc) (hpc : pc.owesObserver = false) : Intent profiles s' := by
  refine h.keep hlog hes hbound ?_ ?_
  · intro w hw
    rw [← hd, hw] at hpc
    contradiction
  · intro w hw
    rw [← hd, hw] at hpc
    contradiction

/-- A step to a program point without a binding, too: what it promises, it owes. -/
theorem Intent.owe {es : List Event} {pc : DispatcherPc} (h : Intent profiles s)
    (hlog : s'.log = s.log ++ es) (hbound : s'.dispatcher.bound? = none)
    (hd : s.dispatcher = pc) (hpc : pc.owesObserver = false)
    (haccept : ∀ k o r, .accept k o r ∈ es → ∃ e : AnyExecutable,
      .claim k e.callbackGroup ∈ s.log ∧ o = (bindingFor profiles e).observer ∧
        r = (bindingFor profiles e).profile.rejectExpired)
    (hselect : ∀ k r, .accept k true r ∈ es →
      ∃ w, s'.dispatcher = .observeSelected w ∧ w.serial = k)
    (hdrop : ∀ k, .check k .dispatcher true ∈ es →
      ∃ w, s'.dispatcher = .dropObserve w ∧ w.serial = k) : Intent profiles s' := by
  have mono : ∀ e ∈ s.log, e ∈ s'.log := fun e he => by
    rw [hlog]
    exact List.mem_append_left _ he
  constructor
  case bound =>
      intro e b hb
      rw [hbound] at hb
      contradiction
  case accepted =>
      intro k o r hmem
      rw [hlog] at hmem
      obtain hmem | hmem := List.mem_append.mp hmem
      · obtain ⟨e, he, hor⟩ := h.accepted k o r hmem
        exact ⟨e, mono _ he, hor⟩
      · obtain ⟨e, he, hor⟩ := haccept k o r hmem
        exact ⟨e, mono _ he, hor⟩
  case announced =>
      intro k r hmem
      rw [hlog] at hmem
      obtain hmem | hmem := List.mem_append.mp hmem
      · obtain ⟨t, ht⟩ | ⟨w, hw, -⟩ := h.announced k r hmem
        · exact .inl ⟨t, mono _ ht⟩
        · rw [← hd, hw] at hpc
          contradiction
      · exact .inr (hselect k r hmem)
  case dropped =>
      intro k hmem
      rw [hlog] at hmem
      obtain hmem | hmem := List.mem_append.mp hmem
      · obtain ⟨o, ho⟩ | ⟨w, hw, -⟩ := h.dropped k hmem
        · exact .inl ⟨o, mono _ ho⟩
        · rw [← hd, hw] at hpc
          contradiction
      · exact .inr (hdrop k hmem)

/-- Such a step that promises nothing. -/
theorem Intent.leave {es : List Event} {pc : DispatcherPc} (h : Intent profiles s)
    (hlog : s'.log = s.log ++ es) (hes : ∀ e ∈ es, e.isNeutral = true)
    (hbound : s'.dispatcher.bound? = none) (hd : s.dispatcher = pc)
    (hpc : pc.owesObserver = false) : Intent profiles s' :=
  h.owe hlog hbound hd hpc (fun _ _ _ hmem => nomatch hes _ hmem)
    (fun _ _ hmem => nomatch hes _ hmem) fun _ hmem => nomatch hes _ hmem

/-- A step without effects to such a program point. -/
theorem Intent.quiet {pc : DispatcherPc} (h : Intent profiles s)
    (hbound : s'.dispatcher.bound? = none) (hlog : s'.log = s.log) (hd : s.dispatcher = pc)
    (hpc : pc.owesObserver = false) : Intent profiles s' :=
  h.leave (hlog.trans (List.append_nil _).symm) nofun hbound hd hpc

/-- A step that keeps the bound executable. -/
theorem Intent.stay {es : List Event} {e : AnyExecutable} {b : ProfileBinding}
    (h : Intent profiles s) (hlog : s'.log = s.log ++ es) (hes : ∀ e ∈ es, e.isNeutral = true)
    (hold : s.dispatcher.bound? = some (e, some b))
    (hnew : s'.dispatcher.bound? = some (e, some b)) :
    Intent profiles s' := by
  refine h.keep hlog hes ?_ ?_ ?_
  · rw [hnew, ← hold]
    intro e' b' hb
    obtain ⟨h1, h2⟩ := h.bound e' b' hb
    exact ⟨by rw [hlog]; exact List.mem_append_left _ h1, h2⟩
  · intro w hw
    rw [hw] at hold
    contradiction
  · intro w hw
    rw [hw] at hold
    contradiction

/-- The next executable is claimed under its group. -/
theorem getNextStep_intent (h : Intent profiles s) (hd : s.dispatcher = .getNext)
    (hs : getNextStep s i = some s') : Intent profiles s' := by
  cases i <;> simp only [getNextStep] at hs <;> cases hs
  case selected group subscription =>
      refine h.apart rfl (by simp [Event.isNeutral]) ?_ hd rfl
      rintro e b hb
      cases hb
      exact ⟨by simp, by simp⟩
  case selectedThrows group subscription =>
      refine h.leave (List.append_assoc ..) ?_ rfl hd rfl
      intro e he
      obtain he | he := List.mem_append.mp he
      · rw [List.mem_singleton.mp he]
        rfl
      · exact releaseEvents_neutral _ e he
  case nothing | throws => exact h.quiet (by rfl) (by rfl) hd rfl

/-- The profile is the one that is bound. -/
theorem bindStep_intent {e : AnyExecutable} (h : Intent profiles s) (hd : s.dispatcher = .bind e)
    (hs : bindStep profiles s e i = some s') : Intent profiles s' := by
  have hbound : s.dispatcher.bound? = some (e, none) := by rw [hd]; rfl
  have goto : ∀ pc : DispatcherPc,
      (∀ e' b, pc.bound? = some (e', b) → e' = e ∧ b = some (bindingFor profiles e)) →
      Intent profiles (s.goto pc) := by
    intro pc hpc
    refine h.apart (List.append_nil _).symm nofun ?_ hd rfl
    intro e' b hb
    obtain ⟨rfl, rfl⟩ := hpc e' b hb
    exact ⟨(h.bound _ _ hbound).1, fun b' hb' => (Option.some.inj hb').symm⟩
  cases i <;> simp only [bindStep] at hs <;> try contradiction
  case ok =>
      repeat' split at hs
      all_goals cases hs
      · exact goto _ (by rintro e' b ⟨⟩)
      · exact goto _ (by rintro e' b ⟨⟩; exact ⟨rfl, rfl⟩)
      · exact goto _ (by rintro e' b ⟨⟩)
      · exact goto _ (by rintro e' b ⟨⟩; exact ⟨rfl, rfl⟩)
  case throws =>
      cases hs
      exact h.leave rfl (releaseEvents_neutral e) rfl hd rfl

/-- The message is accepted with the flags of its binding. -/
theorem extractStep_intent {w : PendingWork} {b : ProfileBinding} (h : Intent profiles s)
    (hd : s.dispatcher = .extract w b) (hs : extractStep s w b i = some s') :
    Intent profiles s' := by
  cases i <;> simp only [extractStep] at hs <;> try contradiction
  case throws =>
      cases hs
      exact h.quiet (by rfl) (by rfl) hd rfl
  case metadata m =>
      split at hs <;> cases hs
      · exact h.quiet (by rfl) (by rfl) hd rfl
      · obtain ⟨hclaim, hb⟩ := h.bound w.executable (some b) (by rw [hd]; rfl)
        refine h.owe rfl ?_ hd rfl ?_ ?_ (by simp)
        · simp only [State.goto]
          split <;> rfl
        · intro k o r hmem
          cases List.mem_singleton.mp hmem
          exact ⟨w.executable, hclaim, by rw [hb b rfl], by rw [hb b rfl]⟩
        · intro k r hmem
          obtain ⟨rfl, ho, -⟩ : k = w.serial ∧ true = b.observer ∧
              r = b.profile.rejectExpired := by
            simpa using hmem
          exact ⟨_, if_pos ho.symm, rfl⟩

/-- The observer is told what was extracted. -/
theorem observeSelectedStep_intent {w : PendingWork} (h : Intent profiles s)
    (hd : s.dispatcher = .observeSelected w) (hs : observeSelectedStep s w i = some s') :
    Intent profiles s' := by
  have hstep : ∀ pc : DispatcherPc, pc.bound? = none →
      Intent profiles ((s.emit [.select w.serial .dispatcher]).goto pc) := by
    intro pc hpc
    refine h.keep rfl (by simp [Event.isNeutral])
      (fun e b hb => ?_) ?_ (by rw [hd]; rintro w' ⟨⟩)
    · cases hpc.symm.trans hb
    · intro w' hw'
      cases hd.symm.trans hw'
      exact .inr ⟨.dispatcher, by simp⟩
  cases i <;> simp only [observeSelectedStep] at hs <;> cases hs <;> exact hstep _ rfl

/-- What the dispatcher finds expired, it drops next. -/
theorem dispatchCheckStep_intent {w : PendingWork} (h : Intent profiles s)
    (hd : s.dispatcher = .checkExpired w) (hs : dispatchCheckStep s w i = some s') :
    Intent profiles s' := by
  obtain ⟨-, rfl⟩ | ⟨b, now, -, rfl⟩ := dispatchCheckStep_cases hs
  · exact h.quiet (by rfl) (by rfl) hd rfl
  · cases b with
    | false => exact h.leave rfl (by simp [Event.isNeutral]) rfl hd rfl
    | true =>
        refine h.owe rfl rfl hd rfl (by simp) (by simp) ?_
        intro k hmem
        have hk : k = w.serial := by simpa using hmem
        exact ⟨w, rfl, hk.symm⟩

/-- The observer is told of the drop. -/
theorem dispatchDropStep_intent {w : PendingWork} (h : Intent profiles s)
    (hd : s.dispatcher = .dropObserve w) (hs : dispatchDropStep s w i = some s') :
    Intent profiles s' := by
  have hstep : ∀ pc : DispatcherPc, pc.bound? = none →
      Intent profiles ((s.emit [.drop w.serial .dispatcher w.observer]).goto pc) := by
    intro pc hpc
    refine h.keep rfl (by simp [Event.isNeutral])
      (fun e b hb => ?_) (by rw [hd]; rintro w' ⟨⟩) ?_
    · cases hpc.symm.trans hb
    · intro w' hw'
      cases hd.symm.trans hw'
      exact .inr ⟨w.observer, by simp⟩
  cases i <;> simp only [dispatchDropStep] at hs <;> try contradiction
  case ok =>
      cases hs
      exact hstep _ rfl
  case throws =>
      split at hs <;> cases hs
      exact hstep _ rfl

/-- The last wait says nothing about an admission. -/
theorem finalWaitStep_intent (h : Intent profiles s) (hd : s.dispatcher = .finalWait)
    (hs : finalWaitStep s i = some s') : Intent profiles s' := by
  simp only [finalWaitStep] at hs
  repeat' split at hs
  all_goals cases hs
  all_goals first
    | exact h.quiet (by rfl) (by rfl) hd rfl
    | exact h.quiet (by simp only [hd]; rfl) (by rfl) hd rfl
    | exact h.leave rfl (by simp [Event.isNeutral]) rfl hd rfl

/-- A step of the dispatcher keeps what it is about. -/
theorem dispatcher_intent (h : Intent profiles s) (hs : dispatcherStep profiles s i = some s') :
    Intent profiles s' := by
  cases hd : s.dispatcher <;> simp only [dispatcherStep, hd] at hs
  case getNext => exact getNextStep_intent h hd hs
  case bind e => exact bindStep_intent h hd hs
  case createMessage w b =>
      cases i <;> simp only [createStep] at hs <;> cases hs
      case ok => exact h.stay rfl (by simp [Event.isNeutral]) (by rw [hd]; rfl) rfl
      case throws => exact h.quiet (by rfl) (by rfl) hd rfl
  case take w b =>
      cases i <;> simp only [takeStep] at hs <;> cases hs
      case ok => exact h.stay (List.append_nil _).symm (by simp) (by rw [hd]; rfl) rfl
      case nothing | throws => exact h.quiet (by rfl) (by rfl) hd rfl
  case extract w b => exact extractStep_intent h hd hs
  case observeSelected w => exact observeSelectedStep_intent h hd hs
  case checkExpired w => exact dispatchCheckStep_intent h hd hs
  case dropObserve w => exact dispatchDropStep_intent h hd hs
  case returnMessage w after =>
      split at hs <;> cases hs
      exact h.leave rfl (returnEvents_neutral w) rfl hd rfl
  case releaseGroup w after =>
      split at hs <;> cases after <;> cases hs <;>
        exact h.leave rfl (releaseEvents_neutral _) rfl hd rfl
  case handoff w =>
      split at hs <;> cases hs
      refine h.leave rfl ?_ rfl hd rfl
      cases s.pending with
      | none => simp
      | some old => exact releaseEvents_neutral _
  case entry | reset | spawn =>
      cases i <;> simp only [startStep, hd] at hs
      all_goals try split at hs
      all_goals cases hs
      all_goals exact h.quiet (by rfl) (by rfl) hd rfl
  case waitReady | waitIdle =>
      simp only [waitReadyStep, waitIdleStep] at hs
      repeat' split at hs
      all_goals cases hs
      all_goals refine h.quiet ?_ (by rfl) hd rfl
      all_goals simp only [hd, State.goto, State.dispatchThrows]
      all_goals rfl
  case finalWait => exact finalWaitStep_intent h hd hs
  case loopHead =>
      split at hs <;> cases hs
      refine h.quiet ?_ (by rfl) hd rfl
      simp only [State.goto]
      split <;> rfl
  case makeHint w b =>
      cases i <;> simp only [makeHintStep] at hs
      all_goals try split at hs
      all_goals cases hs
      all_goals exact h.quiet (by rfl) (by rfl) hd rfl
  case publish w =>
      cases i <;> simp only [publishStep] at hs <;> cases hs
      case ok => exact h.leave rfl (by simp [Event.isNeutral]) rfl hd rfl
      case throws => exact h.quiet (by rfl) (by rfl) hd rfl
  case done => contradiction
  all_goals
    split at hs <;> cases hs
    exact h.quiet (by rfl) (by rfl) hd rfl

/-- Every step keeps what it is about. -/
theorem step_intent : Steps.Preserved (step profiles) (Intent profiles) := by
  intro s a s' h hs
  cases a with
  | dispatcher i => exact dispatcher_intent h hs
  | worker i =>
      obtain ⟨hd, -, es, hlog, hes⟩ := worker_frame hs
      refine h.keep hlog (fun e he => neutral_of_not_dispatched (hes e he)) ?_
        (fun w hw => .inl (hd.trans hw)) fun w hw => .inl (hd.trans hw)
      rw [hd]
      intro e b hb
      obtain ⟨h1, h2⟩ := h.bound e b hb
      exact ⟨by rw [hlog]; exact List.mem_append_left _ h1, h2⟩
  | cancel | shutdown =>
      cases hs
      exact ⟨h.bound, h.accepted, h.announced, h.dropped⟩
  | wake t => cases t <;> cases hs <;> exact ⟨h.bound, h.accepted, h.announced, h.dropped⟩

/-- Every reachable state keeps what it is about. -/
theorem Reachable.intent (h : Reachable profiles s) : Intent profiles s := by
  obtain ⟨s₀, as, h₀, has⟩ := h
  refine step_intent.exec ⟨?_, ?_, ?_, ?_⟩ has
  · rw [h₀.dispatcher]
    nofun
  all_goals
    rw [h₀.log]
    nofun

/-- A message is accepted before anything else happens to it. -/
theorem Ledger.accept_first {l l' : List Event} {k : Nat} {o r : Bool}
    (h : Ledger.read (l ++ .accept k o r :: l') = some L) :
    (∀ worker hint, .publish worker k hint ∉ l) ∧ k ∉ resolutions l := by
  obtain ⟨L₁, L₂, hL₁, hacc, -⟩ := Ledger.read_middle h
  cases hacc with
  | accept _ _ hst hm =>
      exact ⟨(Ledger.admission hL₁).unpublished (.inr (.inl hst)),
        (Ledger.announced hL₁).open' (by rw [hst]; exact ⟨nofun, nofun⟩)⟩

/-- Past its acceptance the job in progress has been announced. -/
theorem Ledger.selected_of_accepted {l : List Event} {r : Bool} (h : Ledger.read l = some L)
    (hacc : .accept L.serial true r ∈ l) (hst : L.stage ≠ .accepted) : L.serial ∈ selections l :=
  (Ledger.announced h).current.mpr ⟨((Ledger.admission h).flags true r hacc).1.symm, hst⟩

/-- What `spin` promises about the messages of its groups. -/
structure MessageContract (profiles : GroupId → Option ProfileBinding) (s : State) : Prop where
  /-- The observer and `reject_expired` of an accepted message are those of its group. -/
  binding : ∀ k o r, .accept k o r ∈ s.log → ∃ e : AnyExecutable,
    .claim k e.callbackGroup ∈ s.log ∧ o = (bindingFor profiles e).observer ∧
      r = (bindingFor profiles e).profile.rejectExpired
  /-- An accepted message is announced exactly once, by the very next call. -/
  announced : ∀ k r, .accept k true r ∈ s.log →
    (∀ w, s.dispatcher = .observeSelected w → w.serial ≠ k) → (selections s.log).count k = 1
  announcer : ∀ k t, .select k t ∈ s.log → t = .dispatcher
  beforePublish : ∀ l worker k hint l', s.log = l ++ .publish worker k hint :: l' →
    ∀ r, .accept k true r ∈ s.log → k ∈ selections l
  beforeResolution : ∀ l e l' k, s.log = l ++ e :: l' → e.resolved = some k →
    ∀ r, .accept k true r ∈ s.log → k ∈ selections l
  /-- Handled or dropped at most once, and not both. -/
  once : ∀ k, (resolutions s.log).count k ≤ 1
  /-- Without an exception a drained executor has handled or dropped every
  announced message, in the order of the announcements. -/
  drained : (∀ w, ¬Held s w) → ¬Doomed s →
    (resolutions s.log).filter (· ∈ selections s.log) = selections s.log
  /-- The expiry check before a callback is the worker's, and it has passed. -/
  checked : ∀ l k l', s.log = l ++ .handle k :: l' → (checks l).getLast? = some (k, .worker, false)
  /-- A message the dispatcher finds expired is dropped by the very next
  call and never published. -/
  condemned : ∀ k, .check k .dispatcher true ∈ s.log →
    (∀ worker hint, .publish worker k hint ∉ s.log) ∧
    ((∃ o, .drop k .dispatcher o ∈ s.log) ∨ ∃ w, s.dispatcher = .dropObserve w ∧ w.serial = k)
  /-- The worker is parked whenever the dispatcher holds a message. -/
  parked : ∀ w, s.dispatcher.work? = some w → Parked s
  rejecting : ∀ k t o, .drop k t o ∈ s.log → ∃ e : AnyExecutable,
    .claim k e.callbackGroup ∈ s.log ∧ (bindingFor profiles e).profile.rejectExpired = true

/-- **Admission**: every interleaving keeps the message contract. -/
theorem messages_admitted_once (h : Reachable profiles s) : MessageContract profiles s := by
  have hintent := h.intent
  obtain ⟨L, hread, hc, hr⟩ := h.read
  have hadm := Ledger.admission hread
  have hann := Ledger.announced hread
  constructor
  case binding => exact hintent.accepted
  case announced =>
      intro k r hacc hother
      obtain ⟨t, ht⟩ : ∃ t, Event.select k t ∈ s.log := by
        refine (hintent.announced k r hacc).resolve_right ?_
        rintro ⟨w, hw, hk⟩
        exact hother w hw hk
      rw [hann.selectedOnce.count, if_pos (Ledger.mem_selections.mpr ⟨t, ht⟩)]
  case announcer =>
      intro k t hmem
      obtain ⟨l, l', hl⟩ := List.append_of_mem hmem
      obtain ⟨L₁, L₂, -, hacc, -⟩ := Ledger.read_middle (hl ▸ hread)
      cases hacc
      rfl
  case beforePublish =>
      intro l worker k hint l' hl r hmem
      obtain ⟨L₁, L₂, hL₁, hacc, -⟩ := Ledger.read_middle (hl ▸ hread)
      have hbefore : .accept k true r ∈ l := by
        rw [hl] at hmem
        obtain hmem | hmem := List.mem_append.mp hmem
        · exact hmem
        · obtain ⟨m, m', rfl⟩ := List.append_of_mem ((List.mem_cons.mp hmem).resolve_left (by simp))
          rw [hl, ← List.cons_append, ← List.append_assoc] at hread
          exact absurd (by simp) ((Ledger.accept_first hread).1 worker hint)
      cases hacc with
      | publish _ _ hst _ _ =>
          exact Ledger.selected_of_accepted hL₁ hbefore (by rw [hst]; split <;> simp)
  case beforeResolution =>
      intro l e l' k hl hk r hmem
      obtain ⟨L₁, L₂, hL₁, hacc, -⟩ := Ledger.read_middle (hl ▸ hread)
      have hbefore : .accept k true r ∈ l := by
        rw [hl] at hmem
        obtain hmem | hmem := List.mem_append.mp hmem
        · exact hmem
        · have hne : Event.accept k true r ≠ e := by
            rintro rfl
            contradiction
          obtain ⟨m, m', rfl⟩ := List.append_of_mem ((List.mem_cons.mp hmem).resolve_left hne)
          rw [hl, ← List.cons_append, ← List.append_assoc] at hread
          refine absurd ?_ (Ledger.accept_first hread).2
          simp [resolutions, hk]
      cases hacc <;> cases hk
      case handle hst => exact Ledger.selected_of_accepted hL₁ hbefore (by rw [hst]; simp)
      case dispatcherDrop hst => exact Ledger.selected_of_accepted hL₁ hbefore (by rw [hst]; simp)
      case workerDrop hst => exact Ledger.selected_of_accepted hL₁ hbefore (by rw [hst]; simp)
  case once => exact fun k => List.nodup_iff_count.mp hann.resolvedOnce k
  case drained =>
      intro hfree hok
      obtain ⟨-, -, hst⟩ :=
        hr.free (Option.eq_none_iff_forall_ne_some.mpr fun w hw => hfree w (.inl hw))
        (Option.eq_none_iff_forall_ne_some.mpr fun w hw => hfree w (.inr (.inl hw)))
        (Option.eq_none_iff_forall_ne_some.mpr fun w hw => hfree w (.inr (.inr hw)))
      have hopen : L.unresolved = [] := by
        simp [Ledger.unresolved, Stage.unresolved_of_settled (hst.resolve_right hok)]
      exact (hann.order.trans (by rw [hopen, List.append_nil])).symm
  case checked =>
      intro l k l' hl
      obtain ⟨L₁, L₂, hL₁, hacc, -⟩ := Ledger.read_middle (hl ▸ hread)
      cases hacc with
      | handle hst => exact (Ledger.admission hL₁).checked hst
  case condemned => exact fun k hk => ⟨(hadm.condemned k hk).1, hintent.dropped k hk⟩
  case parked =>
      intro w hw
      refine hc.parked ?_
      cases hp : s.dispatcher <;> rw [hp] at hw <;> first | rfl | contradiction
  case rejecting =>
      intro k t o hdrop
      obtain ⟨o', hacc⟩ := hadm.dropped k t o hdrop
      obtain ⟨e, he, -, hrej⟩ := hintent.accepted k o' true hacc
      exact ⟨e, he, hrej.symm⟩

/-- The messages of the tour are resolved in their order. -/
theorem messages_admitted_once_tour :
    (resolutions (tourState tour).log).filter (· ∈ selections (tourState tour).log) = [1, 2] := by
  have hidle : ∀ w, ¬Held (tourState tour) w := by
    obtain ⟨-, -, hc, -⟩ := tour_reachable.read
    exact hc.done (show (tourState tour).dispatcher = .done none by decide)
  have hok : ¬Doomed (tourState tour) := by
    rw [Doomed]
    decide
  exact (messages_admitted_once tour_reachable).drained hidle hok

end Admission

end ScxSlam.Executor
