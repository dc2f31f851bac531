import ScxSlam.Workload.Account

/-!
# ScxSlam.Workload.Drain

The sources of the dispatch loop and its exit, and what is true behind its
`break`: nothing was lost, and nothing is left.
-/

namespace ScxSlam.Workload

open DependentGraph

/-! ## sources -/

/-- A source has offered its first `id` releases out of `n`. -/
structure Source.Sound (begin period n : Nat) (src : Source) : Prop where
  next : src.next = begin + period * src.id
  bounded : src.id ≤ n
  releases : src.releases = (List.range src.id).map (begin + period * ·)

section Sources

variable {begin period n finish t : Nat} {src : Source}

/-- A due release is one of the `n`. -/
theorem Source.Sound.tick (h : src.Sound begin period n) (hn : finish = begin + period * n)
    (hdue : src.due finish t = true) : (src.tick period).Sound begin period n := by
  have hnext := h.next
  refine ⟨?_, ?_, ?_⟩
  · show src.next + period = begin + period * (src.id + 1)
    rw [hnext, Nat.mul_add, Nat.mul_one, Nat.add_assoc]
  · have hlt : src.next < finish := by
      unfold Source.due at hdue
      simp only [Bool.and_eq_true, decide_eq_true_eq] at hdue
      exact hdue.1
    have hmul : period * src.id < period * n := by omega
    exact Nat.lt_of_mul_lt_mul_left hmul
  · show src.releases ++ [src.next] = (List.range (src.id + 1)).map _
    rw [List.range_succ, List.map_append, h.releases, hnext]
    rfl

/-- Behind the end of the window there is no release left. -/
theorem Source.Sound.exhausted (h : src.Sound begin period n) (hn : finish = begin + period * n)
    (hpos : 0 < period) (hend : finish ≤ src.next) : src.id = n := by
  have hnext := h.next
  have hmul : period * n ≤ period * src.id := by omega
  exact Nat.le_antisymm h.bounded (Nat.le_of_mul_le_mul_left hmul hpos)

/-- The loop over a source ends where no release is due. -/
theorem Source.swept (hdue : ¬ src.due finish t = true) (ht : finish ≤ t) :
    finish ≤ src.next := by
  unfold Source.due at hdue
  simp only [Bool.and_eq_true, decide_eq_true_eq] at hdue
  omega

end Sources

/-- How many of the three source loops are behind, since `t` was read. -/
def Pc.stage : Pc → Nat
  | .camera => 1
  | .control => 2
  | .estimator | .dispatch _ | .exit | .done => 3
  | _ => 0

/-- The sources and what they have offered. -/
structure Fed (o : Options) (s : State) : Prop where
  window : s.finish = s.begin + o.seconds * 1000 * ms
  imu : s.imu.Sound s.begin (5 * ms) (200 * o.seconds)
  camera : s.camera.Sound s.begin (50 * ms) (20 * o.seconds)
  control : s.control.Sound s.begin (10 * ms) (100 * o.seconds)
  imuOffered : (s.worker .imu).offered = s.imu.id
  cameraOffered : (s.worker .camera).offered = s.camera.id
  controlOffered : (s.worker .control).offered = s.control.id
  imuSwept : 1 ≤ s.pc.stage → s.finish ≤ s.t → s.finish ≤ s.imu.next
  cameraSwept : 2 ≤ s.pc.stage → s.finish ≤ s.t → s.finish ≤ s.camera.next
  controlSwept : 3 ≤ s.pc.stage → s.finish ≤ s.t → s.finish ≤ s.control.next

/-- The workers that a source feeds. -/
def Role.fed (r : Role) : Prop := r = .imu ∨ r = .camera ∨ r = .control

/-- The sources, the window and the offers of the sources are the same. -/
structure SameFeed (s s' : State) : Prop where
  begin : s'.begin = s.begin
  finish : s'.finish = s.finish
  t : s'.t = s.t
  imu : s'.imu = s.imu
  camera : s'.camera = s.camera
  control : s'.control = s.control
  offered : ∀ r, r.fed → (s'.worker r).offered = (s.worker r).offered

section Feed

variable {o : Options} {s s' s₁ : State} {r : Role} {W : Worker Closure} {job : Job Closure}

/-- A step that feeds nothing keeps what is fed. -/
theorem Fed.frame (h : Fed o s) (hs : SameFeed s s') (hpc : s'.pc.stage ≤ s.pc.stage) :
    Fed o s' := by
  constructor
  case window => rw [hs.finish, hs.begin]; exact h.window
  case imu => rw [hs.imu, hs.begin]; exact h.imu
  case camera => rw [hs.camera, hs.begin]; exact h.camera
  case control => rw [hs.control, hs.begin]; exact h.control
  case imuOffered => rw [hs.offered _ (by simp [Role.fed]), hs.imu]; exact h.imuOffered
  case cameraOffered => rw [hs.offered _ (by simp [Role.fed]), hs.camera]; exact h.cameraOffered
  case controlOffered => rw [hs.offered _ (by simp [Role.fed]), hs.control]; exact h.controlOffered
  case imuSwept =>
      rw [hs.finish, hs.t, hs.imu]
      exact fun hle => h.imuSwept (Nat.le_trans hle hpc)
  case cameraSwept =>
      rw [hs.finish, hs.t, hs.camera]
      exact fun hle => h.cameraSwept (Nat.le_trans hle hpc)
  case controlSwept =>
      rw [hs.finish, hs.t, hs.control]
      exact fun hle => h.controlSwept (Nat.le_trans hle hpc)

theorem SameFeed.refl (s : State) : SameFeed s s :=
  ⟨rfl, rfl, rfl, rfl, rfl, rfl, fun _ _ => rfl⟩

theorem SameFeed.trans (h : SameFeed s s₁) (h' : SameFeed s₁ s') : SameFeed s s' where
  begin := h'.begin.trans h.begin
  finish := h'.finish.trans h.finish
  t := h'.t.trans h.t
  imu := h'.imu.trans h.imu
  camera := h'.camera.trans h.camera
  control := h'.control.trans h.control
  offered r hr := (h'.offered r hr).trans (h.offered r hr)

/-- One worker changes, but not what it has been offered. -/
theorem SameFeed.setWorker (hW : W.offered = (s.worker r).offered) :
    SameFeed s (s.setWorker r W) := by
  refine ⟨rfl, rfl, rfl, rfl, rfl, rfl, fun q _ => ?_⟩
  rw [worker_setWorker]
  by_cases hq : q = r
  · subst hq
    rw [Function.update_self, hW]
  · rw [Function.update_of_ne hq]

/-- An offer to a worker that no source feeds. -/
theorem SameFeed.offerTo (hr : ¬ r.fed) : SameFeed s (s.offerTo r job) := by
  refine ⟨rfl, rfl, rfl, rfl, rfl, rfl, fun q hq => ?_⟩
  rw [State.offerTo, worker_setWorker, Function.update_of_ne]
  intro heq
  exact hr (heq ▸ hq)

/-! ## each piece of the loop -/

/-- `collect` and `dispatch` offer nothing. -/
theorem collect_offered (W : Worker Closure) (now : Nat) :
    (W.collect now).1.offered = W.offered := by
  unfold Worker.collect
  split <;> rfl

/-- Dispatching offers nothing. -/
theorem dispatch_offered (W : Worker Closure) (now : Nat) :
    (W.dispatch now).offered = W.offered := by
  unfold Worker.dispatch
  split
  · rfl
  · split <;> rfl

/-- A thread touches nothing that is the dispatcher's. -/
theorem advance_own {W' : Worker Closure} {now cpu : Nat} (h : W.advance now cpu = some W') :
    W'.offered = W.offered ∧ W'.pending = W.pending := by
  rw [Worker.advance_frame h]
  exact ⟨rfl, rfl⟩

/-- Going on feeds nothing. -/
theorem same_goto (s : State) (pc : Pc) : SameFeed s (s.goto pc) :=
  ⟨rfl, rfl, rfl, rfl, rfl, rfl, fun _ _ => rfl⟩

/-- Collecting feeds nothing. -/
theorem same_collect (s : State) (todo : List Role) : SameFeed s (s.collectStep todo) := by
  cases todo with
  | nil => exact same_goto s _
  | cons r todo =>
      have hoff := collect_offered (s.worker r) s.now
      simp only [State.collectStep]
      split <;> next hc =>
        rw [hc] at hoff
        exact (SameFeed.setWorker hoff).trans (same_goto _ _)

/-- A call of the graph feeds nothing. -/
theorem same_call (s : State) (c : Call) : SameFeed s (s.call c).2 :=
  ⟨rfl, rfl, rfl, rfl, rfl, rfl, fun _ _ => rfl⟩

/-- Completion functions feed the mapping worker at most. -/
theorem same_complete (s : State) (c : Closure) (todo : List Role) :
    SameFeed s (s.completeStep c todo) := by
  cases c with
  | hog => exact same_goto s _
  | mapping snapshot => exact same_goto s _
  | control selection => exact ⟨rfl, rfl, rfl, rfl, rfl, rfl, fun _ _ => rfl⟩
  | offer m =>
      have hcall := same_call s (.offer m s.now)
      unfold State.completeStep
      dsimp only
      split <;> next heq =>
        rw [heq] at hcall
        exact hcall.trans (same_goto _ _)
  | estimator b =>
      have hcall := same_call s (.complete b.id s.now)
      unfold State.completeStep
      dsimp only
      split
      · next heq =>
        rw [heq] at hcall
        exact hcall.trans (same_goto _ _)
      · next heq =>
        rw [heq] at hcall
        split
        · split
          · exact hcall.trans (same_goto _ _)
          · refine (hcall.trans (SameFeed.offerTo ?_)).trans (same_goto _ _)
            simp [Role.fed]
        · exact hcall.trans (same_goto _ _)
      · next heq =>
        rw [heq] at hcall
        exact hcall.trans (same_goto _ _)

/-- The hogs are no source. -/
theorem same_hogs (s : State) (o : Options) : SameFeed s (s.hogsStep o) := by
  have hfold : ∀ l : List Role, (∀ r ∈ l, r = .hog0 ∨ r = .hog1) → ∀ s : State,
      SameFeed s (l.foldl State.offerHog s) := by
    intro l
    induction l with
    | nil => exact fun _ s => SameFeed.refl s
    | cons r l ih =>
        intro hl s
        refine SameFeed.trans ?_ (ih (fun q hq => hl q (List.mem_cons_of_mem r hq)) _)
        unfold State.offerHog
        split
        · refine SameFeed.offerTo ?_
          obtain rfl | rfl := hl r List.mem_cons_self <;> simp [Role.fed]
        · exact SameFeed.refl s
  unfold State.hogsStep
  refine SameFeed.trans ?_ (same_goto _ _)
  split
  · exact hfold o.hogs (fun r => mem_hogs) s
  · exact SameFeed.refl s

/-- The estimator is no source. -/
theorem same_estimator (s : State) (o : Options) : SameFeed s (s.estimatorStep o) := by
  have hcall := same_call s (.select s.now)
  unfold State.estimatorStep
  split
  · exact same_goto s _
  · split
    · next heq =>
      rw [heq] at hcall
      exact hcall.trans (same_goto _ _)
    · next b _ heq =>
      rw [heq] at hcall
      split
      · exact hcall.trans (same_goto _ _)
      · next s₁ _ _ _ _ =>
        have hburst : SameFeed s₁ { s₁ with
            burstJob := if State.bursts o b then b.id else s₁.burstJob } :=
          ⟨rfl, rfl, rfl, rfl, rfl, rfl, fun _ _ => rfl⟩
        refine ((hcall.trans hburst).trans (SameFeed.offerTo ?_)).trans (same_goto _ _)
        simp [Role.fed]
    · next heq =>
      rw [heq] at hcall
      exact hcall.trans (same_goto _ _)

/-- Dispatching feeds nothing. -/
theorem same_dispatch (s : State) (todo : List Role) : SameFeed s (s.dispatchStep todo) := by
  cases todo with
  | nil => exact same_goto s _
  | cons r todo =>
      exact (SameFeed.setWorker (dispatch_offered _ s.now)).trans (same_goto _ _)

/-- The test for the end feeds nothing. -/
theorem same_exit (s : State) (o : Options) : SameFeed s (s.exitStep o) := by
  unfold State.exitStep
  dsimp only
  split <;> exact same_goto s _

/-- An offer is counted, also if it is dropped. -/
theorem offer_offered (W : Worker Closure) (job : Job Closure) :
    (W.offer job).offered = W.offered + 1 := by
  unfold Worker.offer
  split <;> rfl

/-- An offer is counted by its own worker and by no other. -/
theorem offerTo_offered (s : State) (r q : Role) (job : Job Closure) :
    ((s.offerTo r job).worker q).offered = (s.worker q).offered + if q = r then 1 else 0 := by
  rw [State.offerTo, worker_setWorker]
  by_cases hq : q = r
  · subst hq
    rw [Function.update_self, offer_offered, if_pos rfl]
  · rw [Function.update_of_ne hq, if_neg hq, Nat.add_zero]

/-- The length of the window in periods of each source. -/
theorem Fed.periods (h : Fed o s) : s.finish = s.begin + 5 * ms * (200 * o.seconds) ∧
    s.finish = s.begin + 50 * ms * (20 * o.seconds) ∧
    s.finish = s.begin + 10 * ms * (100 * o.seconds) := by
  have hw := h.window
  simp only [ms] at hw ⊢
  omega

/-- The IMU's source is fed when it is due. -/
theorem fed_imu (h : Fed o s) (hpc : s.pc = .imu) : Fed o s.imuStep := by
  have hzero : s.pc.stage = 0 := by rw [hpc]; rfl
  unfold State.imuStep
  split
  · next hdue =>
    constructor
    case window => exact h.window
    case imu => exact h.imu.tick h.periods.1 hdue
    case camera => exact h.camera
    case control => exact h.control
    case imuOffered => exact (offerTo_offered s .imu .imu _).trans (congrArg (· + 1) h.imuOffered)
    case cameraOffered => exact (offerTo_offered s .imu .camera _).trans h.cameraOffered
    case controlOffered => exact (offerTo_offered s .imu .control _).trans h.controlOffered
    all_goals
      intro hstage
      have hle : _ ≤ s.pc.stage := hstage
      omega
  · next hdue =>
    exact {
      h with
      imuSwept := fun _ ht => Source.swept hdue ht
      cameraSwept := fun hstage => by contradiction
      controlSwept := fun hstage => by contradiction }

/-- The camera's source is fed when it is due. -/
theorem fed_camera (h : Fed o s) (hpc : s.pc = .camera) : Fed o s.cameraStep := by
  have hone : s.pc.stage = 1 := by rw [hpc]; rfl
  unfold State.cameraStep
  split
  · next hdue =>
    constructor
    case window => exact h.window
    case imu => exact h.imu
    case camera => exact h.camera.tick h.periods.2.1 hdue
    case control => exact h.control
    case imuOffered => exact (offerTo_offered s .camera .imu _).trans h.imuOffered
    case cameraOffered =>
        exact (offerTo_offered s .camera .camera _).trans (congrArg (· + 1) h.cameraOffered)
    case controlOffered => exact (offerTo_offered s .camera .control _).trans h.controlOffered
    case imuSwept => exact fun _ ht => h.imuSwept (by rw [hone]) ht
    all_goals
      intro hstage
      have hle : _ ≤ s.pc.stage := hstage
      omega
  · next hdue =>
    exact {
      h with
      imuSwept := fun _ ht => h.imuSwept (by rw [hone]) ht
      cameraSwept := fun _ ht => Source.swept hdue ht
      controlSwept := fun hstage => by contradiction }

/-- One more control tick has been offered or counted as dropped. -/
theorem Fed.tickControl (h : Fed o s) (hstage : s.pc.stage = 2)
    (hdue : s.control.due s.finish s.t = true) (hsame : s₁.pc = s.pc)
    (hfeed : s₁.begin = s.begin ∧ s₁.finish = s.finish ∧ s₁.t = s.t ∧
      s₁.imu = s.imu ∧ s₁.camera = s.camera)
    (hoffered : ∀ r, (s₁.worker r).offered =
      (s.worker r).offered + if r = .control then 1 else 0) :
    Fed o { s₁ with control := s.control.tick (10 * ms) } := by
  obtain ⟨hbegin, hfinish, ht, himu, hcamera⟩ := hfeed
  constructor <;> dsimp only
  case window => rw [hbegin, hfinish]; exact h.window
  case imu => rw [himu, hbegin]; exact h.imu
  case camera => rw [hcamera, hbegin]; exact h.camera
  case control => rw [hbegin]; exact h.control.tick h.periods.2.2 hdue
  case imuOffered => rw [himu]; exact (hoffered .imu).trans h.imuOffered
  case cameraOffered => rw [hcamera]; exact (hoffered .camera).trans h.cameraOffered
  case controlOffered => exact (hoffered .control).trans (congrArg (· + 1) h.controlOffered)
  case imuSwept =>
      rw [hfinish, ht, himu]
      exact fun _ => h.imuSwept (by omega)
  case cameraSwept =>
      rw [hfinish, ht, hcamera]
      exact fun _ => h.cameraSwept (by omega)
  case controlSwept =>
      intro hle
      rw [hsame] at hle
      omega

/-- The control source is fed when it is due. -/
theorem fed_control (h : Fed o s) (hpc : s.pc = .control) : Fed o s.controlStep := by
  have htwo : s.pc.stage = 2 := by rw [hpc]; rfl
  unfold State.controlStep
  split
  · next hdue =>
    split
    · refine h.tickControl htwo hdue rfl ⟨rfl, rfl, rfl, rfl, rfl⟩ fun r => ?_
      rw [State.skipControl, worker_setWorker]
      by_cases hr : r = .control
      · subst hr
        rw [Function.update_self, if_pos rfl]
      · rw [Function.update_of_ne hr, if_neg hr, Nat.add_zero]
    · dsimp only [State.call]
      split
      · next heq =>
        obtain ⟨-, rfl⟩ := Prod.mk.inj heq
        exact h.tickControl htwo hdue rfl ⟨rfl, rfl, rfl, rfl, rfl⟩
          fun r => offerTo_offered s .control r _
      · next heq =>
        obtain ⟨-, rfl⟩ := Prod.mk.inj heq
        exact h.frame ⟨rfl, rfl, rfl, rfl, rfl, rfl, fun _ _ => rfl⟩ (Nat.zero_le _)
      · next heq =>
        obtain ⟨-, rfl⟩ := Prod.mk.inj heq
        exact h.frame ⟨rfl, rfl, rfl, rfl, rfl, rfl, fun _ _ => rfl⟩ (Nat.le_refl _)
  · next hdue =>
    exact {
      h with
      imuSwept := fun _ ht => h.imuSwept (by omega) ht
      cameraSwept := fun _ ht => h.cameraSwept (by omega) ht
      controlSwept := fun _ ht => Source.swept hdue ht }

/-- There are three sources to pass. -/
theorem stage_le (pc : Pc) : pc.stage ≤ 3 := by
  cases pc <;> simp [Pc.stage]

/-- A completion function returns into the first loop or fails. -/
theorem complete_stage (s : State) (c : Closure) (todo : List Role) :
    (s.completeStep c todo).pc.stage = 0 := by
  cases c with
  | hog => rfl
  | mapping snapshot => rfl
  | control selection => rfl
  | offer m =>
      unfold State.completeStep
      dsimp only
      split <;> rfl
  | estimator b =>
      unfold State.completeStep
      dsimp only
      split
      · rfl
      · split
        · split <;> rfl
        · rfl
      · rfl

/-- Every step of the dispatcher. -/
theorem fed_main (h : Fed o s) (hs : s.mainStep o = some s') : Fed o s' := by
  cases hpc : s.pc <;> rw [State.mainStep, hpc] at hs <;> cases hs
  case collect todo =>
      refine h.frame (same_collect s todo) ?_
      cases todo with
      | nil => exact Nat.zero_le _
      | cons r todo =>
          simp only [State.collectStep]
          split <;> exact Nat.zero_le _
  case complete r c todo =>
      refine h.frame (same_complete s c todo) ?_
      rw [complete_stage]
      exact Nat.zero_le _
  case clock =>
      exact {
        h with
        imuSwept := fun hstage => by contradiction
        cameraSwept := fun hstage => by contradiction
        controlSwept := fun hstage => by contradiction }
  case hogs => exact h.frame (same_hogs s o) (Nat.zero_le _)
  case imu => exact fed_imu h hpc
  case camera => exact fed_camera h hpc
  case control => exact fed_control h hpc
  case estimator =>
      refine h.frame (same_estimator s o) ?_
      rw [hpc]
      exact stage_le _
  case dispatch todo =>
      refine h.frame (same_dispatch s todo) ?_
      rw [hpc]
      cases todo <;> exact Nat.le_refl _
  case exit =>
      refine h.frame (same_exit s o) ?_
      rw [hpc]
      unfold State.exitStep
      dsimp only
      split
      · exact Nat.le_refl _
      · exact Nat.zero_le _

/-- Every step feeds the sources as they come due. -/
theorem step_fed (o : Options) : Steps.Preserved (step o) (Fed o) := by
  intro s a s' h hs
  cases a with
  | tick d =>
      rw [step] at hs
      split at hs <;> cases hs
      exact h.frame ⟨rfl, rfl, rfl, rfl, rfl, rfl, fun _ _ => rfl⟩ (Nat.le_refl _)
  | thread r cpu =>
      rw [step] at hs
      obtain ⟨W, hW, rfl⟩ := Option.map_eq_some_iff.mp hs
      exact h.frame (SameFeed.setWorker (advance_own hW).1) (Nat.le_refl _)
  | main => exact fed_main h hs

end Feed

/-! ## the exit -/

/-- What the test before the `break` has seen is still so behind it. -/
def Left (o : Options) (s : State) : Prop :=
  s.pc = .done → s.finish ≤ s.t ∧ (∀ r ∈ o.workers, (s.worker r).pending = false) ∧
    s.drained .imu = true ∧ s.drained .camera = true

/-- Only the test leaves the loop. -/
theorem done_of_main {o : Options} {s s' : State} (hs : s.mainStep o = some s')
    (hdone : s'.pc = .done) : s.pc = .exit := by
  have hstay : ∀ pc : Pc, pc ≠ .done → s.pc = pc → s.pc ≠ .done := by
    intro pc hne heq
    rw [heq]
    exact hne
  cases hpc : s.pc <;> rw [State.mainStep, hpc] at hs <;> cases hs
  case collect.refl todo =>
      cases todo with
      | nil => cases hdone
      | cons r todo =>
          simp only [State.collectStep] at hdone
          split at hdone <;> cases hdone
  case complete.refl r c todo =>
      have hstage := complete_stage s c todo
      rw [hdone] at hstage
      cases hstage
  case clock.refl => cases hdone
  case hogs.refl => cases hdone
  case imu.refl =>
      unfold State.imuStep at hdone
      split at hdone
      · exact absurd hdone (hstay .imu (by simp) hpc)
      · cases hdone
  case camera.refl =>
      unfold State.cameraStep at hdone
      split at hdone
      · exact absurd hdone (hstay .camera (by simp) hpc)
      · cases hdone
  case control.refl =>
      unfold State.controlStep at hdone
      split at hdone
      · split at hdone
        · exact absurd hdone (hstay .control (by simp) hpc)
        · dsimp only [State.call] at hdone
          split at hdone <;> next heq =>
            obtain ⟨-, rfl⟩ := Prod.mk.inj heq
            first | exact absurd hdone (hstay .control (by simp) hpc) | cases hdone
      · cases hdone
  case estimator.refl =>
      unfold State.estimatorStep at hdone
      split at hdone
      · cases hdone
      · split at hdone
        · cases hdone
        · split at hdone <;> cases hdone
        · cases hdone
  case dispatch.refl todo => cases todo <;> cases hdone

/-- What the last test has seen is still so behind the loop. -/
theorem step_left (o : Options) : Steps.Preserved (step o) (Left o) := by
  intro s a s' h hs hdone
  cases a with
  | tick d =>
      rw [step] at hs
      split at hs <;> cases hs
      exact h hdone
  | thread r cpu =>
      rw [step] at hs
      obtain ⟨W, hW, rfl⟩ := Option.map_eq_some_iff.mp hs
      obtain ⟨ht, hidle, himu, hcamera⟩ := h hdone
      refine ⟨ht, ?_, himu, hcamera⟩
      rw [worker_setWorker]
      refine fun q hq => ?_
      by_cases hqr : q = r
      · subst hqr
        rw [Function.update_self, (advance_own hW).2]
        exact hidle q hq
      · rw [Function.update_of_ne hqr]
        exact hidle q hq
  | main =>
      have hexit := done_of_main hs hdone
      rw [step, State.mainStep, hexit] at hs
      cases hs
      unfold State.exitStep at hdone ⊢
      dsimp only at hdone ⊢
      split at hdone
      · next htest =>
        obtain ⟨ht, hidle, himu, hcamera⟩ := htest
        rw [if_pos ⟨ht, hidle, himu, hcamera⟩]
        refine ⟨ht, fun r hr => ?_, himu, hcamera⟩
        rw [List.any_eq_false] at hidle
        show (s.worker r).pending = false
        simpa using hidle r hr
      · cases hdone

/-! ## behind the break -/

/-- The states `main` and its threads can get into. -/
def Reachable (o : Options) (s : State) : Prop :=
  ∃ start as, start < clockLimit ∧ Steps.exec (step o) (State.initial o start) as = some s

/-- Every release was offered once, nothing is left in a worker or the graph,
and the counters of the workers, the graph and `main` agree. -/
structure Drained (o : Options) (s : State) : Prop where
  window : s.finish = s.begin + o.seconds * 1000 * ms
  imuReleases : s.imu.releases = (List.range (200 * o.seconds)).map (s.begin + 5 * ms * ·)
  cameraReleases : s.camera.releases = (List.range (20 * o.seconds)).map (s.begin + 50 * ms * ·)
  controlReleases : s.control.releases =
    (List.range (100 * o.seconds)).map (s.begin + 10 * ms * ·)
  imuOffered : (s.worker .imu).offered = 200 * o.seconds
  cameraOffered : (s.worker .camera).offered = 20 * o.seconds
  controlOffered : (s.worker .control).offered = 100 * o.seconds
  workers : ∀ r ∈ o.workers,
    (s.worker r).offered = (s.worker r).completed + (s.worker r).dropped ∧
      (s.worker r).queue = [] ∧ (s.worker r).busy = false
  running : s.session.graph.running = none
  inboxes : ∀ i, s.session.graph.inbox.get i = []
  streams : ∀ i, (s.session.graph.accounting.get i).offered = (s.worker (roleOf i)).completed
  balance : ∀ i, (s.session.graph.accounting.get i).offered =
    (s.session.graph.accounting.get i).consumed + (s.session.graph.accounting.get i).dropped
  estimator : (s.worker .estimator).completed = (batches s.session.history).length
  mapping : (s.worker .mapping).offered = (completedBatches s.session.history).countP hasCamera
  control : s.usable + s.stale + s.missing = (s.worker .control).completed

section Break

variable {o : Options} {s : State}

/-- All counters start at zero. -/
theorem initial_account (o : Options) (start : Nat) : Account (State.initial o start) := by
  have hnew : ∀ r, ((State.initial o start).worker r).Sound := by
    intro r
    cases r <;> exact ⟨rfl, rfl⟩
  refine ⟨hnew, ?_⟩
  constructor
  case fits =>
      intro r c hc
      cases r <;> cases hc
  case books => exact make_books rfl
  case streams => intro i; cases i <;> rfl
  all_goals rfl

/-- No source has been fed yet. -/
theorem initial_fed (o : Options) (start : Nat) : Fed o (State.initial o start) := by
  have hsource : ∀ period n, Source.Sound (start + 100 * ms) period n
      { next := start + 100 * ms } :=
    fun period n => ⟨by rw [Nat.mul_zero, Nat.add_zero], Nat.zero_le n, rfl⟩
  constructor
  case window => rfl
  case imu => exact hsource _ _
  case camera => exact hsource _ _
  case control => exact hsource _ _
  case imuOffered => rfl
  case cameraOffered => rfl
  case controlOffered => rfl
  all_goals
    intro hstage
    contradiction

/-- The invariants of the loop hold in every reachable state. -/
theorem Reachable.invariants (h : Reachable o s) : Kept s ∧ Fed o s ∧ Left o s := by
  obtain ⟨start, as, -, hrun⟩ := h
  exact ⟨(step_kept o).exec (.inr (initial_account o start)) hrun,
    (step_fed o).exec (initial_fed o start) hrun,
    (step_left o).exec (fun hdone => by cases hdone) hrun⟩

/-- No release inside the window is left where `t` is behind it. -/
theorem Fed.exhausted (h : Fed o s) (hstage : 3 ≤ s.pc.stage) (ht : s.finish ≤ s.t) :
    s.imu.id = 200 * o.seconds ∧ s.camera.id = 20 * o.seconds ∧
      s.control.id = 100 * o.seconds := by
  obtain ⟨hi, hc, hk⟩ := h.periods
  refine ⟨h.imu.exhausted hi (by decide) (h.imuSwept (by omega) ht),
    h.camera.exhausted hc (by decide) (h.cameraSwept (by omega) ht),
    h.control.exhausted hk (by decide) (h.controlSwept hstage ht)⟩

/-- A drained stream has an empty inbox. -/
theorem inbox_of_drained (i : Lane) (h : s.drained i.stream = true) :
    s.session.graph.inbox.get i = [] := by
  unfold State.drained Graph.pending at h
  rw [index_stream] at h
  have hzero : ((s.session.graph.inbox.get i).length == 0) = true := h
  simpa using hzero

/-- **End-to-end accounting**: behind the `break` of the dispatch loop,
whatever the clock and the threads did, every release was offered exactly once
and every count adds up. -/
theorem break_accounts_all (h : Reachable o s) (hdone : s.pc = .done) : Drained o s := by
  obtain ⟨hkept, hfed, hleft⟩ := h.invariants
  have hacc : Account s := by
    obtain ⟨what, hfailed⟩ | hacc := hkept
    · rw [hfailed] at hdone
      cases hdone
    · exact hacc
  obtain ⟨ht, hidle, himu, hcamera⟩ := hleft hdone
  have hheld := hacc.held
  rw [hdone] at hheld
  have hclosures : ∀ r ∈ o.workers, (s.worker r).closures = [] := fun r hr =>
    (hacc.sound r).pending_eq_false.mp (hidle r hr)
  have hempty : ∀ i, s.session.graph.inbox.get i = [] := by
    intro i
    cases i
    · exact inbox_of_drained .imu himu
    · exact inbox_of_drained .camera hcamera
  have hrunning : s.session.graph.running = none := by
    have he := hheld.estimator
    rw [show (s.tallies .estimator).closures = [] from
      hclosures .estimator (by simp [Options.workers])] at he
    cases hr : s.session.graph.running with
    | none => rfl
    | some b =>
        rw [hr] at he
        cases he
  obtain ⟨hi, hc, hk⟩ := hfed.exhausted (by rw [hdone]; decide) ht
  constructor
  case window => exact hfed.window
  case imuReleases => rw [hfed.imu.releases, hi]
  case cameraReleases => rw [hfed.camera.releases, hc]
  case controlReleases => rw [hfed.control.releases, hk]
  case imuOffered => rw [hfed.imuOffered, hi]
  case cameraOffered => rw [hfed.cameraOffered, hc]
  case controlOffered => rw [hfed.controlOffered, hk]
  case workers =>
      intro r hr
      have hcount := (hacc.sound r).counted
      rw [hclosures r hr, List.length_nil] at hcount
      obtain ⟨hbusy, hqueue⟩ := (hacc.sound r).closures_eq_nil.mp (hclosures r hr)
      exact ⟨by omega, hqueue, hbusy⟩
  case running => exact hrunning
  case inboxes => exact hempty
  case streams => exact hheld.streams
  case balance =>
      intro i
      have hb := hheld.books
      have hentered := congrArg List.length (hb.entered i)
      have hcur := hb.current
      rw [hrunning, Option.toList, List.append_nil] at hcur
      rw [hempty i, List.append_nil, hcur] at hentered
      have hoff := hb.offered i
      have hcon := hb.consumed i
      omega
  case estimator =>
      have hcount := (hacc.sound .estimator).counted
      rw [hclosures .estimator (by simp [Options.workers]), List.length_nil] at hcount
      have hkept : (s.worker .estimator).dropped = 0 := hheld.kept
      have hsel : (s.worker .estimator).offered = (batches s.session.history).length :=
        hheld.selected
      omega
  case mapping => exact hheld.mapped
  case control => exact hheld.counted

end Break

/-- The clock stands still for one turn of the loop and then jumps; a thread
that can go on goes first. -/
def schedule (o : Options) (s : State) : Action :=
  match o.workers.find? fun r => ((s.worker r).advance s.now (100 * ms)).isSome with
  | some r => .thread r (100 * ms)
  | none => if s.pc = .clock ∧ s.t = s.now then .tick (500 * ms) else .main

/-- The first `n` steps of that schedule, as far as they are possible. -/
def drive (o : Options) : Nat → State → State
  | 0, s => s
  | n + 1, s => match step o s (schedule o s) with
      | some s' => drive o n s'
      | none => s

/-- Driving the loop is a run. -/
theorem drive_exec (o : Options) (n : Nat) (s : State) :
    ∃ as, Steps.exec (step o) s as = some (drive o n s) := by
  induction n generalizing s with
  | zero => exact ⟨[], rfl⟩
  | succ n ih =>
      unfold drive
      split
      · next s' hs =>
        obtain ⟨as, has⟩ := ih s'
        refine ⟨schedule o s :: as, ?_⟩
        rw [Steps.exec_cons, hs]
        exact has
      · exact ⟨[], rfl⟩

/-- A second with a hog and the estimator's burst. -/
def tourOptions : Options where
  seconds := 1
  hogCount := 1
  scenario := .estimatorBurst

def tourEnd : State := drive tourOptions 1700 (State.initial tourOptions 0)

/-- The end of the tour is a reachable state. -/
theorem tourEnd_reachable : Reachable tourOptions tourEnd := by
  obtain ⟨as, has⟩ := drive_exec tourOptions 1700 (State.initial tourOptions 0)
  exact ⟨0, as, by decide, has⟩

/-- A tour of one second. -/
theorem break_accounts_all_tour :
    (tourEnd.worker .imu).offered = 200 ∧ tourEnd.session.graph.running = none := by
  have hdone : tourEnd.pc = .done := by decide +kernel
  have hdrained := break_accounts_all tourEnd_reachable hdone
  exact ⟨hdrained.imuOffered, hdrained.running⟩

end ScxSlam.Workload
