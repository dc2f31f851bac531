import Mathlib.Data.List.Intervals
import Mathlib.Order.Bounds.Basic
import ScxSlam.PipelineDemo.Acceptance

/-!
# ScxSlam.PipelineDemo.Camera

What the camera generator of `slam_pipeline_demo` puts on the queue of the
vision stage: every frame of the run once and in order, and those of the burst
together, at the frame that delivers it.
-/

namespace ScxSlam.PipelineDemo

/-! ## frames -/

/-- An item of the burst. -/
def WorkItem.marked (w : WorkItem) : Bool := w.burstId ≠ 0

namespace Demo

variable (env : Env) (c : Config) (s : Demo)

/-- The frame of an index. -/
def frameAt (k : Nat) : WorkItem where
  seq := k + 1
  tsNs := s.cameraRelease k
  burstId := (inBurst c k).toNat

/-- The first frames of the run. -/
def frames (n : Nat) : List WorkItem := (List.range n).map (s.frameAt c)

/-- What is on the queue of the vision stage, or was. -/
def shot : List WorkItem := (s.net.line .vis).pushed

/-- What `camera_burst` reports. -/
def reported (k : Key) : Nat := Dictionary.get (burstFields c) k

variable {c s}

theorem nextFrame_eq : s.nextFrame c =
    let g := s.camera
    if inBurst c g.frame then
      if g.frame = c.burstDeliveryIndex then
        { g with frame := g.frame + 1, held := [], sending := g.held ++ [s.frameAt c g.frame] }
      else { g with frame := g.frame + 1, held := g.held ++ [s.frameAt c g.frame] }
    else { g with frame := g.frame + 1, sending := [s.frameAt c g.frame] } :=
  rfl

/-- One more frame. -/
theorem frames_succ (n : Nat) : s.frames c (n + 1) = s.frames c n ++ [s.frameAt c n] := by
  simp [frames, List.range_succ]

/-- The burst ends at its delivery. -/
theorem inBurst_iff {k : Nat} : inBurst c k = true ↔ 0 < c.cameraBurstCount ∧
    c.burstDeliveryIndex + 1 - c.cameraBurstCount ≤ k ∧ k ≤ c.burstDeliveryIndex :=
  decide_eq_true_iff

/-- A frame is marked if it is in the burst. -/
theorem marked_frameAt (k : Nat) : (s.frameAt c k).marked = inBurst c k := by
  cases h : inBurst c k <;> simp [WorkItem.marked, frameAt, h]

/-- The frames of the burst are the last ones up to its delivery. -/
theorem filter_frames {n : Nat} (hn : c.burstDeliveryIndex < n) (hpos : 0 < c.cameraBurstCount) :
    (s.frames c n).filter (·.marked) =
      (List.range' (c.burstDeliveryIndex + 1 - c.cameraBurstCount)
        (c.burstDeliveryIndex + 1 - (c.burstDeliveryIndex + 1 - c.cameraBurstCount))).map
        (s.frameAt c) := by
  have hfilter : (List.range n).filter (fun k => inBurst c k) =
      List.Ico (c.burstDeliveryIndex + 1 - c.cameraBurstCount) (c.burstDeliveryIndex + 1) := by
    have hsplit : (fun k => inBurst c k) = fun k =>
        decide (k < c.burstDeliveryIndex + 1) &&
          decide (c.burstDeliveryIndex + 1 - c.cameraBurstCount ≤ k) := by
      funext k
      rw [Bool.eq_iff_iff, inBurst_iff, Bool.and_eq_true, decide_eq_true_eq, decide_eq_true_eq]
      omega
    rw [hsplit, ← List.filter_filter, ← List.Ico.zero_bot, List.Ico.filter_le,
      List.Ico.filter_lt, Nat.zero_max, Nat.min_eq_right hn]
  have hmarked : (fun w : WorkItem => w.marked) ∘ s.frameAt c = fun k => inBurst c k :=
    funext marked_frameAt
  rw [frames, List.filter_map, hmarked, hfilter]
  rfl

/-- Without a burst no frame is marked. -/
theorem unmarked_of_no_burst {n : Nat} (hzero : c.cameraBurstCount = 0) :
    (s.frames c n).filter (·.marked) = [] := by
  refine List.filter_eq_nil_iff.mpr fun w hw => ?_
  obtain ⟨k, -, rfl⟩ := List.mem_map.mp hw
  rw [marked_frameAt, inBurst_iff]
  omega

end Demo

/-! ## the generator -/

/-- The frames so far are those on the queue, those on their way to it and those
held back, in this order; and nothing of the burst is on its way before the
frame that delivers it. -/
structure Demo.Shooting (c : Config) (s : Demo) : Prop where
  frames : s.shot ++ s.camera.sending ++ s.camera.held = s.frames c s.camera.frame
  early : s.camera.frame ≤ c.burstDeliveryIndex →
    ∀ w ∈ s.shot ++ s.camera.sending, w.marked = false
  delivery : ∀ w ∈ s.camera.sending, w.marked = true →
    s.camera.frame = c.burstDeliveryIndex + 1 ∧
      s.cameraRelease c.burstDeliveryIndex ≤ s.net.now

namespace Demo

variable {env : Env} {c : Config} {s s' : Demo}

/-- No frame has been taken yet. -/
theorem shooting_initial (env : Env) (c : Config) : (initial env c).Shooting c where
  frames := rfl
  early _ := nofun
  delivery := nofun

/-- Nobody but the camera has a hand in it, and the epoch is set before its
first frame. -/
theorem step_shot {a : Action} (hsound : s.Sound env c) (htimed : s.Timed env c)
    (hne : a ≠ .camera) (hstep : Demo.step env c s a = some s') :
    s'.shot = s.shot ∧ s'.camera = s.camera ∧ s.net.now ≤ s'.net.now ∧
      (s'.workloadStart = s.workloadStart ∨ s.camera = {} ∧ s.shot = []) := by
  cases a with
  | tick d =>
      cases hstep
      exact ⟨rfl, rfl, Nat.le_add_right .., .inl rfl⟩
  | main =>
      unfold Demo.step stepMain at hstep
      dsimp only at hstep
      split at hstep
      case h_1 hlaunch =>
          cases hstep
          have hcamera := (htimed.phase.launch (by rw [hlaunch]; rfl)).camera
          have hcount := hsound.camera
          rw [hcamera] at hcount
          exact ⟨rfl, rfl, Nat.le_refl _, .inr ⟨hcamera, List.eq_nil_of_length_eq_zero hcount.symm⟩⟩
      case h_2 =>
          obtain ⟨-, hs⟩ := Option.ite_none_right_eq_some.mp hstep
          cases hs
          exact ⟨rfl, rfl, Nat.le_refl _, .inl rfl⟩
      case h_3 =>
          obtain ⟨-, hs⟩ := Option.ite_none_left_eq_some.mp hstep
          cases hs
          exact ⟨rfl, rfl, Nat.le_refl _, .inl rfl⟩
      case h_4 =>
          cases hstep
          exact ⟨rfl, rfl, Nat.le_refl _, .inl rfl⟩
      case h_5 n rest hmain =>
          cases hstep
          refine ⟨?_, rfl, Nat.le_refl _, .inl rfl⟩
          unfold shot
          dsimp only
          by_cases hn : Node.vis = n
          · subst hn
            rw [Function.update_self]
            rfl
          · rw [Function.update_of_ne hn]
      case h_6 =>
          cases hstep
          exact ⟨rfl, rfl, Nat.le_refl _, .inl rfl⟩
      case h_7 =>
          obtain ⟨-, hs⟩ := Option.ite_none_right_eq_some.mp hstep
          cases hs
          exact ⟨rfl, rfl, Nat.le_refl _, .inl rfl⟩
      case h_8 => contradiction
  | camera => contradiction
  | lidar =>
      obtain ⟨-, hs⟩ := Option.ite_none_right_eq_some.mp hstep
      obtain ⟨-, -, rfl⟩ := stepLidar_cases hs
      refine ⟨?_, rfl, Nat.le_refl _, .inl rfl⟩
      unfold shot
      rw [Net.push_pushed, if_neg (by decide)]
  | imu first readings =>
      obtain ⟨published, imu, rfl⟩ := stepImu_net hstep
      exact ⟨rfl, rfl, Nat.le_refl _, .inl rfl⟩
  | work n first readings =>
      obtain ⟨-, net, hwork, rfl | ⟨w, meter, -, -, rfl⟩⟩ := stepWork_cases hstep
      · exact ⟨Net.work_pushed hwork rfl, rfl, (Net.work_clock hwork).1.ge, .inl rfl⟩
      · exact ⟨Net.work_pushed hwork rfl, rfl, (Net.work_clock hwork).1.ge, .inl rfl⟩
  | hog i readings =>
      obtain ⟨pc, rfl⟩ := stepHog_hogs hstep
      exact ⟨rfl, rfl, Nat.le_refl _, .inl rfl⟩

/-- A frame that is pushed moves from one list to the next. -/
theorem Shooting.push {v : WorkItem} {rest : List WorkItem} (h : s.Shooting c)
    (hsending : s.camera.sending = v :: rest) :
    Shooting c { s with
      net := s.net.push (c.setup env) .vis v
      camera := { s.camera with sending := rest, generated := s.camera.generated + 1 } } := by
  have hshot : ((s.net.push (c.setup env) .vis v).line .vis).pushed = s.shot ++ [v] := by
    rw [Net.push_pushed, if_pos rfl]
    rfl
  have hmove : s.shot ++ [v] ++ rest = s.shot ++ s.camera.sending := by
    rw [hsending, List.append_assoc, List.singleton_append]
  constructor
  case frames =>
      unfold shot
      dsimp only
      rw [hshot, hmove]
      exact h.frames
  case early =>
      intro hearly
      unfold shot
      dsimp only
      rw [hshot, hmove]
      exact h.early hearly
  case delivery =>
      exact fun w hw => h.delivery w (hsending ▸ List.mem_cons_of_mem v hw)

/-- A frame of the burst is held, the last one releases them all, and any other
frame goes out at once. -/
theorem Shooting.next (h : s.Shooting c)
    (hheld : s.camera.held ≠ [] → inBurst c s.camera.frame = true)
    (hsending : s.camera.sending = []) (hle : s.cameraRelease s.camera.frame ≤ s.net.now) :
    Shooting c { s with camera := s.nextFrame c } := by
  have hframes := h.frames
  have hearly := h.early
  rw [hsending, List.append_nil] at hframes hearly
  rw [nextFrame_eq]
  dsimp only
  split
  · next hin =>
    split
    · next hlast =>
      constructor
      case frames =>
          change s.shot ++ (s.camera.held ++ [_]) ++ [] = s.frames c (s.camera.frame + 1)
          rw [List.append_nil, ← List.append_assoc, hframes, frames_succ]
      case early => exact fun hle' => absurd hle' (by dsimp only; omega)
      case delivery => exact fun _ _ _ => ⟨congrArg (· + 1) hlast, hlast ▸ hle⟩
    · next hlast =>
      constructor
      case frames =>
          change s.shot ++ s.camera.sending ++ (s.camera.held ++ [_]) =
            s.frames c (s.camera.frame + 1)
          rw [hsending, List.append_nil, ← List.append_assoc, hframes, frames_succ]
      case early =>
          intro hle'
          change ∀ w ∈ s.shot ++ s.camera.sending, _
          rw [hsending, List.append_nil]
          exact hearly (Nat.le_of_succ_le hle')
      case delivery =>
          dsimp only
          rw [hsending]
          exact nofun
  · next hout =>
    have hempty : s.camera.held = [] := by
      by_contra hne
      exact hout (hheld hne)
    have hmarked : (s.frameAt c s.camera.frame).marked = false := by
      rw [marked_frameAt]
      exact Bool.eq_false_iff.mpr hout
    constructor
    case frames =>
        change s.shot ++ [_] ++ s.camera.held = s.frames c (s.camera.frame + 1)
        rw [hempty, List.append_nil] at hframes ⊢
        rw [hframes, frames_succ]
    case early =>
        intro hle' w hw
        obtain hw | hw := List.mem_append.mp hw
        · exact hearly (Nat.le_of_succ_le hle') w hw
        · cases List.mem_singleton.mp hw
          exact hmarked
    case delivery =>
        intro w hw hw'
        cases List.mem_singleton.mp hw
        rw [hmarked] at hw'
        contradiction

/-- Every step keeps the frames in order. -/
theorem Shooting.step {a : Action} (h : s.Shooting c) (hsound : s.Sound env c)
    (htimed : s.Timed env c) (hstep : Demo.step env c s a = some s') : s'.Shooting c := by
  by_cases ha : a = .camera
  · subst ha
    obtain ⟨-, hs⟩ := Option.ite_none_right_eq_some.mp hstep
    obtain ⟨v, rest, hsending, rfl⟩ | ⟨hsending, -, hle, rfl⟩ := stepCamera_cases hs
    · exact h.push hsending
    · exact h.next htimed.camera.held hsending hle
  · obtain ⟨hshot, hcamera, hnow, hstart⟩ := step_shot hsound htimed ha hstep
    obtain hstart | ⟨hidle, hempty⟩ := hstart
    · have hrelease : ∀ k, s'.cameraRelease k = s.cameraRelease k := fun k => by
        rw [cameraRelease, hstart]
        rfl
      have hframe : s'.frameAt c = s.frameAt c := funext fun k => by
        rw [frameAt, hrelease]
        rfl
      constructor
      case frames =>
          rw [hshot, hcamera, h.frames]
          unfold Demo.frames
          rw [hframe]
      case early =>
          rw [hshot, hcamera]
          exact h.early
      case delivery =>
          intro w hw hmarked
          rw [hcamera] at hw
          obtain ⟨hframe, hle⟩ := h.delivery w hw hmarked
          rw [hcamera, hrelease]
          exact ⟨hframe, hle.trans hnow⟩
    · constructor
      case frames =>
          rw [hshot, hcamera, hidle, hempty]
          rfl
      case early =>
          rw [hshot, hcamera, hidle, hempty]
          intro hburst w hw
          contradiction
      case delivery =>
          rw [hcamera, hidle]
          intro w hw
          contradiction

/-- Every run shoots frame by frame. -/
theorem shooting_of_exec {actions : List Action}
    (h : Steps.exec (Demo.step env c) (initial env c) actions = some s) :
    s.Sound env c ∧ s.Timed env c ∧ s.Shooting c :=
  @Steps.Preserved.exec _ _ (Demo.step env c)
    (fun s => s.Sound env c ∧ s.Timed env c ∧ s.Shooting c)
    (fun _ _ _ ⟨hsound, htimed, hs⟩ hstep =>
      ⟨hsound.step hstep, htimed.step hsound hstep, hs.step hsound htimed hstep⟩) _ _ _
    ⟨sound_initial env c, timed_initial env c, shooting_initial env c⟩ h

/-! ## the burst -/

/-- What `main` has checked of a burst, and what it reports of it. -/
structure BurstPlan (c : Config) : Prop where
  /-- The delivery is the first frame of the run at or after the time asked for. -/
  offset : IsLeast {t | ∃ k < c.cameraFrameCount,
    t = k * cameraPeriodNs ∧ c.cameraBurstAtMs * 1000000 ≤ t}
      (c.burstDeliveryIndex * cameraPeriodNs)
  deliveryMs : reported c .deliveryMs * 1000000 = c.burstDeliveryIndex * cameraPeriodNs
  latest : reported c .latestSeq = c.burstDeliveryIndex + 1
  first : reported c .firstSeq + c.cameraBurstCount = reported c .latestSeq + 1

/-- The burst goes to the queue at its delivery, and nowhere else. -/
structure BurstTogether (c : Config) (s : Demo) : Prop where
  before : s.camera.frame ≤ c.burstDeliveryIndex → ∀ w ∈ s.shot, w.marked = false
  during : ∀ w ∈ s.camera.sending, w.marked = true →
    s.camera.frame = c.burstDeliveryIndex + 1 ∧ s.cameraRelease c.burstDeliveryIndex ≤ s.net.now
  after : c.burstDeliveryIndex + 1 < s.camera.frame →
    (s.shot.filter (·.marked)).map (·.seq) =
      List.range' (reported c .firstSeq) c.cameraBurstCount

/-- What is on the queue when the generator returns. -/
structure Delivered (env : Env) (c : Config) (s : Demo) : Prop where
  count : s.shot.length = c.cameraFrameCount
  expected : s.shot.length = (Expected.ofRun env c).camera
  generated : s.camera.generated = s.shot.length
  seqs : s.shot.map (·.seq) = List.range' 1 s.shot.length
  release : ∀ w ∈ s.shot, w.tsNs = s.cameraRelease (w.seq - 1)
  burst : (s.shot.filter (·.marked)).map (·.seq) =
    List.range' (reported c .firstSeq) c.cameraBurstCount
  held : s.camera.held = []

/-- The quotient is the first release behind `x`. -/
theorem ceilDiv_isLeast {x p n : Nat} (hp : 0 < p) (hn : ceilDiv x p < n) :
    IsLeast {t | ∃ k < n, t = k * p ∧ x ≤ t} (ceilDiv x p * p) := by
  constructor
  · refine ⟨_, hn, rfl, Nat.le_of_not_lt fun hlt => ?_⟩
    exact Nat.lt_irrefl _ ((lt_ceilDiv hp).mpr hlt)
  · rintro t ⟨k, -, rfl, hle⟩
    refine Nat.mul_le_mul_right p (Nat.le_of_not_lt fun hlt => ?_)
    exact absurd ((lt_ceilDiv hp).mp hlt) (Nat.not_lt_of_le hle)

/-- The number of the first frame of the burst. -/
theorem reported_firstSeq (hpos : 0 < c.cameraBurstCount) :
    reported c .firstSeq = c.burstDeliveryIndex + 2 - c.cameraBurstCount :=
  if_pos hpos

/-- The plan of a burst is its report. -/
theorem burstPlan (hpos : 0 < c.cameraBurstCount) : BurstPlan c := by
  obtain ⟨hindex, hcount⟩ := c.burst_fits hpos
  have hlatest : reported c .latestSeq = c.burstDeliveryIndex + 1 := if_pos hpos
  constructor
  case offset => exact ceilDiv_isLeast (by decide) hindex
  case deliveryMs =>
      have hms : reported c .deliveryMs = c.burstDeliveryIndex * cameraPeriodNs / 1000000 :=
        if_pos hpos
      rw [hms, cameraPeriodNs]
      omega
  case latest => exact hlatest
  case first =>
      rw [reported_firstSeq hpos, hlatest, Config.burstDeliveryIndex]
      omega

/-- The frames of a run that reaches the delivery have the burst as it is
reported. -/
theorem frames_burst {n : Nat} (hn : c.burstDeliveryIndex < n ∨ c.cameraBurstCount = 0) :
    ((s.frames c n).filter (·.marked)).map (·.seq) =
      List.range' (reported c .firstSeq) c.cameraBurstCount := by
  obtain hzero | hpos := Nat.eq_zero_or_pos c.cameraBurstCount
  · rw [unmarked_of_no_burst hzero, hzero]
    rfl
  · have hcount : c.cameraBurstCount ≤ c.burstDeliveryIndex + 1 := (c.burst_fits hpos).2
    have hseq : (fun w : WorkItem => w.seq) ∘ s.frameAt c = fun k => 1 + k :=
      funext fun k => Nat.add_comm k 1
    rw [filter_frames (hn.resolve_right (by omega)) hpos, List.map_map, hseq, List.map_add_range',
      reported_firstSeq hpos]
    congr 1 <;> omega

/-- Where nothing is held and nothing of the burst is on its way, all of it is
on the queue. -/
theorem Shooting.filter_shot (h : s.Shooting c) (hheld : s.camera.held = [])
    (hsending : ∀ w ∈ s.camera.sending, w.marked = false) :
    s.shot.filter (·.marked) = (s.frames c s.camera.frame).filter (·.marked) := by
  have hnone : s.camera.sending.filter (·.marked) = [] :=
    List.filter_eq_nil_iff.mpr fun w hw => by simp [hsending w hw]
  rw [← h.frames, hheld, List.append_nil, List.filter_append, hnone, List.append_nil]

/-- The frames of a burst come together. -/
theorem Shooting.together (h : s.Shooting c) (hcamera : s.camera.Sound c s.net.now) :
    s.BurstTogether c where
  before hearly w hw := h.early hearly w (List.mem_append_left _ hw)
  during := h.delivery
  after hlt := by
    have hheld : s.camera.held = [] := by
      by_contra hne
      have hin := inBurst_iff.mp (hcamera.held hne)
      omega
    have hsending : ∀ w ∈ s.camera.sending, w.marked = false := fun w hw => by
      by_contra hmarked
      have hframe := (h.delivery w hw (by simpa using hmarked)).1
      omega
    rw [h.filter_shot hheld hsending]
    exact frames_burst (.inl (by omega))

/-! ## the end -/

/-- A generator at its end has delivered every frame. -/
theorem Shooting.delivered (h : s.Shooting c) (htimed : s.Timed env c) (hsound : s.Sound env c)
    (hdone : s.cameraDone c = true) : s.Delivered env c := by
  obtain ⟨hsending, hend⟩ := of_decide_eq_true hdone
  have hend : c.windowNs ≤ s.camera.frame * cameraPeriodNs := Nat.le_of_add_le_add_left hend
  have hgenerated := htimed.camera.done hsending hend
  have hframe : s.camera.frame = c.cameraFrameCount :=
    htimed.camera.bound.antisymm (Nat.le_of_not_lt fun hlt =>
      absurd (c.lt_cameraFrameCount.mp hlt) (Nat.not_lt_of_le hend))
  have hheld : s.camera.held = [] := by
    have hcount := htimed.camera.count
    rw [hsending, hgenerated, hframe, List.length_nil] at hcount
    exact List.eq_nil_of_length_eq_zero (by omega)
  have hshot : s.shot = s.frames c c.cameraFrameCount := by
    have hframes := h.frames
    rwa [hsending, hheld, List.append_nil, List.append_nil, hframe] at hframes
  have hlength : s.shot.length = c.cameraFrameCount := by
    rw [hshot, Demo.frames, List.length_map, List.length_range]
  constructor
  case count => exact hlength
  case expected => exact hlength.trans (Expected.camera_ofRun env c)
  case generated => exact hsound.camera
  case seqs =>
      have hseq : (fun w : WorkItem => w.seq) ∘ s.frameAt c = fun k => 1 + k :=
        funext fun k => Nat.add_comm k 1
      rw [hlength, hshot, Demo.frames, List.map_map, hseq, List.range_eq_range',
        List.map_add_range']
  case release =>
      intro w hw
      rw [hshot] at hw
      obtain ⟨k, -, rfl⟩ := List.mem_map.mp hw
      rfl
  case burst =>
      rw [hshot]
      refine frames_burst ?_
      obtain hzero | hpos := Nat.eq_zero_or_pos c.cameraBurstCount
      · exact .inr hzero
      · exact .inl (c.burst_fits hpos).1
  case held => exact hheld

/-- The generator is stuck only before a release. -/
theorem exists_stepCamera (hend : s.workloadEnd c ≤ s.net.now) (hdone : s.cameraDone c ≠ true) :
    ∃ t, s.stepCamera env c = some t ∧ t.launched = s.launched ∧ t.workloadEnd c ≤ t.net.now ∧
      s.camera.frame + s.camera.generated < t.camera.frame + t.camera.generated := by
  cases hsending : s.camera.sending with
  | cons v rest =>
      refine ⟨{ s with
        net := s.net.push (c.setup env) .vis v
        camera := { s.camera with sending := rest, generated := s.camera.generated + 1 } },
        ?_, rfl, hend, Nat.lt_succ_self (s.camera.frame + s.camera.generated)⟩
      rw [stepCamera, hsending]
  | nil =>
      have hlt : s.cameraRelease s.camera.frame < s.workloadEnd c := by
        refine Nat.lt_of_not_le fun hle => hdone ?_
        exact decide_eq_true ⟨hsending, hle⟩
      refine ⟨{ s with camera := s.nextFrame c }, ?_, rfl, hend, ?_⟩
      · rw [stepCamera, hsending]
        exact if_pos ⟨hlt, hlt.le.trans hend⟩
      · have hframe : (s.nextFrame c).frame = s.camera.frame + 1 ∧
            (s.nextFrame c).generated = s.camera.generated := by
          rw [nextFrame_eq]
          dsimp only
          repeat' split
          all_goals exact ⟨rfl, rfl⟩
        dsimp only
        omega

/-- From the end of the workload on the generator only pushes, and returns. -/
theorem exists_cameraDone {n : Nat} (htimed : s.Timed env c) (hlaunched : s.launched = true)
    (hend : s.workloadEnd c ≤ s.net.now)
    (hn : 2 * c.cameraFrameCount ≤ n + s.camera.frame + s.camera.generated) :
    ∃ k t, Steps.exec (Demo.step env c) s (List.replicate k .camera) = some t ∧
      t.cameraDone c = true := by
  induction n generalizing s with
  | zero =>
      have hcount := htimed.camera.count
      have hbound := htimed.camera.bound
      have hsending : s.camera.sending = [] := List.eq_nil_of_length_eq_zero (by omega)
      refine ⟨0, s, rfl, decide_eq_true ⟨hsending, Nat.add_le_add_left ?_ _⟩⟩
      refine Nat.le_of_not_lt fun hlt => ?_
      have := c.lt_cameraFrameCount.mpr hlt
      omega
  | succ n ih =>
      by_cases hdone : s.cameraDone c = true
      · exact ⟨0, s, rfl, hdone⟩
      · obtain ⟨t, hstep, hlaunched', hend', hmore⟩ := exists_stepCamera hend hdone
        have hstep' : Demo.step env c s .camera = some t := (if_pos hlaunched).trans hstep
        obtain ⟨k, u, hrun, hu⟩ := ih (htimed.stepCamera hlaunched hstep)
          (hlaunched'.trans hlaunched) hend' (by omega)
        refine ⟨k + 1, u, ?_, hu⟩
        rw [List.replicate_succ, Steps.exec_cons, hstep']
        exact hrun

/-- However late it is, the generator returns. -/
theorem exists_cameraDone_tick (htimed : s.Timed env c) (hlaunched : s.launched = true) :
    ∃ d k t, Steps.exec (Demo.step env c) s (.tick d :: List.replicate k .camera) = some t ∧
      t.cameraDone c = true := by
  obtain ⟨d, hd⟩ : ∃ d, s.workloadEnd c = d := ⟨_, rfl⟩
  have htick : Demo.step env c s (.tick d) =
    some { s with net := { s.net with now := s.net.now + d } } := rfl
  obtain ⟨k, t, hrun, hdone⟩ := exists_cameraDone (htimed.tick d) hlaunched
    (hd.le.trans (Nat.le_add_left d s.net.now))
    (Nat.le_add_right_of_le (Nat.le_add_right (2 * c.cameraFrameCount) s.camera.frame))
  refine ⟨d, k, t, ?_, hdone⟩
  rw [Steps.exec_cons, htick]
  exact hrun

/-- **The camera**: in every run, the generator pushes every frame of the
workload once, in order and with its release as time stamp; the burst goes out
as a whole at its delivery, and nothing is held when the generator returns,
which it does. -/
theorem camera_gen_delivers {actions : List Action}
    (h : Steps.exec (Demo.step env c) (initial env c) actions = some s) :
    (0 < c.cameraBurstCount → BurstPlan c) ∧ s.BurstTogether c ∧
      (s.cameraDone c = true → s.Delivered env c) ∧
      (s.launched = true → ∃ d k t,
        Steps.exec (Demo.step env c) s (.tick d :: List.replicate k .camera) = some t ∧
          t.cameraDone c = true) := by
  obtain ⟨hsound, htimed, hshooting⟩ := shooting_of_exec h
  refine ⟨burstPlan, hshooting.together htimed.camera,
    hshooting.delivered htimed hsound, fun hlaunched => ?_⟩
  exact exists_cameraDone_tick htimed hlaunched

end Demo

/-- The third to the fifth frame of the run come together, at the first release
from 100 ms on. -/
def burstConfig : Config where
  durationS := 1
  cameraBurstCount := 3
  cameraBurstAtMs := 100
  duration_pos := oversleptConfig.duration_pos
  visionBudget_fits := oversleptConfig.visionBudget_fits
  visionDeadline_fits := oversleptConfig.visionDeadline_fits
  lidarPreBudget_fits := oversleptConfig.lidarPreBudget_fits
  imuWork_fits := evaluatedConfig.imuWork_fits

/-- The camera sleeps through the whole run and catches up. -/
def lateCamera : List Demo.Action :=
  [.main, .tick 2000000000] ++ List.replicate 62 .camera

/-- A burst of three frames, from a generator that is late. -/
theorem camera_gen_delivers_late :
    ∃ s, Steps.exec (Demo.step plainEnv burstConfig) (Demo.initial plainEnv burstConfig)
        lateCamera = some s ∧ s.Delivered plainEnv burstConfig ∧
      (s.shot.filter (·.marked)).map (·.seq) = [3, 4, 5] := by
  have hrun : ((Steps.exec (Demo.step plainEnv burstConfig)
      (Demo.initial plainEnv burstConfig) lateCamera).any fun s =>
      s.cameraDone burstConfig ∧ (s.shot.filter (·.marked)).map (·.seq) = [3, 4, 5]) = true := by
    decide +kernel
  obtain ⟨s, hs, hfacts⟩ := (Option.any_eq_true ..).mp hrun
  obtain ⟨hdone, hseqs⟩ := of_decide_eq_true hfacts
  exact ⟨s, hs, (Demo.camera_gen_delivers hs).2.2.1 hdone, hseqs⟩

end ScxSlam.PipelineDemo
