import ScxSlam.PipelineDemo.Demo

/-!
# ScxSlam.PipelineDemo.Conservation

Where every item of a run of `slam_pipeline_demo` is once all of its threads
are joined.
-/

namespace ScxSlam.PipelineDemo

open Account

/-- Where the items that were pushed on a queue are: computed, dropped by the
consumer, evicted from the queue, or still in it. -/
def Line.outcomes (L : Line) : Nat :=
  L.stage.stats.processed + L.stage.stats.droppedStale + L.stage.queue.queueEvictedStale +
    L.stage.queue.q.length

/-- What holds of a queue and its consumer at any time. -/
structure LineLaws (args : StageArgs) (L : Line) : Prop where
  order : L.processed.Sublist L.pushed
  processed : L.processed.length = L.stage.stats.processed
  /-- What is removed is stale, and stays stale. -/
  removed : ∀ e ∈ L.book.entries, ∀ t, e.prunedAt = some t ∨ e.droppedAt = some t →
    ∀ t', t ≤ t' → isStale t' e.item args.cfg = true
  evicted : L.stage.queue.queueEvictedStale = L.book.count (·.prunedAt.isSome)
  dropped : L.stage.stats.droppedStale = L.book.count (·.droppedAt.isSome)
  keeps : args.dropStale = false →
    L.stage.stats.droppedStale = 0 ∧ L.stage.queue.queueEvictedStale = 0

/-- Every item is in one place, and every job that was done went on. -/
structure Conserved (s : Demo) : Prop where
  pushes : ∀ n, (s.net.line n).pushed.length = (s.net.line n).outcomes
  camera : s.camera.generated = (s.net.line .vis).outcomes
  vision : (s.net.line .vis).stage.stats.processed = (s.net.line .est).outcomes
  lidar : s.lidar.generated = (s.net.line .lpre).outcomes
  lidarPre : (s.net.line .lpre).stage.stats.processed = (s.net.line .lreg).outcomes
  mapping : (s.net.line .est).stage.stats.processed + (s.net.line .lreg).stage.stats.processed =
    (s.net.line .map).outcomes

/-! ## lines -/

section Line

variable {args : StageArgs} {now : Nat} {L : Line}

/-- A worker that holds no item leaves no item unaccounted. -/
theorem Line.Sound.pushed_length (h : L.Sound args now)
    (hworking : L.stage.worker.working? = none) :
    L.pushed.length = L.outcomes := by
  have hcurrent : L.book.current = none := Option.map_eq_none_iff.mp (h.current.trans hworking)
  have hheld := h.book.count_held
  rw [hcurrent] at hheld
  have hentries := L.book.length_entries
  rw [hheld, h.book.count_isWaiting, ← h.queue, ← h.counted.processed, ← h.counted.dropped,
    ← h.counted.queueEvicted] at hentries
  rw [h.pushed, List.length_map, hentries]
  rfl

theorem Line.Sound.laws (h : L.Sound args now) : LineLaws args L := by
  have hcount : args.dropStale = false →
      L.book.count (·.droppedAt.isSome) = 0 ∧ L.book.count (·.prunedAt.isSome) = 0 := by
    intro hkeep
    have hnone : ∀ e ∈ L.book.entries, ∀ t, ¬(e.prunedAt = some t ∨ e.droppedAt = some t) := by
      intro e he t ht
      have hdrop := (h.stale e he t ht).1
      rw [hkeep] at hdrop
      contradiction
    refine ⟨List.countP_eq_zero.mpr fun e he hsome => ?_,
      List.countP_eq_zero.mpr fun e he hsome => ?_⟩
    · obtain ⟨t, ht⟩ := Option.isSome_iff_exists.mp hsome
      exact hnone e he t (.inr ht)
    · obtain ⟨t, ht⟩ := Option.isSome_iff_exists.mp hsome
      exact hnone e he t (.inl ht)
  constructor
  case order =>
      rw [h.processed, h.pushed]
      exact L.book.kept_sublist
  case processed =>
      rw [h.processed, h.book.length_kept, ← h.counted.processed]
  case removed => exact fun e he t ht t' hle => isStale_mono (h.stale e he t ht).2 hle
  case evicted => exact h.counted.queueEvicted
  case dropped => exact h.counted.dropped
  case keeps =>
      intro hkeep
      rw [h.counted.dropped, h.counted.queueEvicted]
      exact hcount hkeep

end Line

/-! ## frames -/

namespace Net

variable {setup : Setup} {s s' : Net} {n k : Node}

theorem push_line_self (s : Net) (n : Node) (v : WorkItem) :
    (s.push setup n v).line n = ((s.line n).push (s.args setup n) s.now v).1 :=
  Function.update_self ..

theorem push_line_of_ne (s : Net) (v : WorkItem) (hk : k ≠ n) :
    (s.push setup n v).line k = s.line k :=
  Function.update_of_ne hk ..

/-- A push may only wake a worker. -/
theorem push_worker (s : Net) (n k : Node) (v : WorkItem) :
    ((s.push setup n v).line k).stage.worker = (s.line k).stage.worker ∨
      ((s.push setup n v).line k).stage.worker = (s.line k).stage.worker.notify := by
  by_cases hk : k = n
  · subst hk
    rw [push_line_self]
    exact .inr rfl
  · rw [push_line_of_ne s v hk]
    exact .inl rfl

/-- A push is one item on one queue. -/
theorem push_pushed (s : Net) (n k : Node) (v : WorkItem) :
    ((s.push setup n v).line k).pushed =
      if k = n then (s.line k).pushed ++ [v] else (s.line k).pushed := by
  by_cases hk : k = n
  · subst hk
    rw [if_pos rfl, push_line_self]
    rfl
  · rw [if_neg hk, push_line_of_ne s v hk]

/-- A worker's step changes its own line, and then the one it pushes on. -/
theorem work_cases (h : s.work setup n = some s') :
    ∃ L e, (s.line n).work (s.args setup n) s.now s.running = some (L, e) ∧
      let mid : Net := { s with
        line := Function.update s.line n L, published := s.published ++ e.hints }
      ((e.out = none ∨ n.next = none) ∧ s' = mid ∨
        ∃ w m, e.out = some w ∧ n.next = some m ∧ s' = mid.push setup m w) := by
  obtain ⟨⟨L, e⟩, hL, heq⟩ := Option.map_eq_some_iff.mp h
  refine ⟨L, e, hL, ?_⟩
  dsimp only at heq ⊢
  split at heq
  · next w m hout hnext => exact .inr ⟨w, m, hout, hnext, heq.symm⟩
  · next hnone =>
    refine .inl ⟨?_, heq.symm⟩
    cases hout : e.out with
    | none => exact .inl rfl
    | some w =>
        cases hnext : n.next with
        | none => exact .inr rfl
        | some m => exact absurd hnext (hnone w m hout)

theorem work_clock (h : s.work setup n = some s') :
    s'.now = s.now ∧ s'.metricsEndNs = s.metricsEndNs := by
  obtain ⟨L, e, -, ⟨-, rfl⟩ | ⟨w, m, -, -, rfl⟩⟩ := work_cases h <;> exact ⟨rfl, rfl⟩

theorem work_worker (h : s.work setup n = some s') (hk : k ≠ n) :
    (s'.line k).stage.worker = (s.line k).stage.worker ∨
      (s'.line k).stage.worker = (s.line k).stage.worker.notify := by
  obtain ⟨L, e, -, ⟨-, rfl⟩ | ⟨w, m, -, -, rfl⟩⟩ := work_cases h
  · left
    dsimp only
    rw [Function.update_of_ne hk]
  · rw [← show Function.update s.line n L k = s.line k from Function.update_of_ne hk ..]
    exact push_worker _ m k w

/-- A source queue is pushed on by no worker. -/
theorem work_pushed (h : s.work setup n = some s') (hk : k.feeders = []) :
    (s'.line k).pushed = (s.line k).pushed := by
  obtain ⟨L, e, hL, hs⟩ := work_cases h
  have hmid : (Function.update s.line n L k).pushed = (s.line k).pushed := by
    obtain ⟨e', -, heq⟩ := Option.map_eq_some_iff.mp hL
    cases heq
    by_cases hkn : k = n
    · subst hkn
      rw [Function.update_self]
    · rw [Function.update_of_ne hkn]
  obtain ⟨-, rfl⟩ | ⟨w, m, -, hnext, rfl⟩ := hs
  · exact hmid
  · have hkm : k ≠ m := by
      rintro rfl
      cases n <;> cases hnext <;> contradiction
    rw [push_pushed, if_neg hkm]
    exact hmid

/-- Nobody pushes on an empty network but the sensors. -/
theorem Sound.work_fresh (hs : s.Sound setup) (hfresh : s.fresh = true)
    (h : s.work setup n = some s') : s'.fresh = true := by
  obtain ⟨L, e, hL, hcases⟩ := work_cases h
  have hempty : ∀ k, (s.line k).book.entries.length = 0 := fun k =>
    congrArg List.length (entries_of_fresh hfresh k)
  obtain ⟨hlength, -⟩ := (hs.line n).work_offered hL
  have hmid : ∀ k, (Function.update s.line n L k).book.entries.length = 0 := by
    intro k
    by_cases hk : k = n
    · subst hk
      rw [Function.update_self, hlength, hempty]
    · rw [Function.update_of_ne hk, hempty]
  obtain ⟨-, rfl⟩ | ⟨w, m, hout, hnext, rfl⟩ := hcases
  · refine List.all_eq_true.mpr fun k _ => ?_
    exact List.isEmpty_iff_length_eq_zero.mpr (hmid k)
  · have hforward : (s.line n).forwarding = true := by
      obtain ⟨hnone, -⟩ | ⟨hnone, -⟩ | ⟨-, -, hf, -⟩ := Line.work_flow hL
      · rw [hnone] at hout
        contradiction
      · rw [hnone] at hout
        contradiction
      · exact hf
    have hfeeds : m.feeders ≠ [] := by cases n <;> cases hnext <;> decide
    have hpushes := (hs.fed m hfeeds).pushes
    have hprocessed : ∀ k, (s.line k).stage.stats.processed = 0 := by
      intro k
      have hcount := (hs.line k).counted.processed
      rwa [Book.count, List.length_eq_zero_iff.mp (hempty k), List.countP_nil] at hcount
    exfalso
    rw [hempty m] at hpushes
    cases n <;> cases hnext <;>
      simp [fromFeeders, Node.feeders, hprocessed, hforward] at hpushes

end Net

/-! ## runs -/

namespace Demo

/-- Every stage agrees with its account, the sensors pushed what they
generated, and `main` is done when all threads have returned. -/
structure Sound (env : Env) (c : Config) (s : Demo) : Prop where
  net : s.net.Sound (c.setup env)
  fresh : s.main = .launch → s.net.fresh = true
  camera : s.camera.generated = (s.net.line .vis).pushed.length
  lidar : s.lidar.generated = (s.net.line .lpre).pushed.length
  idle : ∀ n, c.active n = false → (s.net.line n).stage.worker = .start
  joined : ∀ t, s.main = .done t → ∀ n, s.joined c n = true

variable {env : Env} {c : Config} {s s' : Demo} {n : Node} {first : Nat × Nat}
  {readings : List Sample}

theorem sound_initial (env : Env) (c : Config) : (initial env c).Sound env c where
  net := Net.sound_initial _
  fresh _ := rfl
  camera := rfl
  lidar := rfl
  idle _ _ := rfl
  joined := nofun

/-- Waking a worker is no step of a thread that has returned or never ran. -/
theorem joined_of_worker {t : Demo}
    (h : (t.net.line n).stage.worker = (s.net.line n).stage.worker ∨
      (t.net.line n).stage.worker = (s.net.line n).stage.worker.notify) :
    t.joined c n = s.joined c n := by
  unfold joined
  obtain h | h := h <;> rw [h]
  cases (s.net.line n).stage.worker <;> rfl

theorem idle_of_worker {pc pc' : WorkerPc} (h : pc' = pc ∨ pc' = pc.notify) (hpc : pc = .start) :
    pc' = .start := by
  subst hpc
  obtain rfl | rfl := h <;> rfl

/-- A source queue gets what its sensor generated. -/
theorem Sound.push {v : WorkItem} {t : Demo} (h : s.Sound env c) (hn : n.feeders = [])
    (hlaunched : s.main ≠ .launch) (hnet : t.net = s.net.push (c.setup env) n v)
    (hmain : t.main = s.main)
    (hcamera : t.camera.generated = s.camera.generated + if n = .vis then 1 else 0)
    (hlidar : t.lidar.generated = s.lidar.generated + if n = .lpre then 1 else 0) :
    t.Sound env c where
  net := hnet ▸ h.net.push v hn
  fresh hlaunch := absurd (hmain ▸ hlaunch) hlaunched
  camera := by
    rw [hcamera, hnet, Net.push_pushed, h.camera]
    cases n <;> simp
  lidar := by
    rw [hlidar, hnet, Net.push_pushed, h.lidar]
    cases n <;> simp
  idle k hk := by
    rw [hnet]
    exact idle_of_worker (Net.push_worker s.net n k v) (h.idle k hk)
  joined f hf k := by
    rw [joined_of_worker (s := s) (hnet ▸ Net.push_worker s.net n k v)]
    exact h.joined f (hmain ▸ hf) k

/-- Steps that leave the stages and what was generated alone. -/
theorem Sound.of_line {t : Demo} (h : s.Sound env c) (hnow : s.net.now ≤ t.net.now)
    (hline : t.net.line = s.net.line) (hend : t.net.metricsEndNs = s.net.metricsEndNs)
    (hmain : t.main = .launch → s.main = .launch)
    (hcamera : t.camera.generated = s.camera.generated)
    (hlidar : t.lidar.generated = s.lidar.generated)
    (hjoined : ∀ f, t.main = .done f → ∀ k, s.joined c k = true) : t.Sound env c where
  net := {
    line n := by
      have hn := (h.net.line n).mono hnow
      rw [hline]
      have hargs : t.net.args (c.setup env) n = s.net.args (c.setup env) n := by
        unfold Net.args
        rw [hend]
      rwa [hargs]
    fed m hm := by
      obtain ⟨h1, h2, h3⟩ := h.net.fed m hm
      rw [hline, hend]
      exact ⟨h1, fun hlt => h2 (hnow.trans_lt hlt), h3⟩ }
  fresh hlaunch := by
    have hfresh := h.fresh (hmain hlaunch)
    unfold Net.fresh at hfresh ⊢
    rwa [hline]
  camera := by rw [hcamera, hline, h.camera]
  lidar := by rw [hlidar, hline, h.lidar]
  idle k hk := by
    rw [hline]
    exact h.idle k hk
  joined f hf k := by
    rw [joined_of_worker (s := s) (.inl (by rw [hline]))]
    exact hjoined f hf k

theorem Sound.work {t : Demo} {net : Net} (h : s.Sound env c) (hactive : c.active n = true)
    (hwork : s.net.work (c.setup env) n = some net) (hnet : t.net = net) (hmain : t.main = s.main)
    (hcamera : t.camera = s.camera) (hlidar : t.lidar = s.lidar) : t.Sound env c where
  net := hnet ▸ h.net.work hwork
  fresh hlaunch := hnet ▸ h.net.work_fresh (h.fresh (hmain ▸ hlaunch)) hwork
  camera := by rw [hcamera, hnet, Net.work_pushed hwork rfl, h.camera]
  lidar := by rw [hlidar, hnet, Net.work_pushed hwork rfl, h.lidar]
  idle k hk := by
    have hkn : k ≠ n := by
      rintro rfl
      rw [hactive] at hk
      contradiction
    rw [hnet]
    exact idle_of_worker (Net.work_worker hwork hkn) (h.idle k hk)
  joined f hf := by
    -- the worker that moves has not returned
    have hn := h.joined f (hmain ▸ hf) n
    obtain ⟨L, e, hL, -⟩ := Net.work_cases hwork
    obtain ⟨e', he', -⟩ := Option.map_eq_some_iff.mp hL
    unfold Demo.joined at hn
    split at hn
    · next last hworker =>
      rw [Stage.work, hworker] at he'
      contradiction
    · rw [hactive] at hn
      contradiction

theorem Sound.step {a : Action} (h : s.Sound env c) (hstep : step env c s a = some s') :
    s'.Sound env c := by
  cases a with
  | tick d =>
      cases hstep
      exact h.of_line (Nat.le_add_right ..) rfl rfl id rfl rfl h.joined
  | main =>
      unfold Demo.step stepMain at hstep
      dsimp only at hstep
      split at hstep
      case h_1 hlaunch =>
          cases hstep
          have hfresh := h.fresh hlaunch
          refine ⟨?_, nofun, h.camera, h.lidar, h.idle, nofun⟩
          exact h.net.measure hfresh _
      case h_2 =>
          obtain ⟨-, hs⟩ := Option.ite_none_right_eq_some.mp hstep
          cases hs
          exact h.of_line (Nat.le_refl _) rfl rfl nofun rfl rfl nofun
      case h_3 =>
          obtain ⟨-, hs⟩ := Option.ite_none_left_eq_some.mp hstep
          cases hs
          exact h.of_line (Nat.le_refl _) rfl rfl nofun rfl rfl nofun
      case h_4 =>
          cases hstep
          exact h.of_line (Nat.le_refl _) rfl rfl nofun rfl rfl nofun
      case h_5 n rest hmain =>
          cases hstep
          have hsame : ∀ k, (Function.update s.net.line n (s.net.line n).stop k).pushed =
                (s.net.line k).pushed ∧
              (Function.update s.net.line n (s.net.line n).stop k).stage.worker =
                (s.net.line k).stage.worker := by
            intro k
            by_cases hk : k = n
            · subst hk
              rw [Function.update_self]
              exact ⟨rfl, rfl⟩
            · rw [Function.update_of_ne hk]
              exact ⟨rfl, rfl⟩
          constructor
          case net =>
              exact ⟨Net.line_update h.net.line (h.net.line n).stop, fun m hm =>
                (h.net.fed m hm).update rfl rfl ⟨rfl, rfl, rfl⟩⟩
          case fresh => nofun
          case camera => exact h.camera.trans (congrArg List.length (hsame .vis).1.symm)
          case lidar => exact h.lidar.trans (congrArg List.length (hsame .lpre).1.symm)
          case idle => exact fun k hk => (hsame k).2.trans (h.idle k hk)
          case joined => nofun
      case h_6 =>
          cases hstep
          exact h.of_line (Nat.le_refl _) rfl rfl nofun rfl rfl nofun
      case h_7 =>
          obtain ⟨hall, hs⟩ := Option.ite_none_right_eq_some.mp hstep
          cases hs
          refine h.of_line (Nat.le_refl _) rfl rfl nofun rfl rfl fun f _ k => ?_
          exact List.all_eq_true.mp hall.1 k (by cases k <;> decide)
      case h_8 => contradiction
  | camera =>
      obtain ⟨hlaunched, hs⟩ := Option.ite_none_right_eq_some.mp hstep
      have hlaunched : s.main ≠ .launch := of_decide_eq_true hlaunched
      obtain ⟨v, rest, -, rfl⟩ | ⟨-, -, -, rfl⟩ := stepCamera_cases hs
      · exact h.push (n := .vis) rfl hlaunched rfl rfl rfl rfl
      · refine h.of_line (Nat.le_refl _) rfl rfl id ?_ rfl h.joined
        unfold nextFrame
        dsimp only
        repeat' split
        all_goals rfl
  | lidar =>
      obtain ⟨hlaunched, hs⟩ := Option.ite_none_right_eq_some.mp hstep
      have hlaunched : s.main ≠ .launch := of_decide_eq_true hlaunched
      obtain ⟨-, -, rfl⟩ := stepLidar_cases hs
      exact h.push (n := .lpre) rfl hlaunched rfl rfl rfl rfl
  | imu first readings =>
      obtain ⟨published, imu, rfl⟩ := stepImu_net hstep
      exact h.of_line (Nat.le_refl _) rfl rfl id rfl rfl h.joined
  | work n first readings =>
      obtain ⟨hactive, net, hwork, rfl | ⟨w, meter, -, -, rfl⟩⟩ := stepWork_cases hstep
      · exact h.work hactive hwork rfl rfl rfl rfl
      · exact h.work hactive hwork rfl rfl rfl rfl
  | hog i readings =>
      obtain ⟨pc, rfl⟩ := stepHog_hogs hstep
      exact h.of_line (Nat.le_refl _) rfl rfl id rfl rfl h.joined

/-- Every run keeps every account. -/
theorem sound_of_exec {actions : List Action}
    (h : Steps.exec (step env c) (initial env c) actions = some s) : s.Sound env c :=
  Steps.Preserved.exec (fun _ _ _ hs hstep => Sound.step hs hstep) (sound_initial env c) h

end Demo

/-! ## conservation -/

section Joined

variable {env : Env} {c : Config} {s : Demo}

/-- A thread that is joined is not inside a job. -/
theorem Demo.Sound.quiet (h : s.Sound env c) {t : Nat} (hdone : s.main = .done t) (n : Node) :
    (s.net.line n).stage.worker.working? = none ∧ (s.net.line n).forwarding = false := by
  have hjoined := h.joined t hdone n
  unfold Demo.joined at hjoined
  unfold Line.forwarding
  split at hjoined
  · next last hworker =>
    rw [hworker]
    exact ⟨rfl, rfl⟩
  · rw [h.idle n (by simpa using hjoined)]
    exact ⟨rfl, rfl⟩

/-- What the stages finished was pushed on the next queue. -/
theorem Demo.Sound.forwarded (h : s.Sound env c) {t : Nat} (hdone : s.main = .done t) {m : Node}
    (hm : m.feeders ≠ []) :
    fromFeeders s.net.line m (·.stage.stats.processed) = (s.net.line m).outcomes := by
  have hpushes := (h.net.fed m hm).pushes
  have hforward : fromFeeders s.net.line m (·.forwarding.toNat) = 0 := by
    have hquiet := fun k => (h.quiet hdone k).2
    cases m <;> simp [fromFeeders, Node.feeders, hquiet]
  have hlength := (h.net.line m).pushed_length (h.quiet hdone m).1
  rw [(h.net.line m).pushed, List.length_map] at hlength
  omega

theorem Demo.Sound.conserved (h : s.Sound env c) {t : Nat} (hdone : s.main = .done t) :
    Conserved s := by
  have hpushes : ∀ n, (s.net.line n).pushed.length = (s.net.line n).outcomes := fun n =>
    (h.net.line n).pushed_length (h.quiet hdone n).1
  constructor
  case pushes => exact hpushes
  case camera => exact h.camera.trans (hpushes .vis)
  case vision => simpa [fromFeeders, Node.feeders] using h.forwarded hdone (m := .est) (by decide)
  case lidar => exact h.lidar.trans (hpushes .lpre)
  case lidarPre =>
      simpa [fromFeeders, Node.feeders] using h.forwarded hdone (m := .lreg) (by decide)
  case mapping =>
      simpa [fromFeeders, Node.feeders] using h.forwarded hdone (m := .map) (by decide)

/-- **Conservation**: in every run, whatever `drop_stale` is, each queue is
served in order and loses only stale items; once all threads are joined, every
item is accounted for. -/
theorem lifetime_conservation {actions : List Demo.Action}
    (h : Steps.exec (Demo.step env c) (Demo.initial env c) actions = some s) :
    (∀ n, LineLaws (s.net.args (c.setup env) n) (s.net.line n)) ∧
      ∀ t, s.main = .done t → Conserved s := by
  have hsound := Demo.sound_of_exec h
  exact ⟨fun n => (hsound.net.line n).laws, fun t hdone => hsound.conserved hdone⟩

end Joined

/-- No hints, and LiDAR stages that never run. -/
def plainEnv : Env where
  fd := -1
  urgent := 1
  deadline := 2
  background := 3
  policy := 0
  selfImu := 1
  self _ := 2
  selfImu_pos := Nat.one_pos
  self_pos _ := Nat.two_pos
  lidarPreUs := 0
  lidarRegUs := 0

def oversleptConfig : Config where
  durationS := 1
  dropStale := true
  imuWorkUs := 0

/-- The first frame is computed and forwarded and the second one dropped; the
camera then catches up after two seconds, and evicts all frames but its last.
The hog first runs at the end. -/
def overslept : List Demo.Action :=
  let readings : List Sample := [⟨0, 0, 0⟩, ⟨3500000, 0, 0⟩, ⟨3500000, 0, 0⟩]
  let vis : Demo.Action := .work .vis (0, 0) readings
  let est : Demo.Action := .work .est (0, 0) readings
  let map : Demo.Action := .work .map (0, 0) readings
  [vis, vis, vis, .main, .tick 150000000, .camera, .camera, vis, vis, vis, vis, .camera, .camera,
    .tick 2000000000, vis, vis, vis] ++
  List.replicate 603 (.imu (0, 0) readings) ++ List.replicate 58 .camera ++
  List.replicate 9 .main ++ [vis, est, est, map, map, .hog 0 [], .main]

set_option maxRecDepth 10000 in
theorem lifetime_conservation_overslept :
    ∃ s, Steps.exec (Demo.step plainEnv oversleptConfig) (Demo.initial plainEnv oversleptConfig)
        overslept = some s ∧ s.main = .done 2150000000 ∧ Conserved s ∧
      (s.net.line .vis).stage.stats.processed = 1 ∧
      (s.net.line .vis).stage.stats.droppedStale = 1 ∧
      (s.net.line .vis).stage.queue.queueEvictedStale = 28 := by
  have hrun : ((Steps.exec (Demo.step plainEnv oversleptConfig)
      (Demo.initial plainEnv oversleptConfig) overslept).any fun s =>
      s.main = .done 2150000000 ∧ (s.net.line .vis).stage.stats.processed = 1 ∧
        (s.net.line .vis).stage.stats.droppedStale = 1 ∧
        (s.net.line .vis).stage.queue.queueEvictedStale = 28) = true := by
    decide +kernel
  obtain ⟨s, hs, hfacts⟩ := (Option.any_eq_true ..).mp hrun
  obtain ⟨hdone, hcounts⟩ := of_decide_eq_true hfacts
  exact ⟨s, hs, hdone, (lifetime_conservation hs).2 _ hdone, hcounts⟩

end ScxSlam.PipelineDemo
