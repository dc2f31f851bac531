import ScxSlam.DependentGraph.History

/-!
# ScxSlam.DependentGraph.Freshness

What `control` reports.  The retained snapshot holds, for each stream, the
newest measurement of the completed batches, so a control result depends on
nothing else, and a late completion cannot make old measurements fresh.
-/

namespace ScxSlam.DependentGraph

/-! ## the retained snapshot -/

/-- The measurement of a stream in a snapshot. -/
def Snapshot.at (s : Snapshot) : Lane → Option Measurement
  | .imu => s.imu
  | .camera => s.camera

/-- The measurement of a stream `control` sees. -/
def Graph.retained (g : Graph) (i : Lane) : Option Measurement := g.latest.bind (·.at i)

theorem keep_at (s : Snapshot) (m : Measurement) {i j : Lane} (hm : m.stream = j.stream) :
    (s.keep m).at i = if i = j then Newest.keep Measurement.sourceTime (s.at i) m else s.at i := by
  cases i <;> cases j <;> simp [Snapshot.keep, Snapshot.at, hm, Lane.stream]

/-- The loop of `complete`, stream by stream. -/
theorem foldl_keep_at {l : List Measurement} (hl : Known l) (s : Snapshot) (i : Lane) :
    (l.foldl Snapshot.keep s).at i =
      (on i l).foldl (Newest.keep Measurement.sourceTime) (s.at i) := by
  induction l generalizing s with
  | nil => rfl
  | cons m l ih =>
      obtain ⟨j, hj⟩ := hl m List.mem_cons_self
      rw [List.foldl_cons, ih fun m' hm' => hl m' (List.mem_cons_of_mem _ hm'), keep_at s m hj,
        on_cons, hj]
      by_cases hij : i = j
      · rw [if_pos hij, if_pos (by rw [hij]), List.foldl_cons]
      · rw [if_neg hij, if_neg fun h => hij (Lane.stream_inj.mp h).symm]

/-- What `control` may rely on. -/
structure Fresh (s : Session) : Prop where
  past : ∀ m ∈ accepted s.history, m.sourceTime ≤ s.graph.clockTime
  newest : ∀ i, s.graph.retained i =
    Newest.newest Measurement.sourceTime (inputsOn i (completedBatches s.history))

section Fresh

variable {capacity limit : Nat} {s s' : Session} {g : Graph} {c : Call} {r : Response}

/-- A call that completes nothing. -/
theorem Fresh.quiet (h : Fresh s)
    (hacc : ∀ m, accepted1 (c, r) = some m → m.sourceTime ≤ g.clockTime)
    (hclock : s.graph.clockTime ≤ g.clockTime) (hlatest : g.latest = s.graph.latest)
    (hdone : completedBatches (s.after c r g).history = completedBatches s.history) :
    Fresh (s.after c r g) := by
  constructor
  · intro m hm
    rw [accepted_after] at hm
    obtain hm | hm := List.mem_append.mp hm
    · exact Nat.le_trans (h.past m hm) hclock
    · exact hacc m (by simpa using hm)
  · intro i
    rw [hdone, ← h.newest i]
    exact congrArg (fun o : Option Snapshot => o.bind (·.at i)) hlatest

/-- Calls other than `complete`, and `select` when it starts a batch, leave
the completed batches as they are. -/
theorem completedBatches_after (hs : selected1 (c, r) = none) (hc : completed1 (c, r) = none) :
    completedBatches (s.after c r g).history = completedBatches s.history := by
  rw [completedBatches, completedBatches, batches_after, completions_after, hs, hc]
  simp

/-- Selecting a batch completes none. -/
theorem completedBatches_select (hb : Books capacity limit s) {t : Nat} {o : Option Batch}
    (hs : s.graph.select t = .ok (o, g)) :
    completedBatches (s.after (.select t) (.selected o) g).history =
      completedBatches s.history := by
  have hb' := hb.select hs
  obtain ⟨-, ⟨rfl, -⟩ | ⟨hidle, -, rfl, hg⟩⟩ := select_ok hs
  · exact completedBatches_after rfl rfl
  · have hcur := hb'.current
    rw [batches_after, hb.current, hidle] at hcur
    have hrun : (s.after (.select t) (.selected (some ⟨s.graph.nextBatch,
        (fill s.graph.limit s.graph.inbox).1⟩)) g).graph.running =
          some ⟨s.graph.nextBatch, (fill s.graph.limit s.graph.inbox).1⟩ := by
      rw [Session.after, hg]
    rw [hrun] at hcur
    simpa [selected1] using hcur.symm

/-- Completing retires the running batch. -/
theorem completedBatches_complete (hb : Books capacity limit s) {id t : Nat} {b : Batch}
    {snapshot : Snapshot} (hs : s.graph.complete id t = .ok (snapshot, g))
    (hrun : s.graph.running = some b) :
    completedBatches (s.after (.complete id t) (.completed snapshot) g).history =
      completedBatches s.history ++ [b] := by
  have hcur := (hb.complete hs).current
  obtain ⟨b', hb', -, -, hk⟩ := complete_ok hs
  cases hrun.symm.trans hb'
  obtain ⟨-, acc, hg, -⟩ := hk (hb.known b (by rw [hb.current, hrun]; simp))
  have hnone : (s.after (.complete id t) (.completed snapshot) g).graph.running = none := by
    rw [Session.after, hg]
  rw [hnone, batches_after, hb.current, hrun] at hcur
  simpa [selected1] using hcur.symm

theorem Fresh.complete (hb : Books capacity limit s) (h : Fresh s) {id t : Nat}
    {snapshot : Snapshot} (hs : s.graph.complete id t = .ok (snapshot, g)) :
    Fresh (s.after (.complete id t) (.completed snapshot) g) := by
  obtain ⟨b, hrun, hid, ht, hk⟩ := complete_ok hs
  have hknown : Known b.inputs := hb.known b (by rw [hb.current, hrun]; simp)
  obtain ⟨hsnap, acc, hg, -⟩ := hk hknown
  constructor
  · intro m hm
    rw [accepted_after] at hm
    have hpast := h.past m (by simpa [accepted1] using hm)
    exact Nat.le_trans hpast (by rw [Session.after, hg]; exact ht)
  · intro i
    have hold : ({ s.graph.latest.getD {} with batchId := id, completed := t } : Snapshot).at i =
        s.graph.retained i := by
      unfold Graph.retained
      cases s.graph.latest <;> cases i <;> rfl
    have hnew : (s.after (.complete id t) (.completed snapshot) g).graph.retained i =
        snapshot.at i := by
      rw [Session.after, hg]
      rfl
    rw [hnew, completedBatches_complete hb hs hrun, inputsOn_append, hsnap,
      foldl_keep_at hknown, hold, h.newest i, ← Newest.newest_append]
    simp [inputsOn]

/-- Every call keeps the snapshot fresh. -/
theorem step_fresh (capacity limit : Nat) :
    Steps.Preserved Session.step fun s => Books capacity limit s ∧ Fresh s := by
  rintro s c s' ⟨hb, h⟩ hs
  refine ⟨step_books capacity limit s c s' hb hs, ?_⟩
  cases step_made hs with
  | threw _ what =>
      exact h.quiet (by cases c <;> nofun) le_rfl rfl
        (completedBatches_after rfl (by cases c <;> rfl))
  | @offer m t b g ho =>
      obtain ⟨i, -, hsrc, ht, hcase⟩ := offer_ok ho
      have hclock : g.clockTime = t ∧ g.latest = s.graph.latest := by
        obtain ⟨-, -, rfl⟩ | ⟨-, -, rfl⟩ := hcase <;> exact ⟨rfl, rfl⟩
      refine h.quiet ?_ (by rw [hclock.1]; exact ht) hclock.2 (completedBatches_after rfl rfl)
      intro m' hm'
      rw [hclock.1]
      cases b <;> cases hm'
      exact hsrc
  | @select t o g ho =>
      obtain ⟨ht, hcase⟩ := select_ok ho
      have hclock : g.clockTime = t ∧ g.latest = s.graph.latest := by
        obtain ⟨-, ⟨-, rfl⟩ | ⟨-, -, rfl⟩⟩ | ⟨-, -, -, rfl⟩ := hcase <;> exact ⟨rfl, rfl⟩
      exact h.quiet nofun (by rw [hclock.1]; exact ht) hclock.2 (completedBatches_select hb ho)
  | complete ho => exact h.complete hb ho
  | control ho =>
      obtain ⟨ht, rfl, -⟩ := control_ok ho
      exact h.quiet nofun ht rfl (completedBatches_after rfl rfl)

theorem Reachable.fresh (h : Reachable capacity limit s) : Fresh s := by
  obtain ⟨g, calls, hg, hrun⟩ := h
  refine ((step_fresh capacity limit).exec ⟨make_books hg, ?_⟩ hrun).2
  unfold Graph.make at hg
  split at hg
  · contradiction
  · cases hg
    exact ⟨nofun, fun i => by cases i <;> rfl⟩

/-- A call forgets no completed batch. -/
theorem step_completed (hb : Books capacity limit s) (hs : Session.step s c = some s') :
    ∃ more, completedBatches s'.history = completedBatches s.history ++ more := by
  cases step_made hs with
  | threw _ what =>
      exact ⟨[], by rw [completedBatches_after rfl (by cases c <;> rfl), List.append_nil]⟩
  | offer ho => exact ⟨[], by rw [completedBatches_after rfl rfl, List.append_nil]⟩
  | select ho => exact ⟨[], by rw [completedBatches_select hb ho, List.append_nil]⟩
  | complete ho =>
      obtain ⟨b, hrun, -⟩ := complete_ok ho
      exact ⟨[b], completedBatches_complete hb ho hrun⟩
  | control ho => exact ⟨[], by rw [completedBatches_after rfl rfl, List.append_nil]⟩

/-- Nor do the calls of a whole run. -/
theorem run_completed (hb : Books capacity limit s) {calls : List Call}
    (hrun : Steps.exec Session.step s calls = some s') :
    ∃ more, completedBatches s'.history = completedBatches s.history ++ more := by
  have hkeep : Steps.Preserved Session.step fun u => Books capacity limit u ∧
      ∃ more, completedBatches u.history = completedBatches s.history ++ more := by
    rintro u c u' ⟨hbu, more, hmore⟩ hs
    obtain ⟨new, hnew⟩ := step_completed hbu hs
    exact ⟨step_books capacity limit u c u' hbu hs, more ++ new, by
      rw [hnew, hmore, List.append_assoc]⟩
  exact (hkeep.exec ⟨hb, [], by rw [List.append_nil]⟩ hrun).2

/-! ## control -/

/-- Completed measurements carry accepted source times, so none lies ahead of
the clock. -/
theorem Reachable.completed_past (h : Reachable capacity limit s) {i : Lane} {m : Measurement}
    (hm : m ∈ inputsOn i (completedBatches s.history)) : m.sourceTime ≤ s.graph.clockTime := by
  refine h.fresh.past m ?_
  have horder := h.books.entered i
  rw [h.books.current, inputsOn_append] at horder
  have hon : m ∈ on i (accepted s.history) := by
    rw [horder]
    exact List.mem_append_left _ (List.mem_append_left _ hm)
  exact List.mem_of_mem_filter hon

/-- The age of a measurement is exact where the clock has passed it. -/
theorem age_exact {m : Measurement} {t k : Nat} (hm : m.sourceTime ≤ t) (ht : t < Word.size 64) :
    Graph.age t m ≤ k ↔ (t : Int) - m.sourceTime ≤ k := by
  rw [Graph.age, Word.sub_of_le hm ht]
  omega

/-- A control result in terms of the completed IMU measurements. -/
theorem outcome_iff (h : Reachable capacity limit s) {t setpoint maxImuAge : Nat} {out : Control}
    (ht : t < Word.size 64) (hs : s.graph.control t setpoint maxImuAge = .ok (out, g)) :
    (out.outcome = .missing ↔ inputsOn .imu (completedBatches s.history) = []) ∧
    (out.outcome = .usable ↔ ∃ m ∈ inputsOn .imu (completedBatches s.history),
      (t : Int) - m.sourceTime ≤ maxImuAge) := by
  obtain ⟨hclock, -, hout⟩ := control_ok hs
  have hnew := h.fresh.newest .imu
  cases hret : s.graph.retained .imu with
  | none =>
      have hnil : inputsOn .imu (completedBatches s.history) = [] :=
        Newest.newest_eq_none.mp (hnew.symm.trans hret)
      have houtcome : out.outcome = .missing := by
        rw [hout]
        simp only [show s.graph.latest.bind Snapshot.imu = none from hret]
      rw [houtcome, hnil]
      simp
  | some m =>
      have hnewest := hnew.symm.trans hret
      have hmem := (Newest.isNewest_newest hnewest).mem
      have hpast : m.sourceTime ≤ t := Nat.le_trans (h.completed_past hmem) hclock
      have hne : inputsOn .imu (completedBatches s.history) ≠ [] := List.ne_nil_of_mem hmem
      have husable : (∃ m ∈ inputsOn .imu (completedBatches s.history),
          (t : Int) - m.sourceTime ≤ maxImuAge) ↔ Graph.age t m ≤ maxImuAge := by
        rw [age_exact hpast ht]
        constructor
        · rintro ⟨m', hm', hage⟩
          have hle : m'.sourceTime ≤ m.sourceTime := (Newest.isNewest_newest hnewest).le hm'
          omega
        · exact fun hage => ⟨m, hmem, hage⟩
      have houtcome : out.outcome = if Graph.age t m ≤ maxImuAge then .usable else .stale := by
        rw [hout]
        simp only [show s.graph.latest.bind Snapshot.imu = some m from hret]
      rw [houtcome, husable]
      by_cases hage : Graph.age t m ≤ maxImuAge <;> simp [hage, hne]

theorem Reachable.run (h : Reachable capacity limit s) {calls : List Call}
    (hrun : Steps.exec Session.step s calls = some s') : Reachable capacity limit s' := by
  obtain ⟨g, before, hg, hbefore⟩ := h
  exact ⟨g, before ++ calls, hg, by rw [Steps.exec_append, hbefore]; exact hrun⟩

theorem Reachable.step (h : Reachable capacity limit s) (hs : Session.step s c = some s') :
    Reachable capacity limit s' :=
  h.run (by rw [Steps.exec_singleton]; exact hs)

theorem control_step {t setpoint maxImuAge : Nat} {out : Control}
    (h : s.graph.control t setpoint maxImuAge = .ok (out, g)) :
    Session.step s (.control t setpoint maxImuAge) =
      some (s.after (.control t setpoint maxImuAge) (.controlled out) g) := by
  rw [Session.step, Graph.call, h]
  rfl

theorem complete_step {id t : Nat} {snapshot : Snapshot}
    (h : s.graph.complete id t = .ok (snapshot, g)) :
    Session.step s (.complete id t) =
      some (s.after (.complete id t) (.completed snapshot) g) := by
  rw [Session.step, Graph.call, h]
  rfl

/-- What `control` promises in a session. -/
structure Freshness (s : Session) : Prop where
  /-- Missing, usable or stale, by the completed IMU measurements alone and in
  exact integers. -/
  outcome : ∀ t setpoint maxImuAge out g, t < Word.size 64 →
    s.graph.control t setpoint maxImuAge = .ok (out, g) →
    (out.outcome = .missing ↔ inputsOn .imu (completedBatches s.history) = []) ∧
    (out.outcome = .usable ↔ ∃ m ∈ inputsOn .imu (completedBatches s.history),
      (t : Int) - m.sourceTime ≤ maxImuAge) ∧
    (out.outcome = .stale ↔ inputsOn .imu (completedBatches s.history) ≠ [] ∧
      ∀ m ∈ inputsOn .imu (completedBatches s.history), (maxImuAge : Int) < t - m.sourceTime) ∧
    out.snapshot = s.graph.latest
  /-- The subtraction of `control` never wraps. -/
  past : ∀ i, ∀ m ∈ inputsOn i (completedBatches s.history), m.sourceTime ≤ s.graph.clockTime
  /-- The snapshot retains the newest completed measurement of each stream. -/
  retained : ∀ i, (s.graph.retained i = none ↔ inputsOn i (completedBatches s.history) = []) ∧
    ∀ m, s.graph.retained i = some m →
      Newest.IsNewest Measurement.sourceTime (inputsOn i (completedBatches s.history)) m
  forward : ∀ calls s' i m, Steps.exec Session.step s calls = some s' →
    s.graph.retained i = some m →
    ∃ m', s'.graph.retained i = some m' ∧ m.sourceTime ≤ m'.sourceTime
  /-- Pending and running measurements are invisible. -/
  blind : ∀ inbox running t setpoint maxImuAge,
    ({ s.graph with inbox := inbox, running := running }.control t setpoint maxImuAge).map
        Prod.fst =
      (s.graph.control t setpoint maxImuAge).map Prod.fst
  /-- Only a recent IMU input of the completed batch itself turns stale into usable. -/
  revived : ∀ t₁ t₂ t₃ id sp₁ sp₃ maxImuAge out₁ snapshot out₃ g₁ g₂ g₃,
    t₁ < Word.size 64 → t₃ < Word.size 64 →
    s.graph.control t₁ sp₁ maxImuAge = .ok (out₁, g₁) → out₁.outcome = .stale →
    g₁.complete id t₂ = .ok (snapshot, g₂) →
    g₂.control t₃ sp₃ maxImuAge = .ok (out₃, g₃) → out₃.outcome = .usable →
    ∃ b, s.graph.running = some b ∧ b.id = id ∧
      ∃ m ∈ b.inputs, m.stream = .imu ∧ (t₃ : Int) - m.sourceTime ≤ maxImuAge

/-- **Freshness**: every reachable session keeps the promises of `control`. -/
theorem control_reports_freshness (h : Reachable capacity limit s) : Freshness s := by
  have hb := h.books
  have hstale : ∀ t setpoint maxImuAge out g, t < Word.size 64 →
      s.graph.control t setpoint maxImuAge = .ok (out, g) →
      (out.outcome = .stale ↔ inputsOn .imu (completedBatches s.history) ≠ [] ∧
        ∀ m ∈ inputsOn .imu (completedBatches s.history),
          (maxImuAge : Int) < t - m.sourceTime) := by
    intro t setpoint maxImuAge out g ht hs
    obtain ⟨hmissing, husable⟩ := outcome_iff h ht hs
    have hnot : (∀ m ∈ inputsOn .imu (completedBatches s.history),
        (maxImuAge : Int) < t - m.sourceTime) ↔ out.outcome ≠ .usable := by
      rw [ne_eq, husable]
      simp only [not_exists, not_and, Int.not_le]
    rw [hnot, ne_eq, ← hmissing]
    cases out.outcome <;> simp
  constructor
  case outcome =>
      intro t setpoint maxImuAge out g ht hs
      obtain ⟨hmissing, husable⟩ := outcome_iff h ht hs
      obtain ⟨-, -, hout⟩ := control_ok hs
      exact ⟨hmissing, husable, hstale t setpoint maxImuAge out g ht hs, by rw [hout]⟩
  case past => exact fun i m hm => h.completed_past hm
  case retained =>
      intro i
      rw [h.fresh.newest i]
      exact ⟨Newest.newest_eq_none, fun m hm => Newest.isNewest_newest hm⟩
  case forward =>
      intro calls s' i m hrun hret
      obtain ⟨more, hmore⟩ := run_completed hb hrun
      have hnew' := (h.run hrun).fresh.newest i
      rw [hmore, inputsOn_append] at hnew'
      have hold := (h.fresh.newest i).symm.trans hret
      cases hret' : s'.graph.retained i with
      | none =>
          have hnil := Newest.newest_eq_none.mp (hnew'.symm.trans hret')
          rw [(List.append_eq_nil_iff.mp hnil).1] at hold
          contradiction
      | some m' => exact ⟨m', rfl, Newest.newest_mono hold (hnew'.symm.trans hret')⟩
  case blind =>
      intro inbox running t setpoint maxImuAge
      simp only [Graph.control, Graph.advance, bind, Except.bind, pure, Except.pure]
      by_cases ht : t < s.graph.clockTime <;> simp [ht, Except.map]
  case revived =>
      intro t₁ t₂ t₃ id sp₁ sp₃ maxImuAge out₁ snapshot out₃ g₁ g₂ g₃ ht₁ ht₃ hs₁ hout₁ hs₂ hs₃
        hout₃
      obtain ⟨-, hg₁, -⟩ := control_ok hs₁
      obtain ⟨b, hrun, hid, ht₂, hk⟩ := complete_ok hs₂
      have hrun' : s.graph.running = some b := by rw [← hrun, hg₁]
      have hafter₁ := h.step (control_step hs₁)
      have hafter₂ := hafter₁.step (complete_step hs₂)
      have hdone := completedBatches_complete hafter₁.books hs₂ hrun
      have hkeep : completedBatches
          (s.after (.control t₁ sp₁ maxImuAge) (.controlled out₁) g₁).history =
            completedBatches s.history := completedBatches_after rfl rfl
      rw [hkeep] at hdone
      obtain ⟨m, hm, hage⟩ := (outcome_iff hafter₂ ht₃ hs₃).2.mp hout₃
      rw [hdone, inputsOn_append] at hm
      obtain hm | hm := List.mem_append.mp hm
      · have hold := ((hstale t₁ sp₁ maxImuAge out₁ g₁ ht₁ hs₁).mp hout₁).2 m hm
        obtain ⟨-, acc, hg₂, -⟩ := hk (hafter₁.books.known b (by
          rw [hafter₁.books.current]
          exact List.mem_append_right _ (by rw [Session.after, hrun]; simp)))
        obtain ⟨ht, -, -⟩ := control_ok hs₃
        have h₁₂ : t₁ ≤ t₂ := by simpa [hg₁] using ht₂
        have h₂₃ : t₂ ≤ t₃ := by simpa [hg₂] using ht
        omega
      · simp only [inputsOn, List.flatMap_cons, List.flatMap_nil, List.append_nil, on,
          List.mem_filter, decide_eq_true_eq] at hm
        exact ⟨b, hrun', hid, m, hm.1, hm.2, hage⟩

theorem control_reports_freshness_tour :
    Newest.IsNewest Measurement.sourceTime (inputsOn .imu (completedBatches tourSession.history))
      ⟨.imu, 1, 1⟩ :=
  ((control_reports_freshness tour_reachable).retained .imu).2 _ rfl

end Fresh

end ScxSlam.DependentGraph
