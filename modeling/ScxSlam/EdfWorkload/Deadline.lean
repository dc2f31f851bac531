import Mathlib.Algebra.BigOperators.Fin
import Mathlib.Tactic.NormNum
import ScxSlam.EdfWorkload.Jobs
import ScxSlam.Lib.Edf

/-!
# ScxSlam.EdfWorkload.Deadline

The workload under a scheduler that serves its hints by deadline: where the
threads keep to their reservations, none of their jobs is late.

The reservations are a task set in the sense of `Edf`, and a state is seen as
its processor.  Every step of a run is one of that processor's or leaves it
where it is.
-/

namespace ScxSlam.EdfWorkload

open Workload (Hint)

/-! ## the hints -/

/-- The thread has come to its loop. -/
def Worker.started (w : Worker) : Bool :=
  match w.pc with
  | .enroll | .barrier | .check => false
  | _ => true

/-- The hint in the thread's slot. -/
def Worker.hint? (w : Worker) : Option Hint :=
  match w.hints.getLast? with
  | some (.publish h) => some h
  | _ => none

/-- What a thread has written to its slot. -/
def State.history (s : State) (t : Task) : List Write :=
  let published := (List.range ((s.worker t).job + 1)).map fun j => Write.publish (s.hintOf t j)
  if s.mode = .scx then
    match (s.worker t).pc with
    | .enroll => []
    | .ended => published ++ [.clear]
    | _ => published
  else []

/-- Every job is announced before the thread sleeps to its release, and the last
hint is taken back. -/
def Hinted (s : State) : Prop := ∀ t, (s.worker t).hints = s.history t

section Hints

variable {s s' : State} {t u : Task} {d : Nat} {ran : Option Task}

/-- The history depends on the place and the job of the thread only. -/
theorem history_congr (hmode : s'.mode = s.mode) (hepoch : s'.epoch = s.epoch)
    (hpc : (s'.worker t).pc = (s.worker t).pc) (hjob : (s'.worker t).job = (s.worker t).job) :
    s'.history t = s.history t := by
  have hhint : ∀ j, s'.hintOf t j = s.hintOf t j := by
    intro j
    simp [State.hintOf, State.release, hepoch]
  simp only [State.history, hmode, hpc, hjob, hhint]

/-- A move extends the hints as it extends the history. -/
theorem Moves.hinted (hs : Sound s) (hh : Hinted s) (h : Moves s t s') :
    (s'.worker t).hints = s'.history t := by
  have hhint := hh t
  have hplace := (hs t).place
  unfold Worker.Place at hplace
  obtain ⟨-, hepoch, hmode, -⟩ := h.frame
  have hof : ∀ j, s'.hintOf t j = s.hintOf t j := by
    intro j
    simp [State.hintOf, State.release, hepoch]
  unfold State.history at hhint ⊢
  simp only [hmode, hof]
  by_cases hscx : s.mode = .scx
  · rw [if_pos hscx] at hhint ⊢
    cases h
    case late => exact hhint
    all_goals
      simp only [‹(s.worker t).pc = _›] at hplace hhint
      simp_all [State.publish, State.clear, List.range_succ]
  · rw [if_neg hscx] at hhint ⊢
    cases h
    case late => exact hhint
    all_goals simp_all [State.publish, State.clear]

/-- Every step keeps hints and history together. -/
theorem step_hinted : Steps.Preserved step fun s => Sound s ∧ Hinted s := by
  intro s a s' hs h
  obtain ⟨hsound, hhint⟩ := hs
  refine ⟨step_sound s a s' hsound h, ?_⟩
  cases a with
  | tick d ran =>
      obtain ⟨rfl, -⟩ := step_tick h
      intro t
      by_cases hran : ran = some t
      · have hw := hran ▸ pass_worker_self (s := s) (t := t) (d := d)
        rw [history_congr pass_mode pass_epoch (by rw [hw]) (by rw [hw]), hw]
        exact hhint t
      · have hw := pass_worker (s := s) (d := d) hran
        rw [history_congr pass_mode pass_epoch (by rw [hw]) (by rw [hw]), hw]
        exact hhint t
  | thread t =>
      obtain ⟨-, hmoves⟩ := step_thread h
      obtain ⟨-, hepoch, hmode, hother⟩ := hmoves.frame
      intro u
      by_cases hu : u = t
      · subst hu
        exact hmoves.hinted hsound hhint
      · rw [history_congr hmode hepoch (by rw [hother u hu]) (by rw [hother u hu]), hother u hu]
        exact hhint u

/-- No hint has been written yet. -/
theorem initial_hinted (mode : Mode) (now : Nat) : Hinted (State.initial mode now) := by
  intro t
  cases t <;> exact (ite_self _).symm

/-- The hints of every reachable state are its history. -/
theorem Reachable.hinted {mode : Mode} (h : Reachable mode s) : Hinted s ∧ s.mode = mode := by
  obtain ⟨start, as, hrun⟩ := h
  have hmode : Steps.Preserved step fun s => s.mode = mode := by
    intro s a s' hs h
    cases a with
    | tick d ran => rw [(step_tick h).1, pass_mode, hs]
    | thread t => rw [(step_thread h).2.frame.2.2.1, hs]
  exact ⟨(step_hinted.exec ⟨initial_sound mode start, initial_hinted mode start⟩ hrun).2,
    hmode.exec rfl hrun⟩

/-- A thread in its loop has the hint of its job. -/
theorem Hinted.hint? (h : Hinted s) (hscx : s.mode = .scx) (hstarted : (s.worker t).started)
    (hended : (s.worker t).pc ≠ .ended) :
    (s.worker t).hint? = some (s.hintOf t (s.worker t).job) := by
  unfold Worker.hint?
  rw [h t]
  unfold Worker.started at hstarted
  unfold State.history
  rw [if_pos hscx]
  split at hstarted <;> simp_all [List.range_succ]

/-- **The hints follow the jobs**: in `scx` mode each thread announces its jobs
one after the other, has the hint of its own job in its slot from before the
sleep to the job's release until the job has ended, and leaves no hint behind. -/
theorem hints_follow_jobs (h : Reachable .scx s) (t : Task) :
    (s.worker t).hints = s.history t ∧
      ((s.worker t).started → (s.worker t).pc ≠ .ended →
        (s.worker t).hint? = some (s.hintOf t (s.worker t).job)) ∧
      ((s.worker t).pc = .ended → (s.worker t).hint? = none) := by
  obtain ⟨hhint, hscx⟩ := h.hinted
  refine ⟨hhint t, hhint.hint? hscx, fun hpc => ?_⟩
  unfold Worker.hint?
  rw [hhint t, State.history, if_pos hscx, hpc]
  simp

/-- A thread that has ended leaves no hint. -/
theorem hints_follow_jobs_scx : ((fifoEnd .scx .a).worker .b).hint? = none :=
  (hints_follow_jobs (fifoEnd_reachable .scx .a) .b).2.2 (by decide +kernel)

end Hints

/-! ## the processor -/

/-- The reservations. -/
def tasks : Edf.Tasks Task where
  period := period
  budget := reservation
  count := count
  period_pos t := by cases t <;> decide

/-- The two reservations fit one processor. -/
theorem tasks_utilization_le_one : tasks.utilization ≤ 1 := by
  have hsum : tasks.utilization =
      (reservation .a : ℚ) / period .a + (reservation .b : ℚ) / period .b := by
    simp [Edf.Tasks.utilization, tasks, Finset.univ, Fintype.elems]
  rw [hsum]
  norm_num [reservation, period]

/-- What a job still has of its reservation: nothing once its thread is through with it. -/
def Worker.left (w : Worker) (t : Task) (j : Nat) : Option Nat :=
  if j < w.job then none
  else if w.job < j then some (reservation t)
  else if w.pc = .ended then none
  else if w.started then some (reservation t - w.spent)
  else some (reservation t)

/-- A state, seen as a processor. -/
def State.config (s : State) : Edf.Config ((_ : Task) × Nat) where
  now := s.now
  left i := (s.worker i.1).left i.1 i.2

/-- No job is released inside the next `d`. -/
def State.Quiet (s : State) (d : Nat) : Prop :=
  ∀ t, ∀ j < count t, s.release t j ≤ s.now ∨ s.now + d ≤ s.release t j

/-- The deadline in a thread's slot. -/
def State.due (s : State) (t : Task) : Nat :=
  match (s.worker t).hint? with
  | some h => h.deadline
  | none => 0

/-- The CPU goes to a thread that can use it and whose deadline is the first. -/
def State.ByHint (s : State) : Option Task → Prop
  | some t => ∀ u, s.blocked u = false → s.due t ≤ s.due u
  | none => ∀ u, s.blocked u = true

/-- The thread keeps to its reservation. -/
def State.Reserved (s : State) (d : Nat) : Option Task → Prop
  | some t => (s.worker t).spent + d ≤ reservation t
  | none => True

/-- From the epoch on the hints are served by deadline. -/
def Served (s : State) : Action → Prop
  | .tick d ran => s.Quiet d ∧ (s.epoch ≤ s.now → s.ByHint ran ∧ s.Reserved d ran)
  | .thread _ => True

instance (s : State) (ran : Option Task) : Decidable (s.ByHint ran) :=
  match ran with
  | some t => inferInstanceAs (Decidable (∀ u, s.blocked u = false → s.due t ≤ s.due u))
  | none => inferInstanceAs (Decidable (∀ u, s.blocked u = true))

instance (s : State) (d : Nat) (ran : Option Task) : Decidable (s.Reserved d ran) :=
  match ran with
  | some t => inferInstanceAs (Decidable ((s.worker t).spent + d ≤ reservation t))
  | none => inferInstanceAs (Decidable True)

instance (s : State) (a : Action) : Decidable (Served s a) :=
  match a with
  | .tick d ran => inferInstanceAs (Decidable
      ((∀ t, ∀ j < count t, s.release t j ≤ s.now ∨ s.now + d ≤ s.release t j) ∧
        (s.epoch ≤ s.now → s.ByHint ran ∧ s.Reserved d ran)))
  | .thread _ => inferInstanceAs (Decidable True)

section Processor

variable {s s' : State} {t u : Task} {d j : Nat} {ran : Option Task} {w w' : Worker}
  {i : (_ : Task) × Nat}

/-- Nothing is left of an earlier job. -/
theorem left_of_lt (h : j < w.job) : w.left t j = none := if_pos h

/-- All is left of a later job. -/
theorem left_of_gt (h : w.job < j) : w.left t j = some (reservation t) := by
  rw [Worker.left, if_neg (by omega), if_pos h]

/-- What is left of the job at hand. -/
theorem left_job : w.left t w.job =
    if w.pc = .ended then none
    else if w.started then some (reservation t - w.spent)
    else some (reservation t) := by
  rw [Worker.left, if_neg (Nat.lt_irrefl _), if_neg (Nat.lt_irrefl _)]

/-- Nothing is left of a job once the thread has ended. -/
theorem left_job_of_ended (hjob : w'.job = w.job) (hpc : w'.pc = .ended) :
    w'.left t w.job = none := by
  rw [← hjob, left_job, if_pos hpc]

/-- What the thread has not spent is left of a job that has started. -/
theorem left_job_of_started (hjob : w'.job = w.job) (hended : w'.pc ≠ .ended) (hs : w'.started) :
    w'.left t w.job = some (reservation t - w'.spent) := by
  rw [← hjob, left_job, if_neg hended, if_pos hs]

/-- A thread that stays with its job changes what is left of this one only. -/
theorem left_update {v : Option Nat} (hjob : w'.job = w.job) (hcur : w'.left t w.job = v)
    (j : Nat) :
    w'.left t j = if j = w.job then v else w.left t j := by
  rcases Nat.lt_trichotomy j w.job with h | rfl | h
  · rw [if_neg (by omega), left_of_lt h, left_of_lt (hjob ▸ h)]
  · rw [if_pos rfl, hcur]
  · rw [if_neg (by omega), left_of_gt h, left_of_gt (hjob ▸ h)]

/-- What is left changes with the job at hand only. -/
theorem left_congr (hjob : w'.job = w.job) (hcur : w'.left t w.job = w.left t w.job) :
    w'.left t = w.left t := by
  funext j
  rw [left_update hjob hcur]
  split
  · next h => rw [h]
  · rfl

/-- The jobs of the two tasks. -/
theorem mem_jobs {epoch : Nat} : i ∈ (tasks.jobs epoch).all ↔ i.2 < count i.1 := by
  simp [Edf.Tasks.jobs, tasks]

/-- A job that has not ended is the thread's or follows it. -/
theorem job_le_of_left (h : w.left t j ≠ none) : w.job ≤ j := by
  by_contra hlt
  exact h (left_of_lt (by omega))

/-- A thread whose job is pending can use the CPU. -/
theorem Sound.unblocked (hs : Sound s) (hstarted : (s.worker i.1).started)
    (hp : s.config.Pending (tasks.jobs s.epoch) i) : s.blocked i.1 = false := by
  obtain ⟨hmem, hrelease, hleft⟩ := hp
  have hcount := mem_jobs.mp hmem
  have hle := job_le_of_left hleft
  have hplace := (hs i.1).place
  unfold Worker.Place at hplace
  unfold Worker.started at hstarted
  unfold State.blocked
  cases hpc : (s.worker i.1).pc <;> simp only [hpc] at hplace hstarted ⊢ <;> try contradiction
  case sleep =>
      have hmul := Nat.mul_le_mul_right (period i.1) hle
      have hdue : s.epoch + i.2 * period i.1 ≤ s.now := hrelease
      rw [decide_eq_false_iff_not, State.release]
      omega
  case ended =>
      have heq : i.2 = (s.worker i.1).job := by omega
      refine absurd ?_ hleft
      show (s.worker i.1).left i.1 i.2 = none
      rw [heq, left_job, if_pos hpc]

/-- The job of a thread that can use the CPU is pending. -/
theorem Sound.pending (hs : Sound s) (hstarted : (s.worker t).started)
    (hb : s.blocked t = false) :
    s.config.Pending (tasks.jobs s.epoch) ⟨t, (s.worker t).job⟩ ∧ (s.worker t).pc ≠ .ended := by
  have hended : (s.worker t).pc ≠ .ended := by
    intro hpc
    simp [State.blocked, hpc] at hb
  refine ⟨⟨mem_jobs.mpr (hs t).job, ?_, ?_⟩, hended⟩
  · show s.epoch + (s.worker t).job * period t ≤ s.now
    have hplace := (hs t).place
    unfold Worker.Place at hplace
    unfold Worker.started at hstarted
    unfold State.blocked at hb
    cases hpc : (s.worker t).pc <;> simp only [hpc] at hplace hstarted hb <;> try contradiction
    case sleep =>
        rw [decide_eq_false_iff_not, State.release] at hb
        omega
    all_goals omega
  · show (s.worker t).left t (s.worker t).job ≠ none
    rw [left_job, if_neg hended, if_pos hstarted]
    exact Option.some_ne_none _

/-- A quiet interval is one for the task set. -/
theorem quiet_config (h : s.Quiet d) : s.config.Quiet (tasks.jobs s.epoch) d :=
  fun i hi => h i.1 i.2 (mem_jobs.mp hi)

/-- Only what is left changes, if anything. -/
theorem config_pass (h : ∀ t, ((s.pass d ran).worker t).left t = (s.worker t).left t) :
    (s.pass d ran).config = ⟨s.config.now + d, s.config.left⟩ := by
  have hleft : (s.pass d ran).config.left = s.config.left := funext fun i => congrFun (h i.1) i.2
  rw [← hleft]
  simp [State.config]

/-- A move that leaves the rest of the job leaves the configuration. -/
theorem config_setWorker (h : w.left t = (s.worker t).left t) :
    (s.setWorker t w).config = s.config := by
  have hleft : (s.setWorker t w).config.left = s.config.left := by
    funext i
    obtain ⟨u, j⟩ := i
    show ((s.setWorker t w).worker u).left u j = (s.worker u).left u j
    by_cases hu : u = t
    · subst hu
      rw [worker_setWorker_self, h]
    · rw [worker_setWorker_of_ne hu]
  show (⟨s.now, (s.setWorker t w).config.left⟩ : Edf.Config _) = _
  rw [hleft]
  rfl

/-- One job's share changes. -/
theorem config_update {v : Option Nat} (hnow : s'.now = s.now + d)
    (hother : ∀ u, u ≠ t → s'.worker u = s.worker u)
    (hself : ∀ k, (s'.worker t).left t k = if k = j then v else (s.worker t).left t k) :
    s'.config = ⟨s.config.now + d, Function.update s.config.left ⟨t, j⟩ v⟩ := by
  have hleft : s'.config.left = Function.update s.config.left ⟨t, j⟩ v := by
    funext i
    obtain ⟨u, k⟩ := i
    show (s'.worker u).left u k = _
    by_cases hu : u = t
    · subst hu
      rw [hself k]
      by_cases hk : k = j
      · subst hk
        rw [if_pos rfl, Function.update_self]
      · rw [if_neg hk, Function.update_of_ne (by simp [hk])]
        rfl
    · rw [Function.update_of_ne (by simp [hu]), hother u hu]
      rfl
  rw [← hleft]
  simp [State.config, hnow]

/-- Before the epoch a thread in its loop sleeps. -/
theorem Sound.blocked_of_early (hs : Sound s) (hstarted : (s.worker t).started)
    (hearly : s.now < s.epoch) : s.blocked t = true := by
  cases hb : s.blocked t with
  | true => rfl
  | false =>
      have hrelease : s.epoch + (s.worker t).job * period t ≤ s.now :=
        (hs.pending hstarted hb).1.2.1
      omega

/-- Jobs are pending from the epoch on. -/
theorem started_of_pending (hp : s.config.Pending (tasks.jobs s.epoch) i) : s.epoch ≤ s.now := by
  have hrelease : s.epoch + i.2 * period i.1 ≤ s.now := hp.2.1
  omega

/-- A tick is a step of the processor. -/
theorem Sound.tick_edf (hs : Sound s) (hh : Hinted s) (hscx : s.mode = .scx)
    (hran : ∀ t, ran = some t → s.blocked t = false)
    (hstarted : s.epoch ≤ s.now → ∀ t, (s.worker t).started)
    (hserved : Served s (.tick d ran)) :
    Edf.Step (tasks.jobs s.epoch) s.config (s.pass d ran).config := by
  obtain ⟨hquiet, hrules⟩ := hserved
  by_cases hearly : s.now < s.epoch
  · rw [config_pass]
    · refine .idle d (fun i hp => ?_) (quiet_config hquiet)
      have := started_of_pending hp
      omega
    · intro t
      by_cases ht : ran = some t
      · subst ht
        have hno : (s.worker t).started = false := by
          by_contra hyes
          have := hs.blocked_of_early (by simpa using hyes) hearly
          rw [hran t rfl] at this
          contradiction
        rw [pass_worker_self]
        refine left_congr rfl ?_
        simp only [Worker.left, Worker.started] at hno ⊢
        simp [hno]
      · rw [pass_worker ht]
  · have hstarted := hstarted (Nat.le_of_not_lt hearly)
    obtain ⟨hbyHint, hreserved⟩ := hrules (Nat.le_of_not_lt hearly)
    cases ran with
    | none =>
        rw [config_pass fun t => rfl]
        refine .idle d (fun i hp => ?_) (quiet_config hquiet)
        have hblocked := hs.unblocked (hstarted i.1) hp
        rw [hbyHint i.1] at hblocked
        contradiction
    | some t =>
        have hreserved : (s.worker t).spent + d ≤ reservation t := hreserved
        obtain ⟨hpending, hended⟩ := hs.pending (hstarted t) (hran t rfl)
        rw [config_update (j := (s.worker t).job)
          (v := some (reservation t - ((s.worker t).spent + d))) pass_now]
        · refine .serve _ d _ hpending (fun k hk => ?_) ?_ (quiet_config hquiet)
          · -- the pending jobs of a thread follow the one it has announced
            have hfree := hs.unblocked (hstarted k.1) hk
            have hdue := hbyHint k.1 hfree
            have hk' := (hs.pending (hstarted k.1) hfree).2
            unfold State.due at hdue
            rw [hh.hint? hscx (hstarted t) hended, hh.hint? hscx (hstarted k.1) hk'] at hdue
            have hle := Nat.mul_le_mul_right (period k.1) (job_le_of_left hk.2.2)
            show s.epoch + (s.worker t).job * period t + period t ≤
              s.epoch + k.2 * period k.1 + period k.1
            simp only [State.hintOf, State.release] at hdue
            omega
          · show (s.worker t).left t (s.worker t).job = _
            rw [left_job, if_neg hended, if_pos (hstarted t)]
            congr 1
            omega
        · exact fun u hu => pass_worker fun h => hu (Option.some.inj h).symm
        · intro k
          have hw := pass_worker_self (s := s) (t := t) (d := d)
          have hjob : ((s.pass d (some t)).worker t).job = (s.worker t).job := by rw [hw]
          have hspent : ((s.pass d (some t)).worker t).spent = (s.worker t).spent + d := by rw [hw]
          rw [← hspent]
          refine left_update hjob (left_job_of_started hjob ?_ ?_) k
          · rw [hw]
            exact hended
          · rw [hw]
            exact hstarted t

/-- A thread's step ends a job or is nothing to the processor. -/
theorem Moves.edf (hs : Sound s) (h : Moves s t s') :
    s'.config = s.config ∨ Edf.Step (tasks.jobs s.epoch) s.config s'.config := by
  -- where a thread ends its job, it is through with it and has not begun the next
  have hfinish : ∀ w : Worker, (s.worker t).pc = .next →
      (∀ k, w.left t k = if k = (s.worker t).job then none else (s.worker t).left t k) →
      Edf.Step (tasks.jobs s.epoch) s.config (s.setWorker t w).config := by
    intro w hpc hw
    have hconfig : (s.setWorker t w).config =
        ⟨s.config.now + 0, Function.update s.config.left ⟨t, (s.worker t).job⟩ none⟩ := by
      refine config_update rfl (fun u hu => worker_setWorker_of_ne hu) fun k => ?_
      rw [worker_setWorker_self, hw]
    rw [hconfig]
    refine .finish _ (hs.pending ?_ ?_).1
    · simp [Worker.started, hpc]
    · simp [State.blocked, hpc]
  cases h with
  | late hpc hlate => exact .inl rfl
  | next hpc hmore =>
      refine .inr (hfinish _ hpc fun k => ?_)
      rcases Nat.lt_trichotomy k (s.worker t).job with hk | rfl | hk
      · rw [if_neg (by omega), left_of_lt hk]
        exact left_of_lt (Nat.lt_succ_of_lt hk)
      · rw [if_pos rfl]
        exact left_of_lt (Nat.lt_succ_self _)
      · rw [if_neg (by omega), left_of_gt hk]
        simp only [Worker.left, Worker.started]
        split_ifs <;> first | rfl | omega
  | last hpc hlast =>
      refine .inr (hfinish _ hpc (left_update clear_job (left_job_of_ended clear_job rfl)))
  | check hpc hearly =>
      refine .inl (config_setWorker (left_congr rfl ?_))
      rw [left_job, left_job]
      simp [Worker.started, hpc]
  | enroll hpc =>
      refine .inl (config_setWorker (left_congr (publish_job 0) ?_))
      rw [left_job]
      simp [Worker.left, Worker.started, hpc]
  | barrier hpc | sleep hpc | start hpc | begin hpc | compute _ hpc | used _ hpc | finish _ hpc =>
      refine .inl (config_setWorker (left_congr rfl ?_))
      rw [left_job]
      simp [Worker.left, Worker.started, hpc]

end Processor

/-! ## runs -/

/-- A thread has missed the epoch and will never join. -/
def Late (s : State) : Prop := s.epoch ≤ s.now ∧ ∃ t, (s.worker t).started = false

/-- The processor is ahead of its deadlines, and no job has been late. -/
structure Timely (s : State) : Prop where
  ahead : Edf.Ahead (tasks.jobs s.epoch) s.config
  met : ∀ t, ∀ x ∈ (s.worker t).samples, x.finish ≤ x.release + period t

section Runs

variable {s s' : State} {t u : Task} {d : Nat} {ran : Option Task} {mode : Mode} {start : Nat}
  {as : List Action}

/-- A run that is late stays so. -/
theorem Moves.stays_late (hl : Late s) (h : Moves s t s') : Late s' := by
  obtain ⟨hpast, u, hu⟩ := hl
  obtain ⟨hnow, hepoch, -, hother⟩ := h.frame
  refine ⟨by rw [hnow, hepoch]; exact hpast, u, ?_⟩
  by_cases hut : u = t
  · subst hut
    unfold Worker.started at hu
    cases h
    case late => exact hu
    case check hpc hearly => omega
    all_goals
      simp only [‹(s.worker u).pc = _›] at hu
      first
        | contradiction
        | rw [worker_setWorker_self]
          rfl
  · rw [hother u hut]
    exact hu

/-- Time makes up for nothing. -/
theorem Late.pass (hl : Late s) : Late (s.pass d ran) := by
  obtain ⟨hpast, t, ht⟩ := hl
  refine ⟨?_, t, ?_⟩
  · rw [pass_epoch, pass_now]
    omega
  · by_cases hrt : ran = some t
    · subst hrt
      rw [pass_worker_self]
      exact ht
    · rw [pass_worker hrt]
      exact ht

/-- A run that is not late has started its threads by the epoch. -/
theorem started_of_not_late (hon : ¬Late s) (hpast : s.epoch ≤ s.now) (t : Task) :
    (s.worker t).started := by
  by_contra hno
  exact hon ⟨hpast, t, by simpa using hno⟩

/-- The job that ends is the one the processor has to be ahead of. -/
theorem Timely.due (h : Timely s) (hs : Sound s) (hstarted : (s.worker t).started)
    (hended : (s.worker t).pc ≠ .ended) : s.now ≤ s.release t (s.worker t).job + period t := by
  refine h.ahead.due ⟨t, (s.worker t).job⟩ (mem_jobs.mpr (hs t).job) ?_
  show (s.worker t).left t (s.worker t).job ≠ none
  rw [left_job, if_neg hended, if_pos hstarted]
  exact Option.some_ne_none _

/-- A move keeps the processor's account. -/
theorem Moves.timely (hs : Sound s) (ht : Timely s) (h : Moves s t s') : Timely s' := by
  obtain ⟨-, hepoch, -, hother⟩ := h.frame
  have hfeasible := Edf.Tasks.feasible_of_utilization_le_one s.epoch tasks_utilization_le_one
  constructor
  case ahead =>
      rw [hepoch]
      obtain heq | hstep := h.edf hs
      · rw [heq]
        exact ht.ahead
      · exact ht.ahead.step hfeasible hstep
  case met =>
      intro u x hx
      by_cases hu : u = t
      · subst hu
        cases h
        case finish cpu hpc =>
            rw [worker_setWorker_self] at hx
            obtain hx | hx := List.mem_append.mp hx
            · exact ht.met u x hx
            · rw [List.mem_singleton.mp hx]
              exact ht.due hs (by simp [Worker.started, hpc]) (by simp [hpc])
        case late => exact ht.met u x hx
        all_goals
          rw [worker_setWorker_self] at hx
          exact ht.met u x (by simpa using hx)
      · rw [hother u hu] at hx
        exact ht.met u x hx

/-- Time passes for the thread with the earliest deadline. -/
theorem tick_timely (hs : Sound s) (hh : Hinted s) (hscx : s.mode = .scx) (ht : Timely s)
    (hon : ¬Late s) (hran : ∀ t, ran = some t → s.blocked t = false)
    (hserved : Served s (.tick d ran)) : Timely (s.pass d ran) := by
  have hfeasible := Edf.Tasks.feasible_of_utilization_le_one s.epoch tasks_utilization_le_one
  constructor
  case ahead =>
      rw [pass_epoch]
      exact ht.ahead.step hfeasible (hs.tick_edf hh hscx hran (started_of_not_late hon) hserved)
  case met =>
      intro t x hx
      by_cases hrt : ran = some t
      · subst hrt
        rw [pass_worker_self] at hx
        exact ht.met t x hx
      · rw [pass_worker hrt] at hx
        exact ht.met t x hx

/-- What every run keeps whose hints are served by deadline. -/
def Kept (s : State) : Prop := (Sound s ∧ Hinted s) ∧ s.mode = .scx ∧ (Late s ∨ Timely s)

/-- Every step of a served run keeps the account, or is late. -/
theorem step_kept (s : State) (a : Action) (s' : State) (hk : Kept s) (hserved : Served s a)
    (h : step s a = some s') : Kept s' := by
  obtain ⟨hsh, hscx, hrest⟩ := hk
  refine ⟨step_hinted s a s' hsh h, ?_⟩
  obtain ⟨hs, hh⟩ := hsh
  cases a with
  | tick d ran =>
      obtain ⟨rfl, hran⟩ := step_tick h
      rw [pass_mode]
      refine ⟨hscx, ?_⟩
      by_cases hl : Late s
      · exact .inl hl.pass
      · exact .inr (tick_timely hs hh hscx (hrest.resolve_left hl) hl hran hserved)
  | thread t =>
      obtain ⟨-, hmoves⟩ := step_thread h
      obtain ⟨-, -, hmode, -⟩ := hmoves.frame
      refine ⟨hmode.trans hscx, ?_⟩
      obtain hl | ht := hrest
      · exact .inl (hmoves.stays_late hl)
      · exact .inr (hmoves.timely hs ht)

/-- At the start nothing is due. -/
theorem initial_kept (start : Nat) : Kept (State.initial .scx start) := by
  have hfeasible := Edf.Tasks.feasible_of_utilization_le_one (start + 500000000)
    tasks_utilization_le_one
  refine ⟨⟨initial_sound .scx start, initial_hinted .scx start⟩, rfl, .inr ⟨?_, ?_⟩⟩
  · refine Edf.ahead_initial hfeasible (fun i _ => ?_) fun i _ => ?_
    · show start ≤ start + 500000000 + i.2 * period i.1
      omega
    · obtain ⟨t, j⟩ := i
      have hw : (State.initial .scx start).worker t = {} := by cases t <;> rfl
      show ((State.initial .scx start).worker t).left t j = some (reservation t)
      rw [hw]
      cases j <;> rfl
  · intro t x hx
    cases t <;> cases hx

/-- Behind the joins no thread has missed the epoch. -/
theorem not_late_of_joined (hjoined : s.joined) : ¬Late s := by
  rintro ⟨-, t, ht⟩
  rw [Worker.started, hjoined t] at ht
  contradiction

/-- **Served by deadline**, the threads meet every deadline as long as they keep
to their reservations: unless one of them has missed the epoch, no sample is
late and no thread in its loop is behind the deadline of its job, and behind
the joins `validate` counts no miss. -/
theorem served_meets_deadlines (hserved : Steps.Along step Served (State.initial .scx start) as)
    (hrun : Steps.exec step (State.initial .scx start) as = some s) :
    (¬Late s → ∀ t, (∀ x ∈ (s.worker t).samples, x.finish ≤ x.release + period t) ∧
      ((s.worker t).started → (s.worker t).pc ≠ .ended →
        s.now ≤ s.release t (s.worker t).job + period t)) ∧
    (s.joined → validate s.output = .ok ⟨0, 0⟩) := by
  obtain ⟨⟨hs, -⟩, -, hrest⟩ := hserved.exec step_kept (initial_kept start) hrun
  refine ⟨fun hon t => ?_, fun hjoined => ?_⟩
  · have htimely := hrest.resolve_left hon
    exact ⟨htimely.met t, htimely.due hs⟩
  · have htimely := hrest.resolve_left (not_late_of_joined hjoined)
    have hmissed : ∀ t, s.missed t = 0 := by
      intro t
      refine List.countP_eq_zero.mpr fun x hx => ?_
      have := htimely.met t x hx
      simp
      omega
    rw [(hs.report hjoined).1, hmissed, hmissed]

/-- The thread whose deadline is the first. -/
def earliest (s : State) : Task := if s.due .b < s.due .a then .b else .a

def edfEnd : State := drive earliest 300 (State.initial .scx 0)

/-- One run served by the earliest deadline. -/
theorem served_meets_deadlines_edf : validate edfEnd.output = .ok ⟨0, 0⟩ := by
  have hserved : Steps.Along step Served (State.initial .scx 0)
      (script earliest 300 (State.initial .scx 0)) := by decide +kernel
  have hjoined : ∀ t, (edfEnd.worker t).pc = .ended := by decide +kernel
  exact (served_meets_deadlines hserved (exec_script ..)).2 hjoined

end Runs

end ScxSlam.EdfWorkload
