import ScxSlam.EdfWorkload.Deadline
import ScxSlam.Lib.Periodic

/-!
# ScxSlam.EdfWorkload.Priority

The workload under fixed priorities.  Neither order of the two threads meets
all deadlines, however the rest of a run goes: in a window that begins with a
release of the second thread, the first one takes its share before anything is
left for the other.
-/

namespace ScxSlam.EdfWorkload

open Periodic (taken)

/-! ## priorities -/

/-- `param.sched_priority`. -/
def priority : Mode → Task → Nat
  | .fifoA, .a | .fifoB, .b => 60
  | .fifoA, .b | .fifoB, .a => 50
  | _, _ => 0

/-- The thread's policy is set, and not yet set back. -/
def Worker.enrolled (w : Worker) : Bool :=
  match w.pc with
  | .enroll | .ended => false
  | _ => true

def State.priority (s : State) (t : Task) : Nat :=
  if (s.worker t).enrolled then EdfWorkload.priority s.mode t else 0

/-- The CPU goes to a thread that can use it and has the highest priority. -/
def State.ByPriority (s : State) : Option Task → Prop
  | some t => ∀ u, s.blocked u = false → s.priority u ≤ s.priority t
  | none => ∀ u, s.blocked u = true

/-- From the epoch on the threads are served by priority. -/
def Preemptive (s : State) : Action → Prop
  | .tick d ran => s.Quiet d ∧ (s.epoch ≤ s.now → s.ByPriority ran)
  | .thread _ => True

instance (s : State) (ran : Option Task) : Decidable (s.ByPriority ran) :=
  match ran with
  | some t => inferInstanceAs (Decidable (∀ u, s.blocked u = false → s.priority u ≤ s.priority t))
  | none => inferInstanceAs (Decidable (∀ u, s.blocked u = true))

instance (s : State) (a : Action) : Decidable (Preemptive s a) :=
  match a with
  | .tick d ran => inferInstanceAs (Decidable
      ((∀ t, ∀ j < count t, s.release t j ≤ s.now ∨ s.now + d ≤ s.release t j) ∧
        (s.epoch ≤ s.now → s.ByPriority ran)))
  | .thread _ => inferInstanceAs (Decidable True)

/-- A thread in its loop has its priority. -/
theorem enrolled_of_started {w : Worker} (hstarted : w.started) (hended : w.pc ≠ .ended) :
    w.enrolled := by
  unfold Worker.started at hstarted
  unfold Worker.enrolled
  cases hpc : w.pc <;> simp_all

/-- So has each thread in its loop that can use the CPU. -/
theorem enrolled_of_unblocked {s : State} {t : Task} (hstarted : (s.worker t).started)
    (hb : s.blocked t = false) : (s.worker t).enrolled := by
  refine enrolled_of_started hstarted fun hpc => ?_
  rw [State.blocked, hpc] at hb
  contradiction

/-- The first thread runs whenever it can. -/
theorem eq_of_byPriority {s : State} {hi lo : Task} {ran : Option Task}
    (horder : EdfWorkload.priority s.mode lo < EdfWorkload.priority s.mode hi)
    (hb : s.blocked hi = false) (henrolled : (s.worker hi).enrolled) (h : s.ByPriority ran) :
    ran = some hi := by
  cases ran with
  | none =>
      rw [h hi] at hb
      contradiction
  | some t =>
      by_cases ht : t = hi
      · rw [ht]
      · have hlo : t = lo := by
          have hne : lo ≠ hi := fun h => by simp [h] at horder
          revert ht hne
          cases t <;> cases lo <;> cases hi <;> simp
        have hle := h hi hb
        unfold State.priority at hle
        rw [if_pos henrolled, hlo] at hle
        split at hle <;> omega

/-! ## windows -/

/-- Both threads are through then. -/
def State.horizon (s : State) : Nat := s.epoch + 700000000

/-- The horizon is the release that follows a thread's last one. -/
theorem horizon_eq (s : State) (t : Task) : s.horizon = s.release t (count t) := by
  cases t <;> rfl

/-- What a thread has used since its CPU clock read `c`, when its job `k` had
not begun. -/
def Worker.Since (t : Task) (k c : Nat) (w : Worker) : Prop :=
  c ≤ w.cpu ∧
  match w.pc with
  | .compute b | .used b => k ≤ w.job → c + (w.job - k) * work t ≤ b
  | .finish _ | .next | .ended => c + (w.job + 1 - k) * work t ≤ w.cpu
  | _ => c + (w.job - k) * work t ≤ w.cpu

/-- The window that begins with the release of the job `m` of `lo`; the job `k`
of `hi` is not released before. -/
structure Window (hi lo : Task) (k m chi clo : Nat) (s : State) : Prop where
  high : (s.worker hi).Since hi k chi
  low : (s.worker lo).Since lo m clo
  shared : (s.worker hi).cpu + (s.worker lo).cpu + s.release lo m ≤ chi + clo + s.now
  supplied : s.now ≤ s.horizon →
    chi + taken (period hi) (work hi) (s.now - s.release hi k) ≤ (s.worker hi).cpu
  late : ∀ j x, m ≤ j → (s.worker lo).samples[j]? = some x → x.finish ≤ s.horizon →
    (j + 1 - m) * work lo + taken (period hi) (work hi) (x.finish - s.release hi k) +
      s.release lo m ≤ x.finish

/-- Before the window, or inside or behind it. -/
def Watched (hi lo : Task) (k m : Nat) (s : State) : Prop :=
  s.now < s.release lo m ∨ ∃ chi clo, s.release lo m ≤ s.now ∧ Window hi lo k m chi clo s

section Windows

variable {s s' : State} {t u hi lo : Task} {d k m c chi clo : Nat} {ran : Option Task} {w : Worker}

/-- A job fits its period. -/
theorem work_le_period (t : Task) : work t ≤ period t := by
  cases t <;> decide

/-- No period is empty. -/
theorem period_pos (t : Task) : 0 < period t := by
  cases t <;> decide

/-- Time on the CPU counts. -/
theorem Worker.Since.tick (h : w.Since t k c) (spent : Nat) :
    Worker.Since t k c { w with cpu := w.cpu + d, spent := spent } := by
  obtain ⟨hle, hplace⟩ := h
  refine ⟨by dsimp only; omega, ?_⟩
  dsimp only
  cases hpc : w.pc <;> simp only [hpc] at hplace ⊢ <;> first | exact hplace | omega

/-- Time on the CPU counts, and other time does not matter. -/
theorem since_pass (h : (s.worker t).Since t k c) : ((s.pass d ran).worker t).Since t k c := by
  by_cases hran : ran = some t
  · subst hran
    rw [pass_worker_self]
    exact h.tick _
  · rwa [pass_worker hran]

/-- A move brings the thread on as far as its CPU time allows. -/
theorem Moves.since (hs : Sound s) (h : Moves s t s') (hw : (s.worker t).Since t k c) :
    (s'.worker t).Since t k c := by
  obtain ⟨hle, hplace⟩ := hw
  have hsound := (hs t).place
  unfold Worker.Place at hsound
  cases h
  case late => exact ⟨hle, hplace⟩
  case used b hpc =>
      simp only [hpc] at hplace hsound
      rw [worker_setWorker_self]
      refine ⟨hle, ?_⟩
      dsimp only
      by_cases hk : k ≤ (s.worker t).job
      · have := hplace hk
        rw [Nat.sub_add_comm hk, Nat.add_mul, Nat.one_mul]
        omega
      · rw [Nat.sub_eq_zero_of_le (by omega), Nat.zero_mul]
        exact hle
  all_goals
    simp only [‹(s.worker t).pc = _›] at hplace hsound
    rw [worker_setWorker_self]
    refine ⟨by simpa using hle, ?_⟩
    first
      | exact fun _ => hplace
      | simpa using hplace

/-- Before a job is released its thread has not come to it. -/
theorem Sound.since (hs : Sound s) (hk : s.now < s.release t k) (hpc : w.pc = (s.worker t).pc)
    (hjob : w.job = (s.worker t).job) : w.Since t k w.cpu := by
  have hplace := (hs t).place
  have hlength := (hs t).length
  have hsamples := (hs t).samples
  unfold Worker.Place at hplace
  unfold Worker.done at hlength
  have hdone : (s.worker t).samples.length ≤ k := by
    by_contra hlt
    have hget : k < (s.worker t).samples.length := by omega
    obtain ⟨hrelease, hstart, -, hfits, hpast⟩ := hsamples k _ (List.getElem?_eq_getElem hget)
    unfold State.release at hk
    omega
  have hlater : ∀ j, k ≤ j → s.epoch + k * period t ≤ s.epoch + j * period t := by
    intro j hj
    have := Nat.mul_le_mul_right (period t) hj
    omega
  unfold State.release at hk
  refine ⟨Nat.le_refl _, ?_⟩
  rw [hpc, hjob]
  cases hpc' : (s.worker t).pc <;> simp only [hpc'] at hplace hlength ⊢
  case compute b | used b =>
      intro hle
      have := hlater _ hle
      omega
  case finish cpu | next | ended =>
      have hlt : (s.worker t).job + 1 ≤ k := by
        by_contra hge
        have := hlater (s.worker t).job (by omega)
        omega
      rw [Nat.sub_eq_zero_of_le hlt]
      omega
  all_goals
    rw [Nat.sub_eq_zero_of_le (by omega)]
    omega

/-- A thread that is through with the jobs before `j` has got its share up to
the release of `j`. -/
theorem taken_le_of_done {j x cpu : Nat} (hx : x ≤ s.release t j)
    (hdone : c + (j - k) * work t ≤ cpu) :
    c + taken (period t) (work t) (x - s.release t k) ≤ cpu := by
  have hle : x - s.release t k ≤ (j - k) * period t := by
    unfold State.release at hx ⊢
    rw [Nat.sub_mul]
    omega
  have := Periodic.taken_le_mul (C := work t) (period_pos t) (work_le_period t) hle
  omega

/-- The CPU clock does not go back. -/
theorem cpu_le_pass : (s.worker t).cpu ≤ ((s.pass d ran).worker t).cpu := by
  by_cases hran : ran = some t
  · subst hran
    rw [pass_worker_self]
    exact Nat.le_add_right _ _
  · rw [pass_worker hran]

/-- The first thread gets its share of a tick. -/
theorem Window.supplied_pass (hw : Window hi lo k m chi clo s) (hs : Sound s)
    (horder : EdfWorkload.priority s.mode lo < EdfWorkload.priority s.mode hi)
    (hpast : s.epoch ≤ s.now) (hstarted : (s.worker hi).started)
    (hpre : Preemptive s (.tick d ran)) (hhor : s.now + d ≤ s.horizon) :
    chi + taken (period hi) (work hi) (s.now + d - s.release hi k) ≤
      ((s.pass d ran).worker hi).cpu := by
  obtain ⟨hquiet, hrule⟩ := hpre
  have hsince := hw.high.2
  have hplace := (hs hi).place
  unfold Worker.Place at hplace
  by_cases hb : s.blocked hi = true
  · unfold State.blocked at hb
    unfold Worker.started at hstarted
    cases hpc : (s.worker hi).pc <;> simp only [hpc] at hb hplace hsince hstarted <;>
      try contradiction
    case sleep =>
        have hlater := of_decide_eq_true hb
        have hrelease := (hquiet hi _ (hs hi).job).resolve_left (by omega)
        exact (taken_le_of_done hrelease hsince).trans cpu_le_pass
    case ended =>
        -- behind its last job there is nothing left for it to get
        rw [hplace] at hsince
        exact (taken_le_of_done (horizon_eq s hi ▸ hhor) hsince).trans cpu_le_pass
  · have hb : s.blocked hi = false := by simpa using hb
    have hran := eq_of_byPriority horder hb (enrolled_of_unblocked hstarted hb) (hrule hpast)
    subst hran
    have hsupplied := hw.supplied (by omega)
    have hstep := Periodic.taken_le_add (C := work hi) (period_pos hi) (work_le_period hi)
      (show s.now + d - s.release hi k ≤ s.now - s.release hi k + d by omega)
    rw [pass_worker_self]
    dsimp only
    omega

/-- The CPU is one. -/
theorem shared_pass (hne : hi ≠ lo) : ((s.pass d ran).worker hi).cpu +
    ((s.pass d ran).worker lo).cpu ≤ (s.worker hi).cpu + (s.worker lo).cpu + d := by
  by_cases hhi : ran = some hi
  · subst hhi
    rw [pass_worker_self, pass_worker (show some hi ≠ some lo by simpa using hne)]
    dsimp only
    omega
  · rw [pass_worker hhi]
    by_cases hlo : ran = some lo
    · subst hlo
      rw [pass_worker_self]
      dsimp only
      omega
    · rw [pass_worker hlo]
      omega

/-- Time writes no sample. -/
theorem pass_samples : ((s.pass d ran).worker t).samples = (s.worker t).samples := by
  by_cases hran : ran = some t
  · subst hran
    rw [pass_worker_self]
  · rw [pass_worker hran]

/-- Time passes inside the window, and the thread above is served first. -/
theorem Window.pass (hw : Window hi lo k m chi clo s) (hs : Sound s)
    (horder : EdfWorkload.priority s.mode lo < EdfWorkload.priority s.mode hi)
    (hpast : s.epoch ≤ s.now) (hstarted : (s.worker hi).started)
    (hpre : Preemptive s (.tick d ran)) : Window hi lo k m chi clo (s.pass d ran) := by
  have hrelease : ∀ t j, (s.pass d ran).release t j = s.release t j := by
    intro t j
    unfold State.release
    rw [pass_epoch]
  have hhor : (s.pass d ran).horizon = s.horizon := by
    unfold State.horizon
    rw [pass_epoch]
  have hne : hi ≠ lo := fun h => by simp [h] at horder
  constructor
  case high => exact since_pass hw.high
  case low => exact since_pass hw.low
  case shared =>
      have hsum : ((s.pass d ran).worker hi).cpu + ((s.pass d ran).worker lo).cpu ≤
          (s.worker hi).cpu + (s.worker lo).cpu + d := shared_pass hne
      have := hw.shared
      rw [hrelease, pass_now]
      omega
  case supplied =>
      rw [hrelease, pass_now, hhor]
      exact hw.supplied_pass hs horder hpast hstarted hpre
  case late =>
      rw [hrelease, hrelease, hhor, pass_samples]
      exact hw.late

/-- Time passes before the window, inside it or behind it. -/
theorem Watched.pass (hw : Watched hi lo k m s) (hs : Sound s)
    (horder : EdfWorkload.priority s.mode lo < EdfWorkload.priority s.mode hi)
    (hm : m < count lo) (hmk : m * period lo ≤ k * period hi)
    (hstarted : s.epoch ≤ s.now → (s.worker hi).started) (hpre : Preemptive s (.tick d ran)) :
    Watched hi lo k m (s.pass d ran) := by
  have hepoch : s.epoch ≤ s.release lo m := Nat.le_add_right _ _
  have hrelease : ∀ t j, (s.pass d ran).release t j = s.release t j := by
    intro t j
    unfold State.release
    rw [pass_epoch]
  obtain hearly | ⟨chi, clo, hpast, hw⟩ := hw
  · have hquiet := (hpre.1 lo m hm).resolve_left (by omega)
    by_cases hstill : s.now + d < s.release lo m
    · left
      rwa [hrelease, pass_now]
    · -- the window begins, and neither thread has come to its job
      have hfirst : s.now < s.release hi k := by
        unfold State.release at hearly ⊢
        omega
      have hpc : ∀ t, ((s.pass d ran).worker t).pc = (s.worker t).pc ∧
          ((s.pass d ran).worker t).job = (s.worker t).job := by
        intro t
        by_cases hran : ran = some t
        · subst hran
          rw [pass_worker_self]
          exact ⟨rfl, rfl⟩
        · rw [pass_worker hran]
          exact ⟨rfl, rfl⟩
      refine .inr ⟨((s.pass d ran).worker hi).cpu, ((s.pass d ran).worker lo).cpu, ?_, ?_⟩
      · rw [hrelease, pass_now]
        omega
      · constructor
        case high => exact hs.since hfirst (hpc hi).1 (hpc hi).2
        case low => exact hs.since hearly (hpc lo).1 (hpc lo).2
        case shared =>
            rw [hrelease, pass_now]
            omega
        case supplied =>
            intro _
            have hzero : (s.pass d ran).now - (s.pass d ran).release hi k = 0 := by
              rw [hrelease, pass_now]
              unfold State.release at hquiet ⊢
              omega
            rw [hzero, Periodic.taken_zero, Nat.add_zero]
        case late =>
            intro j x hj hx
            rw [pass_samples] at hx
            have hsample := (hs lo).samples j x hx
            obtain ⟨hrel, hstart, -, hfits, hend⟩ := hsample
            have hmul := Nat.mul_le_mul_right (period lo) hj
            unfold State.release at hearly
            omega
  · refine .inr ⟨chi, clo, ?_, hw.pass hs horder (by omega) (hstarted (by omega)) hpre⟩
    rw [hrelease, pass_now]
    omega

/-- A thread's step leaves the window as it is; where it reads the end of a
job of the second thread, that job and the share of the first one have both
fitted into the window. -/
theorem Moves.window (hs : Sound s) (hw : Window hi lo k m chi clo s) (h : Moves s t s') :
    Window hi lo k m chi clo s' := by
  obtain ⟨hnow, hepoch, -, hother⟩ := h.frame
  have hrelease : ∀ u j, s'.release u j = s.release u j := by
    intro u j
    unfold State.release
    rw [hepoch]
  have hhor : s'.horizon = s.horizon := by
    unfold State.horizon
    rw [hepoch]
  have hcpu : ∀ u, (s'.worker u).cpu = (s.worker u).cpu := by
    intro u
    by_cases hu : u = t
    · subst hu
      cases h <;> first | rfl | simp
    · rw [hother u hu]
  have hsince : ∀ u j c, (s.worker u).Since u j c → (s'.worker u).Since u j c := by
    intro u j c hsince
    by_cases hu : u = t
    · subst hu
      exact h.since hs hsince
    · rwa [hother u hu]
  constructor
  case high => exact hsince _ _ _ hw.high
  case low => exact hsince _ _ _ hw.low
  case shared =>
      rw [hcpu, hcpu, hrelease, hnow]
      exact hw.shared
  case supplied =>
      rw [hcpu, hrelease, hnow, hhor]
      exact hw.supplied
  case late =>
      rw [hrelease, hrelease, hhor]
      intro j x hj hx
      by_cases hu : lo = t
      · subst hu
        cases h
        case late => exact hw.late j x hj hx
        case finish cpu hpc =>
            rw [worker_setWorker_self, List.getElem?_append] at hx
            split at hx
            · exact hw.late j x hj hx
            · next hge =>
              have hlow := hw.low.2
              have hlength := (hs lo).length
              unfold Worker.done at hlength
              simp only [hpc] at hlow hlength
              obtain ⟨hlt, rfl⟩ := List.getElem?_eq_some_iff.mp hx
              rw [List.length_singleton] at hlt
              have hjob : j = (s.worker lo).job := by omega
              subst hjob
              rw [List.getElem_singleton]
              intro hend
              have hsupplied := hw.supplied hend
              have hshared := hw.shared
              simp only [State.sample]
              omega
        all_goals
          rw [worker_setWorker_self] at hx
          exact hw.late j x hj (by simpa using hx)
      · rw [hother lo hu] at hx
        exact hw.late j x hj hx

end Windows

/-! ## the second thread -/

/-- A window that ends with the deadline of the job `j` of `lo` has no room for
the jobs of `lo` in it and the share of `hi`. -/
def crowded (hi lo : Task) (j : Nat) : Bool :=
  decide (∃ m < j + 1, ∃ k < count hi, m * period lo ≤ k * period hi ∧
    (j + 1) * period lo < (j + 1 - m) * work lo +
      taken (period hi) (work hi) ((j + 1) * period lo - k * period hi) + m * period lo)

/-- What every run keeps whose threads are served by priority. -/
def Ordered (mode : Mode) (hi lo : Task) (k m : Nat) (s : State) : Prop :=
  Sound s ∧ s.mode = mode ∧ (Late s ∨ Watched hi lo k m s)

section Misses

variable {s s' : State} {t hi lo : Task} {mode : Mode} {j k m start : Nat} {as : List Action}

/-- Every step keeps the watch over a window. -/
theorem step_ordered (horder : priority mode lo < priority mode hi) (hm : m < count lo)
    (hmk : m * period lo ≤ k * period hi) (s : State) (a : Action) (s' : State)
    (ho : Ordered mode hi lo k m s) (hpre : Preemptive s a) (h : step s a = some s') :
    Ordered mode hi lo k m s' := by
  obtain ⟨hs, hmode, hrest⟩ := ho
  refine ⟨step_sound s a s' hs h, ?_⟩
  cases a with
  | tick d ran =>
      obtain ⟨rfl, -⟩ := step_tick h
      refine ⟨pass_mode.trans hmode, ?_⟩
      by_cases hl : Late s
      · exact .inl hl.pass
      · exact .inr ((hrest.resolve_left hl).pass hs (hmode ▸ horder) hm hmk
          (fun hpast => started_of_not_late hl hpast hi) hpre)
  | thread t =>
      obtain ⟨-, hmoves⟩ := step_thread h
      obtain ⟨hnow, hepoch, hmode', -⟩ := hmoves.frame
      have hrelease : s'.release lo m = s.release lo m := by
        unfold State.release
        rw [hepoch]
      refine ⟨hmode'.trans hmode, ?_⟩
      obtain hl | hearly | ⟨chi, clo, hpast, hw⟩ := hrest
      · exact .inl (hmoves.stays_late hl)
      · exact .inr (.inl (by rwa [hrelease, hnow]))
      · exact .inr (.inr ⟨chi, clo, by rwa [hrelease, hnow], hmoves.window hs hw⟩)

/-- At the start no window has begun. -/
theorem initial_ordered : Ordered mode hi lo k m (State.initial mode start) := by
  refine ⟨initial_sound mode start, rfl, .inr (.inl ?_)⟩
  show start < start + 500000000 + m * period lo
  omega

/-- A job ends behind its deadline where it would have to fit into a full window. -/
theorem Watched.miss (hw : Watched hi lo k m s) (hs : Sound s) {x : Sample}
    (hx : (s.worker lo).samples[j]? = some x) (hj : m ≤ j)
    (hfull : (j + 1) * period lo < (j + 1 - m) * work lo +
      taken (period hi) (work hi) ((j + 1) * period lo - k * period hi) + m * period lo) :
    x.release + period lo < x.finish := by
  have hlt : j < count lo := by
    have hlength := (hs lo).length
    have hjob := (hs lo).job
    have := (List.getElem?_eq_some_iff.mp hx).1
    unfold Worker.done at hlength
    split at hlength <;> omega
  obtain ⟨hrelease, hstart, -, hfits, hpast⟩ := (hs lo).samples j x hx
  have hdeadline : x.release + period lo = s.epoch + (j + 1) * period lo := by
    rw [hrelease, Nat.add_mul, Nat.one_mul]
    omega
  obtain hearly | ⟨chi, clo, -, hw⟩ := hw
  · have hmul := Nat.mul_le_mul_right (period lo) hj
    unfold State.release at hearly
    omega
  · by_contra hmet
    have hhor : s.epoch + (j + 1) * period lo ≤ s.horizon := by
      rw [horizon_eq s lo]
      exact Nat.add_le_add_left (Nat.mul_le_mul_right _ hlt) _
    have hfit := hw.late j x hj hx (by omega)
    have hgrow := Periodic.taken_le_add (C := work hi)
      (d := s.epoch + (j + 1) * period lo - x.finish) (period_pos hi) (work_le_period hi)
      (show (j + 1) * period lo - k * period hi ≤ x.finish - s.release hi k +
        (s.epoch + (j + 1) * period lo - x.finish) by unfold State.release; omega)
    have hbegin : s.release lo m = s.epoch + m * period lo := rfl
    omega

/-- Positions that satisfy a condition are positions of elements that do. -/
theorem countP_range_le {α : Type} {l : List α} {p : α → Bool} {q : Nat → Bool}
    (h : ∀ j x, l[j]? = some x → q j → p x) : (List.range l.length).countP q ≤ l.countP p := by
  induction l using List.reverseRecOn with
  | nil => simp
  | append_singleton l x ih =>
      have hinit := ih fun j y hy => h j y (by grind)
      have hlast := h l.length x (by simp)
      have hone : [l.length].countP q ≤ [x].countP p := by
        rw [List.countP_singleton, List.countP_singleton]
        split <;> simp_all
      rw [List.length_append, List.length_singleton, List.range_succ, List.countP_append,
        List.countP_append]
      omega

/-- Every crowded job of the second thread is late. -/
theorem crowded_le_missed (horder : priority mode lo < priority mode hi)
    (hpre : Steps.Along step Preemptive (State.initial mode start) as)
    (hrun : Steps.exec step (State.initial mode start) as = some s) (hjoined : s.joined) :
    (List.range (count lo)).countP (crowded hi lo) ≤ s.missed lo := by
  have hs : Sound s := step_sound.exec (initial_sound mode start) hrun
  have hlength : (s.worker lo).samples.length = count lo := by
    rw [← length_rows]
    exact (hs.reads hjoined lo).2
  rw [← hlength]
  refine countP_range_le fun j x hx hcrowded => ?_
  obtain ⟨m, hm, k, hk, hmk, hfull⟩ := of_decide_eq_true hcrowded
  have hlt := (List.getElem?_eq_some_iff.mp hx).1
  obtain ⟨-, -, hrest⟩ := hpre.exec (step_ordered horder (by omega) hmk) initial_ordered hrun
  have hwatched : Watched hi lo k m s := hrest.resolve_left (not_late_of_joined hjoined)
  exact decide_eq_true (hwatched.miss hs hx (by omega) hfull)

/-- **Neither order will do**: served by priority, the second thread is late at
least twice in every run if it is `B` and six times if it is `A`, and this is
what `validate` counts. -/
theorem fifo_misses (hpre : Steps.Along step Preemptive (State.initial mode start) as)
    (hrun : Steps.exec step (State.initial mode start) as = some s) (hjoined : s.joined) :
    validate s.output = .ok ⟨s.missed .a, s.missed .b⟩ ∧
      (mode = .fifoA → 2 ≤ s.missed .b) ∧ (mode = .fifoB → 6 ≤ s.missed .a) := by
  have hs : Sound s := step_sound.exec (initial_sound mode start) hrun
  refine ⟨(hs.report hjoined).1, ?_, ?_⟩
  · rintro rfl
    have hcount : (List.range (count .b)).countP (crowded .a .b) = 2 := by decide +kernel
    exact hcount ▸ crowded_le_missed (by decide) hpre hrun hjoined
  · rintro rfl
    have hcount : (List.range (count .a)).countP (crowded .b .a) = 6 := by decide +kernel
    exact hcount ▸ crowded_le_missed (by decide) hpre hrun hjoined

/-- With A on top of it, B misses two of its deadlines. -/
theorem fifo_misses_drive : 2 ≤ (fifoEnd .fifoA .a).missed .b := by
  have hpre : Steps.Along step Preemptive (State.initial .fifoA 0)
      (script (fun _ => .a) 300 (State.initial .fifoA 0)) := by decide +kernel
  exact (fifo_misses hpre (exec_script ..) fifoEnd_joined).2.1 rfl

end Misses

/-! ## the first thread -/

/-- The first thread keeps to its reservation, too. -/
def Frugal (hi : Task) (s : State) : Action → Prop
  | .tick d ran => s.epoch ≤ s.now → ran = some hi → (s.worker hi).spent + d ≤ reservation hi
  | .thread _ => True

instance (hi : Task) (s : State) (a : Action) : Decidable (Frugal hi s a) :=
  match a with
  | .tick d ran => inferInstanceAs (Decidable
      (s.epoch ≤ s.now → ran = some hi → (s.worker hi).spent + d ≤ reservation hi))
  | .thread _ => inferInstanceAs (Decidable True)

/-- What it has used since the release of its job is the time since then. -/
structure Prompt (hi : Task) (s : State) : Prop where
  ahead : (s.worker hi).started → (s.worker hi).enrolled →
    s.now ≤ s.release hi (s.worker hi).job + (s.worker hi).spent
  spent : (s.worker hi).started → (s.worker hi).spent ≤ reservation hi
  met : ∀ x ∈ (s.worker hi).samples, x.finish ≤ x.release + reservation hi

section First

variable {s s' : State} {t u hi lo : Task} {d : Nat} {ran : Option Task} {mode : Mode}
  {start : Nat} {as : List Action}

/-- Time passes for the thread on top, or while it is blocked. -/
theorem Prompt.pass (h : Prompt hi s) (hs : Sound s)
    (horder : priority s.mode lo < priority s.mode hi)
    (hran : ∀ t, ran = some t → s.blocked t = false) (hpre : Preemptive s (.tick d ran))
    (hfrugal : Frugal hi s (.tick d ran)) : Prompt hi (s.pass d ran) := by
  obtain ⟨hahead, hspent, hmet⟩ := h
  obtain ⟨hquiet, hrule⟩ := hpre
  have hrelease : ∀ j, (s.pass d ran).release hi j = s.release hi j := by
    intro j
    unfold State.release
    rw [pass_epoch]
  by_cases hhi : ran = some hi
  · subst hhi
    have hpast : (s.worker hi).started → s.epoch ≤ s.now := by
      intro hstarted
      by_contra hearly
      have := hs.blocked_of_early hstarted (by omega)
      rw [hran hi rfl] at this
      contradiction
    constructor
    case ahead =>
        rw [pass_worker_self, pass_now, hrelease]
        intro hstarted henrolled
        have := hahead hstarted henrolled
        dsimp only
        omega
    case spent =>
        rw [pass_worker_self]
        exact fun hstarted => hfrugal (hpast hstarted) rfl
    case met =>
        rw [pass_worker_self]
        exact hmet
  · constructor
    case ahead =>
        rw [pass_worker hhi, pass_now, hrelease]
        intro hstarted henrolled
        -- it sleeps until a release that is still ahead
        have hb : s.blocked hi = true := by
          by_contra hb
          have hb : s.blocked hi = false := by simpa using hb
          by_cases hearly : s.now < s.epoch
          · rw [hs.blocked_of_early hstarted hearly] at hb
            contradiction
          · exact hhi (eq_of_byPriority horder hb henrolled (hrule (by omega)))
        unfold State.blocked at hb
        unfold Worker.started at hstarted
        unfold Worker.enrolled at henrolled
        cases hpc : (s.worker hi).pc <;> simp only [hpc] at hb hstarted henrolled <;>
          try contradiction
        have hlater := of_decide_eq_true hb
        have := (hquiet hi _ (hs hi).job).resolve_left (by omega)
        omega
    case spent =>
        rw [pass_worker hhi]
        exact hspent
    case met =>
        rw [pass_worker hhi]
        exact hmet

/-- A step inside a job. -/
theorem Prompt.congr {w : Worker} (h : Prompt hi s) (hstarted : w.started → (s.worker hi).started)
    (henrolled : w.started → w.enrolled → (s.worker hi).enrolled)
    (hjob : w.job = (s.worker hi).job) (hspent : w.spent = (s.worker hi).spent)
    (hsamples : w.samples = (s.worker hi).samples) :
    Prompt hi (s.setWorker hi w) := by
  constructor <;> rw [worker_setWorker_self]
  case ahead =>
      rw [hjob, hspent]
      exact fun h1 h2 => h.ahead (hstarted h1) (henrolled h1 h2)
  case spent =>
      rw [hspent]
      exact fun h1 => h.spent (hstarted h1)
  case met =>
      rw [hsamples]
      exact h.met

/-- A move leaves the thread on top within its reservation. -/
theorem Moves.prompt (hp : Prompt hi s) (h : Moves s t s') : Prompt hi s' := by
  obtain ⟨hnow, hepoch, -, hother⟩ := h.frame
  have hrelease : ∀ j, s'.release hi j = s.release hi j := by
    intro j
    unfold State.release
    rw [hepoch]
  by_cases ht : hi = t
  · subst ht
    obtain ⟨hahead, hspent, hmet⟩ := hp
    cases h
    case late => exact ⟨hahead, hspent, hmet⟩
    case check hpc hearly =>
        refine ⟨fun _ _ => ?_, fun _ => ?_, ?_⟩ <;> simp only [worker_setWorker_self]
        · show s.now ≤ s.epoch + (s.worker hi).job * period hi + 0
          omega
        · exact Nat.zero_le _
        · exact hmet
    case next hpc hmore =>
        have hstarted : (s.worker hi).started := by simp [Worker.started, hpc]
        have henrolled : (s.worker hi).enrolled := by simp [Worker.enrolled, hpc]
        have hnow := hahead hstarted henrolled
        have hroom : reservation hi ≤ period hi := by cases hi <;> decide
        have := hspent hstarted
        refine ⟨fun _ _ => ?_, fun _ => ?_, ?_⟩ <;> simp only [worker_setWorker_self]
        · show s.now ≤ s.epoch + ((s.worker hi).job + 1) * period hi + 0
          unfold State.release at hnow
          rw [Nat.add_mul, Nat.one_mul]
          omega
        · exact Nat.zero_le _
        · simpa using hmet
    case finish cpu hpc =>
        have hstarted : (s.worker hi).started := by simp [Worker.started, hpc]
        have henrolled : (s.worker hi).enrolled := by simp [Worker.enrolled, hpc]
        have hnow := hahead hstarted henrolled
        have := hspent hstarted
        refine ⟨fun _ _ => ?_, fun _ => ?_, ?_⟩ <;> simp only [worker_setWorker_self]
        · exact hnow
        · exact this
        · intro x hx
          obtain hx | hx := List.mem_append.mp hx
          · exact hmet x hx
          · rw [List.mem_singleton.mp hx]
            simp only [State.sample]
            omega
    all_goals
      refine Prompt.congr ⟨hahead, hspent, hmet⟩ ?_ ?_ ?_ ?_ ?_ <;>
        simp [Worker.started, Worker.enrolled, *]
  · constructor <;> rw [hother hi ht]
    · rw [hnow, hrelease]
      exact hp.ahead
    · exact hp.spent
    · exact hp.met

/-- Nothing has been spent yet. -/
theorem initial_prompt : Prompt hi (State.initial mode start) := by
  constructor <;> cases hi <;> simp [State.initial, State.worker, Both.get, Worker.started]

/-- **The first thread is prompt**: served by priority and inside its
reservation, each of its jobs ends within the reservation of its release, and
in any state of a run the time since the release of the job at hand is within
it, too. -/
theorem first_ends_within_reservation (horder : priority mode lo < priority mode hi)
    (hok : Steps.Along step (fun s a => Preemptive s a ∧ Frugal hi s a)
      (State.initial mode start) as)
    (hrun : Steps.exec step (State.initial mode start) as = some s) :
    (∀ x ∈ (s.worker hi).samples, x.finish ≤ x.release + reservation hi) ∧
      ((s.worker hi).started → (s.worker hi).pc ≠ .ended →
        s.now ≤ s.release hi (s.worker hi).job + reservation hi) := by
  have hkept : Sound s ∧ s.mode = mode ∧ Prompt hi s := by
    refine Steps.Along.exec (P := fun s => Sound s ∧ s.mode = mode ∧ Prompt hi s) hok ?_
      ⟨initial_sound mode start, rfl, initial_prompt⟩ hrun
    rintro s a s' ⟨hs, hmode, hp⟩ ⟨hpre, hfrugal⟩ h
    refine ⟨step_sound s a s' hs h, ?_⟩
    cases a with
    | tick d ran =>
        obtain ⟨rfl, hran⟩ := step_tick h
        exact ⟨pass_mode.trans hmode, hp.pass hs (hmode ▸ horder) hran hpre hfrugal⟩
    | thread t =>
        obtain ⟨-, hmoves⟩ := step_thread h
        exact ⟨hmoves.frame.2.2.1.trans hmode, hmoves.prompt hp⟩
  obtain ⟨-, -, hahead, hspent, hmet⟩ := hkept
  refine ⟨hmet, fun hstarted hended => ?_⟩
  have hnow := hahead hstarted (enrolled_of_started hstarted hended)
  have := hspent hstarted
  omega

/-- With B on top every job of B ends within its reservation. -/
theorem first_ends_within_reservation_drive :
    ((fifoEnd .fifoB .b).worker .b).samples ≠ [] ∧
      ∀ x ∈ ((fifoEnd .fifoB .b).worker .b).samples, x.finish ≤ x.release + 29700000 := by
  have hok : Steps.Along step (fun s a => Preemptive s a ∧ Frugal .b s a) (State.initial .fifoB 0)
      (script (fun _ => .b) 300 (State.initial .fifoB 0)) := by decide +kernel
  have horder : priority .fifoB .a < priority .fifoB .b := by decide
  exact ⟨by decide +kernel, (first_ends_within_reservation horder hok (exec_script ..)).1⟩

end First

end ScxSlam.EdfWorkload
