import ScxSlam.EdfWorkload.Report

/-!
# ScxSlam.EdfWorkload.Jobs

What the threads have measured, and that the scripts read it back: behind the
joins every job has a sample that `validate` accepts, whichever way the CPU was
shared.
-/

namespace ScxSlam.EdfWorkload

open Csv (Row number)
open Python (Text)

/-! ## samples -/

/-- The job ran inside its window, for as long as it had to. -/
structure Sample.Sound (epoch now : Nat) (t : Task) (j : Nat) (x : Sample) : Prop where
  release : x.release = epoch + j * period t
  started : x.release ≤ x.start
  worked : work t ≤ x.cpu
  fits : x.start + x.cpu ≤ x.finish
  past : x.finish ≤ now

/-- What a thread knows where it is in the loop. -/
def Worker.Place (epoch now : Nat) (t : Task) (w : Worker) : Prop :=
  match w.pc with
  | .enroll | .barrier | .check => w.job = 0
  | .sleep => True
  | .start | .next => epoch + w.job * period t ≤ now
  | .begin => epoch + w.job * period t ≤ w.start ∧ w.start ≤ now
  | .compute b =>
      epoch + w.job * period t ≤ w.start ∧ w.start ≤ now ∧ b ≤ w.cpu ∧ w.start + w.cpu ≤ now + b
  | .used b =>
      epoch + w.job * period t ≤ w.start ∧ b + work t ≤ w.cpu ∧ w.start + w.cpu ≤ now + b
  | .finish cpu => epoch + w.job * period t ≤ w.start ∧ work t ≤ cpu ∧ w.start + cpu ≤ now
  | .ended => w.job + 1 = count t

/-- The jobs whose end has been read. -/
def Worker.done (w : Worker) : Nat :=
  match w.pc with
  | .next | .ended => w.job + 1
  | _ => w.job

/-- A thread between two steps. -/
structure Worker.Sound (epoch now : Nat) (t : Task) (w : Worker) : Prop where
  job : w.job < count t
  place : w.Place epoch now t
  length : w.samples.length = w.done
  samples : ∀ j x, w.samples[j]? = some x → Sample.Sound epoch now t j x

section Samples

variable {epoch now now' d : Nat} {t : Task} {w : Worker} {j : Nat} {x : Sample}

/-- A sample stays sound. -/
theorem Sample.Sound.mono (h : Sample.Sound epoch now t j x) (hle : now ≤ now') :
    Sample.Sound epoch now' t j x :=
  { h with past := h.past.trans hle }

/-- Time passes, and the thread may have had the CPU for a part of it. -/
theorem Worker.Sound.tick (h : w.Sound epoch now t) {spent : Nat} (hd : d ≤ now' - now)
    (hle : now ≤ now') :
    Worker.Sound epoch now' t { w with cpu := w.cpu + d, spent := spent } := by
  obtain ⟨hjob, hplace, hlength, hsamples⟩ := h
  refine ⟨hjob, ?_, hlength, fun j x hx => (hsamples j x hx).mono hle⟩
  unfold Worker.Place at hplace ⊢
  dsimp only at hplace ⊢
  cases hpc : w.pc <;> simp only [hpc] at hplace ⊢ <;> omega

end Samples

/-- Every thread is sound. -/
def Sound (s : State) : Prop := ∀ t, (s.worker t).Sound s.epoch s.now t

section Steps

variable {s s' : State} {t u : Task} {d : Nat} {ran : Option Task}

/-- A move keeps the thread that makes it sound. -/
theorem Moves.worker_sound (hs : Sound s) (h : Moves s t s') :
    (s'.worker t).Sound s.epoch s.now t := by
  have hsound := hs t
  have hplace := hsound.place
  have hlength := hsound.length
  have hjob := hsound.job
  unfold Worker.Place at hplace
  unfold Worker.done at hlength
  cases h
  case late => exact hsound
  case check hpc hearly =>
      simp only [hpc] at hlength
      rw [worker_setWorker_self]
      exact ⟨hjob, trivial, by simpa [Worker.done] using hlength, hsound.samples⟩
  case sleep hpc hdue =>
      simp only [hpc] at hlength
      rw [worker_setWorker_self]
      exact ⟨hjob, hdue, by simpa [Worker.done] using hlength, hsound.samples⟩
  case finish cpu hpc =>
      simp only [hpc] at hplace hlength
      rw [worker_setWorker_self]
      refine ⟨hjob, ?_, by simp [Worker.done, hlength], fun j x hx => ?_⟩
      · simp only [Worker.Place]
        omega
      · rw [List.getElem?_append] at hx
        split at hx
        · exact hsound.samples j x hx
        · next hge =>
          obtain ⟨hj, rfl⟩ := List.getElem?_eq_some_iff.mp hx
          simp only [List.length_singleton] at hj
          have heq : j = (s.worker t).job := by omega
          subst heq
          simp only [List.getElem_singleton]
          exact ⟨rfl, hplace.1, hplace.2.1, hplace.2.2, Nat.le_refl _⟩
  case next hpc hmore =>
      simp only [hpc] at hplace hlength
      rw [worker_setWorker_self]
      exact ⟨hmore, trivial, by simp [Worker.done, hlength], by simpa using hsound.samples⟩
  case last hpc hlast =>
      simp only [hpc] at hplace hlength
      rw [worker_setWorker_self]
      refine ⟨by simpa using hjob, ?_, by simp [Worker.done, hlength],
        by simpa using hsound.samples⟩
      simp only [Worker.Place, clear_job]
      omega
  all_goals
    simp only [‹(s.worker t).pc = _›] at hplace hlength
    rw [worker_setWorker_self]
    refine ⟨by simpa using hjob, ?_, by simpa [Worker.done] using hlength,
      by simpa using hsound.samples⟩
    simp only [Worker.Place, publish_job]
    omega

/-- No step breaks a thread. -/
theorem step_sound : Steps.Preserved step Sound := by
  intro s a s' hs h
  cases a with
  | tick d ran =>
      obtain ⟨rfl, -⟩ := step_tick h
      intro t
      rw [pass_epoch, pass_now]
      by_cases hran : ran = some t
      · rw [hran, pass_worker_self]
        exact (hs t).tick (by omega) (by omega)
      · rw [pass_worker hran]
        exact (hs t).tick (d := 0) (Nat.zero_le _) (by omega)
  | thread t =>
      obtain ⟨-, hmoves⟩ := step_thread h
      obtain ⟨hnow, hepoch, -, hother⟩ := hmoves.frame
      intro u
      rw [hnow, hepoch]
      by_cases hu : u = t
      · subst hu
        exact hmoves.worker_sound hs
      · rw [hother u hu]
        exact hs u

/-- At the epoch both threads wait for their first release. -/
theorem initial_sound (mode : Mode) (now : Nat) : Sound (State.initial mode now) := by
  intro t
  cases t <;>
    exact ⟨by simp [State.initial, State.worker, Both.get, count], rfl, rfl,
      by simp [State.initial, State.worker, Both.get]⟩

end Steps

/-! ## the table, read back -/

/-- What a sample reads as. -/
def Sample.entry (t : Task) (x : Sample) : Entry where
  release := x.release
  start := x.start
  finish := x.finish
  cpu := x.cpu
  deadline := (x.release + period t : Nat)

def State.entries (s : State) (t : Task) : List Entry := (s.worker t).samples.map (Sample.entry t)

/-- The rows of a thread. -/
def State.rows (s : State) (t : Task) : List Row := (s.table t).map (Csv.row columns)

section Table

variable {s : State} {t u : Task} {j : Nat} {x : Sample}

/-- The job of a row counts from one. -/
theorem number_job : number (Csv.row columns (fields t j x)) "job" = .ok ((j : Int) + 1) :=
  Csv.number_decimal (n := j + 1) rfl

/-- A row reads as the sample it was printed from. -/
theorem entry_fields : entry (Csv.row columns (fields t j x)) = .ok (x.entry t) := by
  unfold entry
  rw [Csv.number_decimal (n := x.release) rfl, Csv.number_decimal (n := x.start) rfl,
    Csv.number_decimal (n := x.finish) rfl, Csv.number_decimal (n := x.cpu) rfl,
    Csv.number_decimal (n := x.release + period t) rfl]
  rfl

/-- The task of a row. -/
theorem value_task : Csv.field (Csv.row columns (fields t j x)) "task" = .ok (some (name t)) := rfl

/-- No field needs quotes. -/
theorem plain_fields : ∀ f ∈ fields t j x, Csv.Plain f := by
  have hname : Csv.Plain (name t) := by cases t <;> simp [Csv.Plain, name]
  simp [fields, hname, Csv.plain_decimal]

/-- The rows of both threads are read back in the order of the printing. -/
theorem table_output : Csv.table s.output = .ok (s.rows .a ++ s.rows .b) := by
  have hcolumns : columns ≠ [] ∧ ∀ f ∈ columns, Csv.Plain f := by simp [columns, Csv.Plain]
  have htable : ∀ t, ∀ fs ∈ s.table t, fs ≠ [] ∧ ∀ f ∈ fs, Csv.Plain f := by
    intro t fs hfs
    obtain ⟨j, hj, rfl⟩ := List.mem_mapIdx.mp hfs
    exact ⟨by simp [fields], plain_fields⟩
  unfold Csv.table State.output
  have hlines : ∀ fs ∈ s.table .a ++ s.table .b, fs ≠ [] ∧ ∀ f ∈ fs, Csv.Plain f := fun fs hfs =>
    (List.mem_append.mp hfs).elim (htable .a fs) (htable .b fs)
  rw [Csv.rows_printed hcolumns hlines, List.map_append]
  rfl

/-- A task's rows are those its thread has printed. -/
theorem select_output : Csv.select "task" (name t) (s.rows .a ++ s.rows .b) = .ok (s.rows t) := by
  have hrows : ∀ u, ∀ row ∈ s.rows u, Csv.field row "task" = .ok (some (name u)) := by
    intro u row hrow
    obtain ⟨fs, hfs, rfl⟩ := List.mem_map.mp hrow
    obtain ⟨j, hj, rfl⟩ := List.mem_mapIdx.mp hfs
    exact value_task
  refine (Csv.select_append (Csv.select_of_forall (hrows .a))
    (Csv.select_of_forall (hrows .b))).trans ?_
  cases t <;> simp [name]

/-- The i-th row is printed from the i-th sample. -/
theorem getElem?_rows {i : Nat} {row : Row} (h : (s.rows t)[i]? = some row) :
    ∃ x, (s.worker t).samples[i]? = some x ∧ row = Csv.row columns (fields t i x) := by
  unfold State.rows State.table at h
  rw [List.getElem?_map, List.getElem?_mapIdx, Option.map_map, Option.map_eq_some_iff] at h
  obtain ⟨x, hx, rfl⟩ := h
  exact ⟨x, hx, rfl⟩

/-- A row for each sample. -/
theorem length_rows : (s.rows t).length = (s.worker t).samples.length := by
  simp [State.rows, State.table]

/-- What a sound sample reads as is sound for the scripts. -/
theorem Sample.Sound.entry (h : Sample.Sound s.epoch s.now t j x) :
    Entry.Sound t s.epoch j (x.entry t) := by
  obtain ⟨hrelease, hstart, hwork, hfits, -⟩ := h
  constructor <;> simp only [Sample.entry] <;> push_cast [hrelease] <;> omega

/-- Behind the joins the scripts read back what the threads have measured. -/
theorem Sound.reads (h : Sound s) (hjoined : s.joined) (t : Task) :
    Reads (s.rows .a ++ s.rows .b) t s.epoch (s.rows t) (s.entries t) ∧
      (s.rows t).length = count t := by
  have hlength : (s.rows t).length = count t := by
    have hdone := (h t).length
    have hplace := (h t).place
    unfold Worker.Place at hplace
    unfold Worker.done at hdone
    simp only [hjoined t] at hplace hdone
    rw [length_rows]
    omega
  refine ⟨⟨select_output, ?_, ?_, ?_⟩, hlength⟩
  · refine Raise.mapM_of_getElem? (by simp [hlength]) fun i row n hrow hn => ?_
    obtain ⟨x, hx, rfl⟩ := getElem?_rows hrow
    obtain ⟨hi, rfl⟩ := List.getElem?_eq_some_iff.mp hn
    simp only [List.getElem_map, List.getElem_range]
    exact number_job
  · refine Raise.mapM_of_getElem? (by simp [length_rows, State.entries]) fun i row e hrow he => ?_
    obtain ⟨x, hx, rfl⟩ := getElem?_rows hrow
    unfold State.entries at he
    rw [List.getElem?_map, hx] at he
    cases he
    exact entry_fields
  · intro i e he
    unfold State.entries at he
    rw [List.getElem?_map, Option.map_eq_some_iff] at he
    obtain ⟨x, hx, rfl⟩ := he
    exact ((h t).samples i x hx).entry

end Table

/-! ## runs -/

/-- The states the process can get into. -/
def Reachable (mode : Mode) (s : State) : Prop :=
  ∃ start as, Steps.exec step (State.initial mode start) as = some s

/-- How many jobs of a thread have ended behind their deadlines. -/
def State.missed (s : State) (t : Task) : Nat :=
  (s.worker t).samples.countP fun x => x.release + period t < x.finish

section Report

variable {mode : Mode} {s : State} {t : Task}

/-- Every thread of a reachable state is sound. -/
theorem Reachable.sound (h : Reachable mode s) : Sound s := by
  obtain ⟨start, as, hrun⟩ := h
  exact step_sound.exec (initial_sound mode start) hrun

/-- The scripts count the same jobs late. -/
theorem countP_entries : (s.entries t).countP Entry.late = s.missed t := by
  unfold State.entries State.missed
  rw [List.countP_map]
  refine List.countP_congr fun x _ => ?_
  rw [decide_eq_true_iff]
  exact decide_eq_true_iff.trans Int.ofNat_lt

/-- Behind the joins both scripts take the output, and report what the threads have
measured. -/
theorem Sound.report (h : Sound s) (hjoined : s.joined) :
    validate s.output = .ok ⟨s.missed .a, s.missed .b⟩ ∧
      summarizeTrace s.output = .ok ⟨summaryOf (s.entries .a), summaryOf (s.entries .b)⟩ := by
  obtain ⟨ha, hla⟩ := h.reads hjoined .a
  obtain ⟨hb, hlb⟩ := h.reads hjoined .b
  have hlength : (s.rows .a ++ s.rows .b).length = 24 := by
    rw [List.length_append, hla, hlb]
    rfl
  rw [validate_eq_ok, summarizeTrace_eq_ok, ← countP_entries, ← countP_entries]
  exact ⟨⟨_, _, _, _, _, _, table_output, hlength, ha, hb, rfl⟩,
    ⟨_, _, _, _, _, _, table_output, hlength, ha, hb, rfl⟩⟩

end Report

/-! ## a schedule -/

/-- A thread's next release behind the clock. -/
def State.nextRelease (s : State) (t : Task) : Nat :=
  if s.now < s.epoch then s.epoch else s.release t ((s.now - s.epoch) / period t + 1)

/-- The work a thread still has before it. -/
def State.needs (s : State) (t : Task) : Nat :=
  match (s.worker t).pc with
  | .compute b => work t - ((s.worker t).cpu - b)
  | _ => 0

/-- Threads go on at once where they can; then time passes until a release or the
end of a job, and `first` has the CPU if it can use it. -/
def schedule (first : State → Task) (s : State) : Action :=
  let room := min (s.nextRelease .a) (s.nextRelease .b) - s.now
  match [Task.a, Task.b].find? fun t => (s.threadStep t).isSome with
  | some t => .thread t
  | none => match [first s, .a, .b].find? fun t => !s.blocked t with
    | some t => .tick (min (s.needs t) room) (some t)
    | none => .tick room none

/-- The first `n` actions of that schedule, as far as they are possible. -/
def script (first : State → Task) : Nat → State → List Action
  | 0, _ => []
  | n + 1, s => match step s (schedule first s) with
      | some s' => schedule first s :: script first n s'
      | none => []

/-- Where they lead. -/
def drive (first : State → Task) : Nat → State → State
  | 0, s => s
  | n + 1, s => match step s (schedule first s) with
      | some s' => drive first n s'
      | none => s

/-- Driving the processor is a run. -/
theorem exec_script (first : State → Task) (n : Nat) (s : State) :
    Steps.exec step s (script first n s) = some (drive first n s) := by
  induction n generalizing s with
  | zero => rfl
  | succ n ih =>
      unfold script drive
      cases hs : step s (schedule first s) with
      | none => rfl
      | some s' =>
          dsimp only
          rw [Steps.exec_cons, hs]
          exact ih s'

/-- A run under one FIFO order. -/
def fifoEnd (mode : Mode) (t : Task) : State := drive (fun _ => t) 300 (State.initial mode 0)

/-- The end of the driven run is a reachable state. -/
theorem fifoEnd_reachable (mode : Mode) (t : Task) : Reachable mode (fifoEnd mode t) :=
  ⟨0, _, exec_script ..⟩

/-- Both threads of the driven run have ended. -/
theorem fifoEnd_joined : (fifoEnd .fifoA .a).joined := by
  unfold State.joined
  decide +kernel

/-! ## what is reported -/

section Reported

variable {mode : Mode} {s : State} {t : Task}

/-- **No run is rejected**: whichever way the CPU was shared, behind the joins
both scripts take the table and report what the threads have measured. -/
theorem joined_report (h : Reachable mode s) (hjoined : s.joined) :
    validate s.output = .ok ⟨s.missed .a, s.missed .b⟩ ∧
      summarizeTrace s.output = .ok ⟨summaryOf (s.entries .a), summaryOf (s.entries .b)⟩ ∧
      ∀ t, (s.worker t).samples.length = count t ∧
        ∀ j x, (s.worker t).samples[j]? = some x → Sample.Sound s.epoch s.now t j x := by
  obtain ⟨hvalidate, hsummary⟩ := h.sound.report hjoined
  refine ⟨hvalidate, hsummary, fun t => ⟨?_, (h.sound t).samples⟩⟩
  rw [← length_rows]
  exact (h.sound.reads hjoined t).2

/-- With A on top of it, B misses two of its deadlines. -/
theorem joined_report_fifo : validate (fifoEnd .fifoA .a).output = .ok ⟨0, 2⟩ := by
  obtain ⟨h, -⟩ := joined_report (fifoEnd_reachable .fifoA .a) fifoEnd_joined
  have hmissed : (⟨(fifoEnd .fifoA .a).missed .a, (fifoEnd .fifoA .a).missed .b⟩ : Both Nat) =
      ⟨0, 2⟩ := by decide +kernel
  exact h.trans (congrArg Except.ok hmissed)

/-- **The metrics agree** with each other on every text that is not rejected:
a task's margin and its response make up its period, it has missed a deadline
if its margin is negative, and its CPU time lies between what its jobs had to
use and what their responses leave room for. -/
theorem summarizeTrace_sound {text : Text} {m : Both Summary} (h : summarizeTrace text = .ok m)
    (t : Task) : (m.get t).Sound t := by
  obtain ⟨rows, epoch, ja, jb, ea, eb, -, -, ha, hb, rfl⟩ := summarizeTrace_eq_ok.mp h
  cases t
  · exact ha.summary_sound
  · exact hb.summary_sound

/-- The report of the driven run is sound. -/
theorem summarizeTrace_sound_fifo :
    (summaryOf ((fifoEnd .fifoA .a).entries .b)).Sound .b :=
  summarizeTrace_sound ((fifoEnd_reachable .fifoA .a).sound.report fifoEnd_joined).2 .b

end Reported

end ScxSlam.EdfWorkload
