import Mathlib.Data.Fintype.Basic
import ScxSlam.Lib.Csv
import ScxSlam.Lib.Steps
import ScxSlam.Workload.Worker

/-!
# ScxSlam.EdfWorkload.Workload

`edf_workload`: two threads that share one CPU, each with a job in every
period, and the table that `main` prints of them.

Time passes in ticks, and a tick says which thread, if any, has the CPU: its
CPU clock goes on and the other one stands still.  A thread's steps between
its clock readings and its sleeps are the other actions.  The system calls
succeed; one that fails ends the process before it prints.

Times are `uint64_t` and are naturals here: a monotonic clock counts in a
signed word, and no sum of a reading with what is added to it reaches `2^64`.
-/

namespace ScxSlam.EdfWorkload

open Workload (Hint ServiceClass)

/-! ## the task set -/

/-- The index of a thread. -/
inductive Task
  | a
  | b
  deriving DecidableEq, Repr

instance : Fintype Task := ⟨{.a, .b}, fun t => by cases t <;> decide⟩

/-- `period`. -/
def period : Task → Nat
  | .a => 50000000
  | .b => 70000000

/-- `work`. -/
def work : Task → Nat
  | .a => 21000000
  | .b => 29500000

/-- `reservation`. -/
def reservation : Task → Nat
  | .a => 21200000
  | .b => 29700000

/-- `count`. -/
def count : Task → Nat
  | .a => 14
  | .b => 10

/-- `'A' + i`. -/
def name : Task → Python.Text
  | .a => ['A']
  | .b => ['B']

/-- `mode`. -/
inductive Mode
  | ordinary
  | fifoA
  | fifoB
  | deadline
  | scx
  deriving DecidableEq, Repr

/-! ## a thread -/

/-- `struct sample`. -/
structure Sample where
  release : Nat
  start : Nat
  finish : Nat
  cpu : Nat
  deriving DecidableEq, Repr

/-- A write to the thread's hint slot. -/
inductive Write
  | publish (h : Hint)
  | clear
  deriving DecidableEq, Repr

/-- Where a thread is in `worker`. -/
inductive Pc
  /-- before the barrier -/
  | enroll
  | barrier
  /-- the epoch is compared with the clock next -/
  | check
  /-- in `sleep_until` -/
  | sleep
  /-- `s->start` is read next -/
  | start
  /-- `begin` is read next -/
  | begin
  /-- in the compute loop -/
  | compute (begin : Nat)
  /-- `s->cpu` is read next -/
  | used (begin : Nat)
  /-- `s->end` is read next -/
  | finish (cpu : Nat)
  /-- at the end of the loop body -/
  | next
  | ended
  deriving DecidableEq, Repr

/-- A thread: the job its loop is at, the start of that job, its CPU clock, the
samples written and the writes to its hint slot.  `spent` is the CPU time since
it last went to sleep, which nothing reads. -/
structure Worker where
  pc : Pc := .enroll
  job : Nat := 0
  start : Nat := 0
  cpu : Nat := 0
  samples : List Sample := []
  hints : List Write := []
  spent : Nat := 0
  deriving DecidableEq, Repr

/-- One value for each thread. -/
structure Both (α : Type) where
  a : α
  b : α
  deriving DecidableEq, Repr

namespace Both

variable {α : Type}

def get (p : Both α) : Task → α
  | .a => p.a
  | .b => p.b

def set (p : Both α) (t : Task) (v : α) : Both α :=
  match t with
  | .a => { p with a := v }
  | .b => { p with b := v }

/-- What was written is read. -/
@[simp] theorem get_set_self (p : Both α) (t : Task) (v : α) : (p.set t v).get t = v := by
  cases t <;> rfl

/-- The other task's half stays as it is. -/
theorem get_set_of_ne (p : Both α) {t u : Task} (v : α) (h : u ≠ t) :
    (p.set t v).get u = p.get u := by
  cases t <;> cases u <;> first | rfl | contradiction

end Both

/-! ## the process -/

/-- The signed word a clock reading fits in. -/
def clockLimit : Nat := 2 ^ 63

/-- The process; `exited` is behind `fail`. -/
structure State where
  now : Nat
  epoch : Nat
  mode : Mode
  workers : Both Worker
  exited : Bool := false
  deriving DecidableEq, Repr

inductive Action
  /-- time passes, and a thread has the CPU all the while, or none has -/
  | tick (d : Nat) (ran : Option Task)
  /-- a thread takes its next step -/
  | thread (t : Task)
  deriving DecidableEq, Repr

namespace State

variable (s : State) (t : Task)

def worker : Worker := s.workers.get t

def setWorker (w : Worker) : State := { s with workers := s.workers.set t w }

/-- `epoch + j * period[task]`. -/
def release (j : Nat) : Nat := s.epoch + j * period t

/-- What `publish` publishes. -/
def hintOf (j : Nat) : Hint where
  stage := match t with
    | .a => 0
    | .b => 1
  cls := .deadline
  job := j + 1
  release := s.release t j
  deadline := s.release t j + period t
  stale := 0
  budget := 0
  slice := 0
  weight := 0

/-- `publish`. -/
def publish (j : Nat) (w : Worker) : Worker :=
  if s.mode = .scx then { w with hints := w.hints ++ [.publish (s.hintOf t j)] } else w

/-- `freshqos_clear_hint`, where there are hints. -/
def clear (w : Worker) : Worker :=
  if s.mode = .scx then { w with hints := w.hints ++ [.clear] } else w

/-- The thread waits in the barrier, sleeps or has returned. -/
def blocked : Bool :=
  match (s.worker t).pc with
  | .barrier => (s.workers.a.pc = .enroll) || (s.workers.b.pc = .enroll)
  | .sleep => decide (s.now < s.release t (s.worker t).job)
  | .ended => true
  | _ => false

/-- The sample of the job at hand, its end being read. -/
def sample (cpu : Nat) : Sample where
  release := s.release t (s.worker t).job
  start := (s.worker t).start
  finish := s.now
  cpu := cpu

/-- A thread's next step; `none` while it is blocked, or computing. -/
def threadStep : Option State :=
  let w := s.worker t
  if s.blocked t then none
  else match w.pc with
    | .enroll => some (s.setWorker t { s.publish t 0 w with pc := .barrier })
    | .barrier => some (s.setWorker t { w with pc := .check })
    | .check =>
        if s.epoch ≤ s.now then some { s with exited := true }
        else some (s.setWorker t { w with pc := .sleep, spent := 0 })
    | .sleep => some (s.setWorker t { w with pc := .start })
    | .start => some (s.setWorker t { w with pc := .begin, start := s.now })
    | .begin => some (s.setWorker t { w with pc := .compute w.cpu })
    | .compute begin =>
        if work t ≤ w.cpu - begin then some (s.setWorker t { w with pc := .used begin }) else none
    | .used begin => some (s.setWorker t { w with pc := .finish (w.cpu - begin) })
    | .finish cpu =>
        some (s.setWorker t { w with pc := .next, samples := w.samples ++ [s.sample t cpu] })
    | .next =>
        if w.job + 1 < count t then
          some (s.setWorker t
            { s.publish t (w.job + 1) w with pc := .sleep, job := w.job + 1, spent := 0 })
        else some (s.setWorker t { s.clear w with pc := .ended })
    | .ended => none

/-- A thread has had the CPU for `d`. -/
def charge (d : Nat) : State :=
  s.setWorker t { s.worker t with cpu := (s.worker t).cpu + d, spent := (s.worker t).spent + d }

/-- Time has passed. -/
def pass (d : Nat) (ran : Option Task) : State :=
  let s := match ran with
    | some t => s.charge t d
    | none => s
  { s with now := s.now + d }

end State

/-- One step; `none` where the action is not possible. -/
def step (s : State) : Action → Option State
  | .tick d ran =>
      if s.now + d < clockLimit ∧ ran.all (fun t => !s.blocked t) then some (s.pass d ran) else none
  | .thread t => if s.exited then none else s.threadStep t

/-- `main` behind `pthread_create`, with a clock that read `now` for the epoch. -/
def State.initial (mode : Mode) (now : Nat) : State where
  now := now
  epoch := now + 500000000
  mode := mode
  workers := ⟨{}, {}⟩

/-- What `main` waits for. -/
def State.joined (s : State) : Prop := ∀ t, (s.worker t).pc = .ended

/-! ## the table -/

/-- The names of the columns. -/
def columns : List Python.Text :=
  ["task".toList, "job".toList, "release_ns".toList, "start_ns".toList, "end_ns".toList,
    "cpu_ns".toList, "deadline_ns".toList]

/-- The fields of a job's line. -/
def fields (t : Task) (j : Nat) (s : Sample) : List Python.Text :=
  [name t, Extract.decimal (j + 1), Extract.decimal s.release, Extract.decimal s.start,
    Extract.decimal s.finish, Extract.decimal s.cpu, Extract.decimal (s.release + period t)]

/-- The lines of a thread. -/
def State.table (s : State) (t : Task) : List (List Python.Text) :=
  (s.worker t).samples.mapIdx (fields t)

/-- What `main` prints. -/
def State.output (s : State) : Python.Text :=
  Csv.printed (columns :: (s.table .a ++ s.table .b))

/-! ## runs -/

section Runs

variable {s s' : State} {t u : Task} {d : Nat} {ran : Option Task} {w : Worker}

@[simp] theorem worker_setWorker_self : (s.setWorker t w).worker t = w :=
  Both.get_set_self ..

/-- A step of one thread leaves the other one alone. -/
theorem worker_setWorker_of_ne (h : u ≠ t) : (s.setWorker t w).worker u = s.worker u :=
  Both.get_set_of_ne _ _ h

/-- A tick moves the clocks. -/
theorem pass_worker (h : ran ≠ some t) : (s.pass d ran).worker t = s.worker t := by
  cases ran with
  | none => rfl
  | some u => exact worker_setWorker_of_ne fun htu => h (htu ▸ rfl)

/-- The CPU clock of the thread that ran goes on with the time. -/
theorem pass_worker_self : (s.pass d (some t)).worker t =
    { s.worker t with cpu := (s.worker t).cpu + d, spent := (s.worker t).spent + d } :=
  Both.get_set_self ..

@[simp] theorem pass_now : (s.pass d ran).now = s.now + d := by
  cases ran <;> rfl

@[simp] theorem pass_epoch : (s.pass d ran).epoch = s.epoch := by
  cases ran <;> rfl

@[simp] theorem pass_mode : (s.pass d ran).mode = s.mode := by
  cases ran <;> rfl

@[simp] theorem pass_exited : (s.pass d ran).exited = s.exited := by
  cases ran <;> rfl

/-- **Inversion** for the time: only a thread that can run has the CPU. -/
theorem step_tick (h : step s (.tick d ran) = some s') :
    s' = s.pass d ran ∧ ∀ t, ran = some t → s.blocked t = false := by
  rw [step] at h
  split at h
  · next hok =>
    cases h
    refine ⟨rfl, ?_⟩
    rintro t rfl
    simpa using hok.2
  · cases h

/-- What a thread's step can be. -/
inductive Moves (s : State) (t : Task) : State → Prop
  | enroll (hpc : (s.worker t).pc = .enroll) :
      Moves s t (s.setWorker t { s.publish t 0 (s.worker t) with pc := .barrier })
  | barrier (hpc : (s.worker t).pc = .barrier) :
      Moves s t (s.setWorker t { s.worker t with pc := .check })
  | late (hpc : (s.worker t).pc = .check) (hlate : s.epoch ≤ s.now) :
      Moves s t { s with exited := true }
  | check (hpc : (s.worker t).pc = .check) (hearly : s.now < s.epoch) :
      Moves s t (s.setWorker t { s.worker t with pc := .sleep, spent := 0 })
  | sleep (hpc : (s.worker t).pc = .sleep) (hdue : s.release t (s.worker t).job ≤ s.now) :
      Moves s t (s.setWorker t { s.worker t with pc := .start })
  | start (hpc : (s.worker t).pc = .start) :
      Moves s t (s.setWorker t { s.worker t with pc := .begin, start := s.now })
  | begin (hpc : (s.worker t).pc = .begin) :
      Moves s t (s.setWorker t { s.worker t with pc := .compute (s.worker t).cpu })
  | compute (b : Nat) (hpc : (s.worker t).pc = .compute b)
      (hwork : work t ≤ (s.worker t).cpu - b) :
      Moves s t (s.setWorker t { s.worker t with pc := .used b })
  | used (b : Nat) (hpc : (s.worker t).pc = .used b) :
      Moves s t (s.setWorker t { s.worker t with pc := .finish ((s.worker t).cpu - b) })
  | finish (cpu : Nat) (hpc : (s.worker t).pc = .finish cpu) :
      Moves s t (s.setWorker t { s.worker t with
        pc := .next, samples := (s.worker t).samples ++ [s.sample t cpu] })
  | next (hpc : (s.worker t).pc = .next) (hmore : (s.worker t).job + 1 < count t) :
      Moves s t (s.setWorker t { s.publish t ((s.worker t).job + 1) (s.worker t) with
        pc := .sleep, job := (s.worker t).job + 1, spent := 0 })
  | last (hpc : (s.worker t).pc = .next) (hlast : ¬(s.worker t).job + 1 < count t) :
      Moves s t (s.setWorker t { s.clear (s.worker t) with pc := .ended })

/-- **Inversion** for the threads: a step of a thread is one of its moves. -/
theorem step_thread (h : step s (.thread t) = some s') : s.exited = false ∧ Moves s t s' := by
  rw [step] at h
  split at h
  · cases h
  · next hexited =>
    refine ⟨by simpa using hexited, ?_⟩
    unfold State.threadStep at h
    dsimp only at h
    split at h
    · cases h
    · next hblocked =>
      split at h
      case h_1 hpc =>
          cases h
          exact .enroll hpc
      case h_2 hpc =>
          cases h
          exact .barrier hpc
      case h_3 hpc =>
          split at h
          · next hlate =>
            cases h
            exact .late hpc hlate
          · next hearly =>
            cases h
            exact .check hpc (Nat.lt_of_not_le hearly)
      case h_4 hpc =>
          cases h
          refine .sleep hpc ?_
          simpa [State.blocked, hpc] using hblocked
      case h_5 hpc =>
          cases h
          exact .start hpc
      case h_6 hpc =>
          cases h
          exact .begin hpc
      case h_7 b hpc =>
          split at h
          · next hwork =>
            cases h
            exact .compute b hpc hwork
          · cases h
      case h_8 b hpc =>
          cases h
          exact .used b hpc
      case h_9 cpu hpc =>
          cases h
          exact .finish cpu hpc
      case h_10 hpc =>
          split at h
          · next hmore =>
            cases h
            exact .next hpc hmore
          · next hlast =>
            cases h
            exact .last hpc hlast
      case h_11 hpc => cases h

/-- A thread's step touches nothing else. -/
theorem Moves.frame (h : Moves s t s') : s'.now = s.now ∧ s'.epoch = s.epoch ∧ s'.mode = s.mode ∧
    ∀ u, u ≠ t → s'.worker u = s.worker u := by
  cases h <;> exact ⟨rfl, rfl, rfl, fun u hu => by first | rfl | exact worker_setWorker_of_ne hu⟩

/-- Publishing a hint writes the slot and nothing else of the thread. -/
@[simp] theorem publish_pc (j : Nat) : (s.publish t j w).pc = w.pc := by
  unfold State.publish
  split <;> rfl

@[simp] theorem publish_job (j : Nat) : (s.publish t j w).job = w.job := by
  unfold State.publish
  split <;> rfl

@[simp] theorem publish_start (j : Nat) : (s.publish t j w).start = w.start := by
  unfold State.publish
  split <;> rfl

@[simp] theorem publish_cpu (j : Nat) : (s.publish t j w).cpu = w.cpu := by
  unfold State.publish
  split <;> rfl

@[simp] theorem publish_samples (j : Nat) : (s.publish t j w).samples = w.samples := by
  unfold State.publish
  split <;> rfl

@[simp] theorem publish_spent (j : Nat) : (s.publish t j w).spent = w.spent := by
  unfold State.publish
  split <;> rfl

/-- Clearing the hint writes the slot and nothing else of the thread. -/
@[simp] theorem clear_job : (s.clear w).job = w.job := by
  unfold State.clear
  split <;> rfl

@[simp] theorem clear_cpu : (s.clear w).cpu = w.cpu := by
  unfold State.clear
  split <;> rfl

@[simp] theorem clear_spent : (s.clear w).spent = w.spent := by
  unfold State.clear
  split <;> rfl

@[simp] theorem clear_samples : (s.clear w).samples = w.samples := by
  unfold State.clear
  split <;> rfl

end Runs

end ScxSlam.EdfWorkload
