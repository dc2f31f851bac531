import ScxSlam.ExecutionTrace.Partition
import ScxSlam.ExecutionTrace.Record

/-!
# ScxSlam.ExecutionTrace.Parsed

What a log says that `parse_execution` has accepted: every line that starts
with `[execution] ` holds an admissible record, there is one line of counters,
and it counts the records.

The events come out in the order of their timestamps, which is what
`analyze_execution` rests on.
-/

namespace ScxSlam.ExecutionTrace

open Python (Text Dict)
open Raise (require bind_eq_ok require_eq_ok pure_eq_ok)

/-! ## admissible records -/

/-- The labels of a system call. -/
def Record.call (r : Record) : Option Syscall := syscallLabels.lookup r.syscall

/-- What `check` asks of a record. -/
structure Record.Admissible (r : Record) (metrics : Metrics) (cpu : Int) : Prop where
  nonnegative : ∀ i ∈ r.ints, 0 ≤ i
  kind : 1 ≤ r.kind ∧ r.kind ≤ 4
  runnable : r.runnable = 0 ∨ r.runnable = 1
  preempt : r.preempt = 0 ∨ r.preempt = 1
  syscall : r.call.isSome = true
  /-- The identity is the IMU thread's, or is still unknown outside of the window. -/
  identity : r.urgentKey = metrics.imu ∨
    r.urgentKey = 0 ∧ (r.tsNs < metrics.measurement.startNs ∨ metrics.measurement.endNs ≤ r.tsNs)
  /-- Only a wakeup comes from another CPU. -/
  pinned : r.kind ≠ 2 → r.cpu = cpu
  /-- The thread that is switched out stays runnable if it is preempted or does not block. -/
  switch : r.kind = 1 → (r.runnable = 1 ↔ r.preempt = 1 ∨ r.prevState = 0)
  owner : r.kind ≠ 1 → r.task.key = metrics.imu
  policy : metrics.measurement.startNs ≤ r.tsNs → r.tsNs < metrics.measurement.endNs →
    ∀ t ∈ [r.task, r.next], t.key = metrics.imu → t.policy = 7 ∧ t.stage = 0

/-- The event of an admissible record. -/
def Record.recorded (r : Record) (metrics : Metrics) : Recorded where
  event := {
    kind := (kindOf r.kind).getD .switch
    tsNs := r.tsNs
    phase := phase r.tsNs metrics.measurement
    runnable := r.runnable = 1
    preempt := r.preempt = 1
    prevState := r.prevState
    syscall := r.call.getD .none
    task := r.task.task
    next := r.next.task }
  urgentKey := r.urgentKey
  cpu := r.cpu
  callbackDeltaNs := r.callbackDeltaNs
  syscallId := r.syscallId
  relativeNs := r.tsNs - metrics.measurement.startNs
  taskCommHex := r.task.commHex
  nextCommHex := r.next.commHex

section Check

variable {r : Record} {metrics : Metrics} {cpu : Int} {e : Recorded}

/-- A needed value is one that is there. -/
@[simp] theorem need_eq_ok {α : Type} {value : Option α} {e : Invalid} {a : α} :
    need value e = .ok a ↔ value = some a := by
  cases value <;> simp [need]

/-- Between start and end is the window. -/
theorem phase_eq_window {t : Int} {timing : Timing} (h : timing.startNs ≤ t)
    (h' : t < timing.endNs) :
    phase t timing = .window := by
  rw [phase, if_neg (by omega), if_pos h']

/-- The window lies between start and end. -/
theorem window_of_phase {t : Int} {timing : Timing} (h : phase t timing = .window) :
    timing.startNs ≤ t ∧ t < timing.endNs := by
  unfold phase at h
  split at h
  · contradiction
  · split at h
    · omega
    · contradiction

/-- A flag is written as zero or one. -/
theorem flag_eq_some {i : Int} {b : Bool} :
    flag i = some b ↔ (i = 0 ∨ i = 1) ∧ b = decide (i = 1) := by
  unfold flag
  split
  · next h =>
    subst h
    cases b <;> simp
  · next h =>
    split
    · next h' =>
      subst h'
      cases b <;> simp
    · next h' => simp [h, h']

/-- The codes of a kind, and those of the two that are told apart. -/
theorem kindOf_eq_some {i : Int} {k : Kind} (h : kindOf i = some k) :
    (1 ≤ i ∧ i ≤ 4) ∧ (k = .switch ↔ i = 1) ∧ (k = .wakeup ↔ i = 2) := by
  unfold kindOf at h
  repeat' split at h
  all_goals first
    | contradiction
    | cases h; subst_vars; simp

/-- Every code from one to four is a kind. -/
theorem exists_kindOf {i : Int} (h : 1 ≤ i ∧ i ≤ 4) : ∃ k, kindOf i = some k := by
  unfold kindOf
  obtain rfl | rfl | rfl | rfl : i = 1 ∨ i = 2 ∨ i = 3 ∨ i = 4 := by omega
  · exact ⟨_, rfl⟩
  · exact ⟨_, rfl⟩
  · exact ⟨_, rfl⟩
  · exact ⟨_, rfl⟩

/-- A switch belongs to the CPU and names its state, anything else belongs to the
IMU. -/
theorem checkOwner_eq_ok {kind : Kind} {runnable preempt : Bool} {u : Unit} :
    r.checkOwner metrics cpu kind runnable preempt = .ok u ↔
      (kind = .switch → r.cpu = cpu ∧ runnable = (preempt || decide (r.prevState = 0))) ∧
        (kind ≠ .switch → r.task.key = metrics.imu) := by
  unfold Record.checkOwner
  split
  · next h => simp [h, bind_eq_ok]
  · next h => simp [h]

/-- **The check** accepts the admissible records. -/
theorem check_eq_ok : r.check metrics cpu = .ok e ↔
    r.Admissible metrics cpu ∧ e = r.recorded metrics := by
  simp only [Record.check, checkPolicy, bind_eq_ok, require_eq_ok, need_eq_ok, pure_eq_ok,
    checkOwner_eq_ok, flag_eq_some]
  constructor
  · rintro ⟨-, hnonneg, kind, hkind, runnable, ⟨hrunnable, rfl⟩, preempt, ⟨hpreempt, rfl⟩, call,
      hcall, -, ⟨hzero, hwindow⟩, -, ⟨hswitch, howner⟩, -, hpinned, -, htask, -, hnext, rfl⟩
    obtain ⟨hrange, hone, htwo⟩ := kindOf_eq_some hkind
    refine ⟨?_, ?_⟩
    · constructor
      case nonnegative => exact hnonneg
      case kind => exact hrange
      case runnable => exact hrunnable
      case preempt => exact hpreempt
      case syscall => rw [Record.call, hcall]; rfl
      case identity =>
          obtain hzero | hidentity := hzero
          · by_cases hin : metrics.measurement.startNs ≤ r.tsNs ∧ r.tsNs < metrics.measurement.endNs
            · exact .inl (hwindow (phase_eq_window hin.1 hin.2))
            · exact .inr ⟨hzero, by omega⟩
          · exact .inl hidentity
      case pinned =>
          intro hne
          by_cases hk : r.kind = 1
          · exact (hswitch (hone.mpr hk)).1
          · refine hpinned ?_
            cases kind <;> simp_all
      case switch =>
          intro hk
          have hflags := (hswitch (hone.mpr hk)).2
          rwa [← Bool.decide_or, decide_eq_decide] at hflags
      case owner => exact fun hk => howner fun h => hk (hone.mp h)
      case policy =>
          intro hstart hend t ht hkey
          obtain rfl | ht := List.mem_cons.mp ht
          · exact htask ⟨hkey, phase_eq_window hstart hend⟩
          · obtain rfl := List.mem_singleton.mp ht
            exact hnext ⟨hkey, phase_eq_window hstart hend⟩
    · simp [Record.recorded, hkind, Record.call, hcall]
  · rintro ⟨h, rfl⟩
    obtain ⟨kind, hkind⟩ := exists_kindOf h.kind
    obtain ⟨call, hcall⟩ := Option.isSome_iff_exists.mp h.syscall
    obtain ⟨-, hone, htwo⟩ := kindOf_eq_some hkind
    refine ⟨(), h.nonnegative, kind, hkind, _, ⟨h.runnable, rfl⟩, _, ⟨h.preempt, rfl⟩, call, hcall,
      (), ⟨h.identity.symm.imp_left (·.1), fun hw => ?_⟩, (), ⟨fun hk => ⟨?_, ?_⟩, fun hk => ?_⟩,
      (), fun hk => ?_, (), fun ht => ?_, (), fun ht => ?_, ?_⟩
    · obtain hidentity | ⟨-, hout⟩ := h.identity
      · exact hidentity
      · have := window_of_phase hw
        omega
    · exact h.pinned (by have := hone.mp hk; omega)
    · rw [← Bool.decide_or, decide_eq_decide]
      exact h.switch (hone.mp hk)
    · exact h.owner fun h' => hk (hone.mpr h')
    · exact h.pinned fun h' => by simp [htwo.mpr h'] at hk
    · obtain ⟨hstart, hend⟩ := window_of_phase ht.2
      exact h.policy hstart hend r.task (by simp) ht.1
    · obtain ⟨hstart, hend⟩ := window_of_phase ht.2
      exact h.policy hstart hend r.next (by simp) ht.1
    · simp [Record.recorded, hkind, hcall]

instance : Decidable (r.Admissible metrics cpu) :=
  decidable_of_iff ((r.check metrics cpu).toOption.isSome = true) <| by
    rw [Option.isSome_iff_exists]
    simp only [Raise.toOption_eq_some, check_eq_ok, exists_and_left, exists_eq, and_true]

end Check

/-! ## accepted logs -/

section Log

variable {metrics : Metrics} {cpu : Int} {text : Text} {ls : List Text} {log log' : Log}

/-- No line is both a record and the summary. -/
theorem isRecord_not_summary {line : Text} (h : isRecord line = true) : isSummary line = false := by
  cases line with
  | nil => contradiction
  | cons c line =>
      have hc : '[' = c := by
        simp only [isRecord, Fields.startsWith] at h
        exact (List.cons_prefix_cons.mp (List.isPrefixOf_iff_prefix.mp h)).1
      subst hc
      rfl

/-- What the loop has found when it has not raised. -/
theorem foldlM_readLine : ls.foldlM (readLine metrics cpu) log = .ok log' ↔
    (∃ es, List.Forall₂ (fun line e => readEvent metrics cpu line = .ok e) (ls.filter isRecord) es ∧
      log'.events = log.events ++ es) ∧
    (ls.filter isSummary = [] ∧ log'.counters = log.counters ∨
      ∃ line, ls.filter isSummary = [line] ∧ log.counters = none ∧
        log'.counters = some (Dictionary.ofPairs (Scan.numbers line))) := by
  induction ls generalizing log with
  | nil =>
      rw [List.foldlM_nil, pure_eq_ok]
      constructor
      · rintro rfl
        exact ⟨⟨[], .nil, by simp⟩, .inl ⟨rfl, rfl⟩⟩
      · rintro ⟨⟨es, hes, hevents⟩, ⟨-, hcounters⟩ | ⟨line, hline, -⟩⟩
        · cases hes
          rw [List.append_nil] at hevents
          cases log
          cases log'
          simp_all
        · contradiction
  | cons line ls ih =>
      rw [List.foldlM_cons, bind_eq_ok]
      by_cases hsummary : isSummary line = true
      · have hrecord : isRecord line = false :=
          Bool.eq_false_iff.mpr fun h => by simp [isRecord_not_summary h] at hsummary
        rw [List.filter_cons_of_neg (by simp [hrecord]), List.filter_cons_of_pos hsummary]
        simp only [readLine, hsummary, if_true, bind_eq_ok, require_eq_ok, pure_eq_ok]
        constructor
        · rintro ⟨mid, ⟨-, hnone, rfl⟩, hrest⟩
          obtain ⟨hes, ⟨hnil, hcounters⟩ | ⟨-, -, hsome, -⟩⟩ := ih.mp hrest
          · exact ⟨hes, .inr ⟨line, by rw [hnil], hnone, hcounters⟩⟩
          · contradiction
        · rintro ⟨hes, ⟨hnil, -⟩ | ⟨line', hline, hnone, hcounters⟩⟩
          · contradiction
          · obtain ⟨rfl, hnil⟩ := List.cons.inj hline
            exact ⟨_, ⟨(), hnone, rfl⟩, ih.mpr ⟨hes, .inl ⟨hnil, hcounters⟩⟩⟩
      by_cases hrecord : isRecord line = true
      · rw [List.filter_cons_of_pos hrecord, List.filter_cons_of_neg hsummary]
        have hstep : ∀ mid, readLine metrics cpu log line = .ok mid ↔
            ∃ e, readEvent metrics cpu line = .ok e ∧
              { log with events := log.events ++ [e] } = mid := by
          intro mid
          rw [readLine, if_neg hsummary, if_pos hrecord, bind_eq_ok]
          simp only [pure_eq_ok]
        simp only [hstep, List.forall₂_cons_left_iff]
        constructor
        · rintro ⟨mid, ⟨e, he, rfl⟩, hrest⟩
          obtain ⟨⟨es, hes, hevents⟩, hcounters⟩ := ih.mp hrest
          exact ⟨⟨e :: es, ⟨e, es, he, hes, rfl⟩, by simpa using hevents⟩, hcounters⟩
        · rintro ⟨⟨-, ⟨e, es, he, hes, rfl⟩, hevents⟩, hcounters⟩
          exact ⟨_, ⟨e, he, rfl⟩, ih.mpr ⟨⟨es, hes, by simpa using hevents⟩, hcounters⟩⟩
      · rw [List.filter_cons_of_neg hrecord, List.filter_cons_of_neg hsummary, ← ih]
        simp [readLine, hsummary, hrecord]

/-- What a log says that is accepted. -/
structure Accepted (text : Text) (metrics : Metrics) (cpu : Int) (events : List Recorded)
    (counters : Counters) : Prop where
  /-- Every record holds an admissible event, and they come out merged by their timestamps. -/
  records : ∃ es, List.Forall₂ (fun line e => readEvent metrics cpu line = .ok e)
    ((Python.lines text).filter isRecord) es ∧ events = Stable.sort (·.event.tsNs) es
  summary : ∃ line, (Python.lines text).filter isSummary = [line] ∧
    readCounters (Dictionary.ofPairs (Scan.numbers line)) = some counters
  emitted : counters.emitted = ((Python.lines text).filter isRecord).length
  nonempty : events ≠ []

/-- **Acceptance**: `parse_execution` returns what `Accepted` describes, and raises
on any other text. -/
theorem parseExecution_eq_ok {events : List Recorded} {counters : Counters} :
    parseExecution text metrics cpu = .ok (events, counters) ↔
      Accepted text metrics cpu events counters := by
  simp only [parseExecution, bind_eq_ok, need_eq_ok, require_eq_ok, pure_eq_ok, Prod.mk.injEq]
  constructor
  · rintro ⟨log, hlog, counters', hcounters, -, ⟨hemitted, hne⟩, rfl, rfl⟩
    obtain ⟨⟨es, hes, hevents⟩, hsummary⟩ := foldlM_readLine.mp hlog
    rw [List.nil_append] at hevents
    obtain ⟨-, hnone⟩ | ⟨line, hline, -, hsome⟩ := hsummary
    · rw [hnone] at hcounters
      contradiction
    rw [hsome] at hcounters
    constructor
    case records => exact ⟨es, hes, by rw [hevents]⟩
    case summary => exact ⟨line, hline, hcounters⟩
    case emitted => rw [hemitted, hevents, hes.length_eq]
    case nonempty =>
        intro hnil
        exact hne (List.perm_nil.mp (hnil ▸ (Stable.perm_sort _ log.events).symm))
  · rintro ⟨⟨es, hes, rfl⟩, ⟨line, hline, hcounters⟩, hemitted, hne⟩
    refine ⟨⟨es, some (Dictionary.ofPairs (Scan.numbers line))⟩,
      foldlM_readLine.mpr ⟨⟨es, hes, rfl⟩, .inr ⟨line, hline, rfl, rfl⟩⟩, counters, hcounters, (),
      ⟨by rw [hemitted, hes.length_eq], ?_⟩, rfl, rfl⟩
    rintro rfl
    exact hne rfl

end Log

end ScxSlam.ExecutionTrace
