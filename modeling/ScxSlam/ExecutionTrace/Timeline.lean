import ScxSlam.ExecutionTrace.Roundtrip

/-!
# ScxSlam.ExecutionTrace.Timeline

From the text of a log to the report: `analyze_execution` on what
`parse_execution` makes of any text.

A report that is valid says where the time of the measured window went on the
one CPU that was traced, and leaves nothing of the log out.
-/

namespace ScxSlam.ExecutionTrace

open Python (Text)
open Raise (bind_eq_ok)

/-- What a valid report of a log says. -/
structure Reported (text : Text) (metrics : Metrics) (cpu : Int) (events : List Recorded)
    (counters : Counters) (summary : Summary) : Prop where
  /-- Every record of the text is an event, and none was lost on the way. -/
  complete : events.length = ((Python.lines text).filter isRecord).length ∧
    counters.lost = 0 ∧ counters.identityConflicts = 0
  sorted : events.Pairwise (·.event.tsNs ≤ ·.event.tsNs)
  /-- Switches and callbacks are of one CPU; only a wakeup may come from another. -/
  pinned : ∀ e ∈ events, e.event.kind ≠ .wakeup → e.cpu = cpu
  /-- Wakeups and callbacks are the IMU thread's. -/
  owner : ∀ e ∈ events, e.event.kind ≠ .switch → e.event.task.key = metrics.imu
  /-- Each switch is from the task that the one before it was to. -/
  chain : linked (switches (events.map (·.event))) = true
  /-- In the window the IMU thread has the scheduler's policy and the first stage. -/
  policy : ∀ e ∈ events, e.event.phase = .window → ∀ t ∈ [e.event.task, e.event.next],
    t.key = metrics.imu → t.policy = 7 ∧ t.stage = 0
  partition : IsPartition metrics (events.map (·.event))
    (analyzeExecution (events.map (·.event)) counters metrics).intervals
  /-- The IMU thread is on the CPU exactly where the switches say so. -/
  occupant : ∀ i ∈ (analyzeExecution (events.map (·.event)) counters metrics).intervals,
    i.cpu.key = metrics.imu ↔ i.imuState = .onCpu
  reports : ReportsSwitches metrics (events.map (·.event)) summary
    (analyzeExecution (events.map (·.event)) counters metrics).rows

section Timeline

variable {text line : Text} {metrics : Metrics} {cpu : Int} {events : List Recorded} {e : Recorded}
  {counters : Counters} {summary : Summary}

/-- What is read is a valid record. -/
theorem readEvent_sound (h : readEvent metrics cpu line = .ok e) :
    ∃ r : Record, r.Admissible metrics cpu ∧ e = r.recorded metrics := by
  simp only [readEvent, bind_eq_ok] at h
  obtain ⟨-, -, r, -, hcheck⟩ := h
  exact ⟨r, check_eq_ok.mp hcheck⟩

/-- Every event is of an admissible record. -/
theorem Accepted.admissible (h : Accepted text metrics cpu events counters) (he : e ∈ events) :
    ∃ r : Record, r.Admissible metrics cpu ∧ e = r.recorded metrics := by
  obtain ⟨es, hes, rfl⟩ := h.records
  obtain ⟨line, -, hline⟩ := Raise.exists_of_mem hes.flip (Stable.mem_sort.mp he)
  exact readEvent_sound hline

/-- Events come in the order of their times. -/
theorem Accepted.sorted (h : Accepted text metrics cpu events counters) :
    events.Pairwise (·.event.tsNs ≤ ·.event.tsNs) := by
  obtain ⟨es, -, rfl⟩ := h.records
  exact Stable.pairwise_sort _ es

/-- No record is lost. -/
theorem Accepted.length (h : Accepted text metrics cpu events counters) :
    events.length = ((Python.lines text).filter isRecord).length := by
  obtain ⟨es, hes, rfl⟩ := h.records
  rw [(Stable.perm_sort _ es).length_eq, hes.length_eq]

/-- The checks that a valid analysis has passed first. -/
theorem analyzeExecution_complete {l : List Event}
    (h : (analyzeExecution l counters metrics).summary = .ok summary) :
    (counters.lost = 0 ∧ counters.identityConflicts = 0) ∧ linked (switches l) = true := by
  revert h
  unfold analyzeExecution
  dsimp only
  split
  · nofun
  · next hcounters =>
    split
    · nofun
    · split
      · nofun
      · next hlinked => exact fun _ => ⟨by omega, by simpa using hlinked⟩

/-- **A valid report**, on any text, accounts for all of the window and all of
the log. -/
theorem parsed_timeline (h : parseExecution text metrics cpu = .ok (events, counters))
    (hvalid : (analyzeExecution (events.map (·.event)) counters metrics).summary = .ok summary) :
    Reported text metrics cpu events counters summary := by
  have haccepted := parseExecution_eq_ok.mp h
  have hsorted : (events.map (·.event)).Pairwise (·.tsNs ≤ ·.tsNs) :=
    List.pairwise_map.mpr haccepted.sorted
  obtain ⟨hcounters, hlinked⟩ := analyzeExecution_complete hvalid
  obtain ⟨hbracket, -, hoccupant, hcallback, hintervals, -, -⟩ := analyzeExecution_valid hvalid
  have hwindow := window_of_callbackNs hcallback
  constructor
  case complete => exact ⟨haccepted.length, hcounters⟩
  case sorted => exact haccepted.sorted
  case pinned =>
      intro e he hkind
      obtain ⟨r, hr, rfl⟩ := haccepted.admissible he
      obtain ⟨k, hk⟩ := exists_kindOf hr.kind
      refine hr.pinned fun htwo => hkind ?_
      rw [Record.recorded, hk]
      exact (kindOf_eq_some hk).2.2.mpr htwo
  case owner =>
      intro e he hkind
      obtain ⟨r, hr, rfl⟩ := haccepted.admissible he
      obtain ⟨k, hk⟩ := exists_kindOf hr.kind
      refine hr.owner fun hone => hkind ?_
      rw [Record.recorded, hk]
      exact (kindOf_eq_some hk).2.1.mpr hone
  case chain => exact hlinked
  case policy =>
      intro e he hphase t ht hkey
      obtain ⟨r, hr, rfl⟩ := haccepted.admissible he
      obtain ⟨hstart, hend⟩ := window_of_phase hphase
      obtain rfl | ht := List.mem_cons.mp ht
      · exact hr.policy hstart hend r.task (by simp) hkey
      · obtain rfl := List.mem_singleton.mp ht
        exact hr.policy hstart hend r.next (by simp) hkey
  case partition =>
      rw [hintervals]
      exact isPartition_builtIntervals hsorted hwindow hbracket
  case occupant =>
      rw [hintervals]
      exact hoccupant
  case reports => exact reportsSwitches_of_valid hsorted hwindow hvalid

end Timeline

/-- A log with a wake-up from elsewhere. -/
theorem parsed_timeline_remote : ∃ events counters summary,
    Reported (log (sampleSwitches ++ [sampleWake]) 0 0) sleepMetrics 0 events counters summary := by
  have hparse := (@parse_log (sampleSwitches ++ [sampleWake]) 0 0 sleepMetrics 0 _ _
    (by decide +kernel)).mpr ⟨by decide +kernel, valid_sample, rfl, rfl⟩
  have hsummary : ((analyzeExecution ((Stable.sort (·.event.tsNs)
      ((records (sampleSwitches ++ [sampleWake])).map (·.recorded sleepMetrics))).map (·.event))
      ⟨14, 0, 0⟩ sleepMetrics).summary).toOption.isSome = true := by
    decide +kernel
  obtain ⟨summary, hsummary⟩ := Option.isSome_iff_exists.mp hsummary
  exact ⟨_, _, summary, parsed_timeline hparse (Raise.toOption_eq_some.mp hsummary)⟩

end ScxSlam.ExecutionTrace
