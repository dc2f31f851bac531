import ScxSlam.ExecutionTrace.Analysis
import Mathlib.Algebra.BigOperators.Group.List.Basic
import Mathlib.Tactic.Ring

/-!
# ScxSlam.ExecutionTrace.Partition

The intervals of the analysis are a partition of the measured window, and
what a valid report says is time between switches.
-/

namespace ScxSlam.ExecutionTrace

open Tiling

/-! ## the state timeline -/

section Timeline

variable {imu lo : Int} {s : Scan} {e : Event} {events : List Event}

@[simp] theorem Scan.states_enter : (s.enter imu e).states = s.states := by
  unfold Scan.enter
  repeat' split
  all_goals rfl

@[simp] theorem Scan.previous_enter : (s.enter imu e).previous = s.previous := by
  unfold Scan.enter
  repeat' split
  all_goals rfl

/-- What one event does: nothing but to the wake flag, or a new span. -/
theorem Scan.step_cases (imu : Int) (s : Scan) (e : Event) :
    s.step imu e = { s with wakeWhileRunning := false } ∨ s.step imu e = s ∨
      s.step imu e = (s.close e.tsNs).enter imu e := by
  unfold Scan.step
  split
  · exact .inl rfl
  · exact .inr (.inl rfl)
  · exact .inr (.inr rfl)

theorem Scan.close_tiles (h : Tiles lo s.states s.previous) (hle : s.previous ≤ e.tsNs) :
    Tiles lo (s.close e.tsNs).states (s.close e.tsNs).previous := by
  unfold Scan.close
  dsimp only
  split
  · exact h.concat hle
  · next hlt =>
    have heq : s.previous = e.tsNs := by omega
    exact heq ▸ h

/-- One event: the spans still tile what was scanned. -/
theorem Scan.step_tiles (h : Tiles lo s.states s.previous) (hle : s.previous ≤ e.tsNs) :
    Tiles lo (s.step imu e).states (s.step imu e).previous ∧ (s.step imu e).previous ≤ e.tsNs := by
  obtain hstep | hstep | hstep := Scan.step_cases imu s e
  · rw [hstep]
    exact ⟨h, hle⟩
  · rw [hstep]
    exact ⟨h, hle⟩
  · rw [hstep, Scan.states_enter, Scan.previous_enter]
    exact ⟨Scan.close_tiles h hle, le_rfl⟩

theorem Scan.foldl_tiles (hsorted : events.Pairwise (·.tsNs ≤ ·.tsNs))
    (h : Tiles lo s.states s.previous) (hle : ∀ e ∈ events, s.previous ≤ e.tsNs) :
    Tiles lo (events.foldl (Scan.step imu) s).states (events.foldl (Scan.step imu) s).previous := by
  induction events generalizing s with
  | nil => exact h
  | cons e events ih =>
      obtain ⟨he, hsorted⟩ := List.pairwise_cons.mp hsorted
      obtain ⟨hstep, hprevious⟩ := Scan.step_tiles h (hle e (List.mem_cons_self ..))
      exact ih hsorted hstep fun e' he' => hprevious.trans (he e' he')

/-- The timeline goes from the first event to the end of the window or later. -/
theorem stateTimeline_tiles {endNs : Int} {l : List Event}
    (hsorted : (e :: l).Pairwise (·.tsNs ≤ ·.tsNs)) :
    ∃ hi, endNs ≤ hi ∧ Tiles e.tsNs (stateTimeline imu endNs (e :: l)) hi := by
  have hle : ∀ e' ∈ e :: l, e.tsNs ≤ e'.tsNs := by
    intro e' he'
    obtain rfl | he' := List.mem_cons.mp he'
    · exact le_rfl
    · exact (List.pairwise_cons.mp hsorted).1 e' he'
  have hscan : Tiles e.tsNs ((e :: l).foldl (Scan.step imu) { previous := e.tsNs }).states
      ((e :: l).foldl (Scan.step imu) { previous := e.tsNs }).previous :=
    Scan.foldl_tiles hsorted rfl hle
  exact ⟨_, le_max_left _ _, hscan.append ⟨rfl, le_max_right _ _, rfl⟩⟩

end Timeline

/-! ## the switch segments -/

/-- The time between two switches. -/
def segment (p : Event × Event) : Span Int Event := ⟨p.1.tsNs, p.2.tsNs, p.1⟩

/-- The measured window. -/
def Timing.window (timing : Timing) : Span Int Unit := ⟨timing.startNs, timing.endNs, ()⟩

/-- The segments inside the window. -/
def segments (timing : Timing) (events : List Event) : List (Span Int (Unit × Event)) :=
  ((pairs (switches events)).map segment).filterMap timing.window.meet

section Segments

variable {timing : Timing} {events : List Event}

theorem segments_tiles {l : List Event} {first last : Event}
    (hsorted : l.Pairwise (·.tsNs ≤ ·.tsNs)) (hfirst : l.head? = some first)
    (hlast : l.getLast? = some last) :
    Tiles first.tsNs ((pairs l).map segment) last.tsNs := by
  induction l generalizing first with
  | nil => contradiction
  | cons a l ih =>
      cases hfirst
      cases l with
      | nil =>
          cases hlast
          rfl
      | cons b l =>
          obtain ⟨hab, hsorted⟩ := List.pairwise_cons.mp hsorted
          have hlast : (b :: l).getLast? = some last := by simpa using hlast
          exact ⟨rfl, hab b (List.mem_cons_self ..), ih hsorted rfl hlast⟩

/-- Switches that bracket the window tile it. -/
theorem segments_window (hsorted : events.Pairwise (·.tsNs ≤ ·.tsNs))
    (hwindow : timing.startNs < timing.endNs)
    (hbracket : brackets timing (switches events) = true) :
    Tiles timing.startNs (segments timing events) timing.endNs := by
  unfold brackets at hbracket
  split at hbracket
  · next first last hfirst hlast =>
    obtain ⟨h1, h2⟩ := of_decide_eq_true hbracket
    have htiles := segments_tiles (hsorted.sublist List.filter_sublist) hfirst hlast
    exact htiles.clip (s := timing.window) hwindow.le h1 h2
  · contradiction

end Segments

/-! ## the sweep -/

/-- The row of a state inside a segment. -/
def Interval.ofMeet (m : Span Int ((Unit × Event) × ImuState × Reason)) : Interval where
  startNs := m.lo
  endNs := m.hi
  durationNs := m.hi - m.lo
  imuState := m.tag.2.1
  blockedSyscall := m.tag.2.2
  cpu := m.tag.1.2.next

theorem row_eq (a : Event) (left right : Int) (s : StateSpan) :
    row a left right s =
      ((⟨left, right, (), a⟩ : Span Int (Unit × Event)).meet s).map Interval.ofMeet := by
  unfold row Span.meet
  dsimp only
  split <;> rfl

/-- The loop over the segments is the sweep. -/
theorem intersect_eq_sweep (timing : Timing) (l : List (Event × Event)) (rest : List StateSpan) :
    intersect timing l rest =
      (sweep ((l.map segment).filterMap timing.window.meet) rest).map Interval.ofMeet := by
  induction l generalizing rest with
  | nil => rfl
  | cons p l ih =>
      obtain ⟨a, b⟩ := p
      rw [intersect, List.map_cons]
      dsimp only
      split
      · next hempty =>
        have hnone : timing.window.meet (segment (a, b)) = none := if_neg hempty.not_gt
        rw [ih, List.filterMap_cons_none hnone]
      · next hlt =>
        have hsome : timing.window.meet (segment (a, b)) =
            some ⟨max timing.startNs a.tsNs, min timing.endNs b.tsNs, (), a⟩ :=
          if_pos (not_le.mp hlt)
        rw [ih, List.filterMap_cons_some hsome, sweep, List.map_append, List.map_filterMap]
        simp only [row_eq]

/-- The rows of the sweep are the states cut by the segments. -/
theorem intersect_eq {metrics : Metrics} {events : List Event}
    (hsegments : (segments metrics.measurement events).Pairwise (fun s s' => s.lo ≤ s'.lo))
    (hstates : (stateTimeline metrics.imu metrics.measurement.endNs events).Pairwise
      (fun s s' => s.lo ≤ s'.lo)) :
    intersect metrics.measurement (pairs (switches events))
        (stateTimeline metrics.imu metrics.measurement.endNs events) =
      ((segments metrics.measurement events).flatMap fun s =>
        (stateTimeline metrics.imu metrics.measurement.endNs events).filterMap s.meet).map
        Interval.ofMeet := by
  rw [intersect_eq_sweep, ← segments, sweep_eq hsegments hstates]

/-! ## totals and occupancy -/

/-- The time of the rows with a property. -/
def duration (p : Interval → Bool) (intervals : List Interval) : Int :=
  ((intervals.filter p).map (·.durationNs)).sum

theorem duration_cons (p : Interval → Bool) (i : Interval) (l : List Interval) :
    duration p (i :: l) = (if p i then i.durationNs else 0) + duration p l := by
  cases h : p i <;> simp [duration, h]

theorem duration_append (p : Interval → Bool) (l l' : List Interval) :
    duration p (l ++ l') = duration p l + duration p l' := by
  simp [duration]

/-- The five states take up all the time. -/
theorem totalsSum_eq (intervals : List Interval) :
    totalsSum intervals = duration (fun _ => true) intervals := by
  induction intervals with
  | nil => rfl
  | cons i l ih =>
      have hcons : ∀ s, total (i :: l) s =
          (if i.imuState = s then i.durationNs else 0) + total l s := by
        intro s
        simpa [duration, total] using duration_cons (·.imuState = s) i l
      rw [duration_cons, ← ih]
      simp only [totalsSum, List.map_cons, List.map_nil, List.sum_cons, List.sum_nil, hcons]
      cases i.imuState <;> simp <;> ring

section Occupancy

variable {table : List (Occupant × Int)} {k : Occupant} {ns : Int}

/-- The time of the entries with a property. -/
def held (p : Occupant → Bool) (table : List (Occupant × Int)) : Int :=
  ((table.filter fun x => p x.1).map (·.2)).sum

theorem held_cons (p : Occupant → Bool) (x : Occupant × Int) :
    held p (x :: table) = (if p x.1 then x.2 else 0) + held p table := by
  cases h : p x.1 <;> simp [held, h]

theorem keys_credit (h : (table.map (·.1)).Nodup) : ((credit table k ns).map (·.1)).Nodup := by
  unfold credit
  split
  · have hkeys : (table.map fun x => if x.1 = k then (x.1, x.2 + ns) else x).map (·.1) =
        table.map (·.1) := by
      rw [List.map_map]
      refine List.map_congr_left fun x _ => ?_
      dsimp only [Function.comp]
      split <;> rfl
    rw [hkeys]
    exact h
  · next hnew =>
    rw [List.map_append, List.nodup_append]
    refine ⟨h, by simp, ?_⟩
    rintro x hx y hy rfl
    obtain ⟨z, hz, rfl⟩ := List.mem_map.mp hx
    refine hnew (List.any_eq_true.mpr ⟨z, hz, ?_⟩)
    simpa using hy

/-- Changing the entry of one key. -/
theorem held_update (p : Occupant → Bool) (h : (table.map (·.1)).Nodup)
    (hmem : k ∈ table.map (·.1)) :
    held p (table.map fun x => if x.1 = k then (x.1, x.2 + ns) else x) =
      held p table + if p k then ns else 0 := by
  induction table with
  | nil => contradiction
  | cons x table ih =>
      obtain ⟨hx, h⟩ := List.nodup_cons.mp h
      rw [List.map_cons, held_cons, held_cons]
      by_cases hk : x.1 = k
      · have hrest : (table.map fun x => if x.1 = k then (x.1, x.2 + ns) else x) = table := by
          refine (List.map_congr_left fun y hy => if_neg fun hyk => hx ?_).trans (List.map_id _)
          exact List.mem_map.mpr ⟨y, hy, hyk.trans hk.symm⟩
        rw [hrest, if_pos hk, hk]
        cases p k
        · simp
        · simp only [if_true]
          ring
      · have hmem : k ∈ table.map (·.1) := by simpa [Ne.symm hk] using hmem
        rw [if_neg hk, ih h hmem]
        ring

theorem held_credit (p : Occupant → Bool) (h : (table.map (·.1)).Nodup) :
    held p (credit table k ns) = held p table + if p k then ns else 0 := by
  unfold credit
  split
  · next hany =>
    obtain ⟨x, hx, hk⟩ := List.any_eq_true.mp hany
    exact held_update p h (List.mem_map.mpr ⟨x, hx, of_decide_eq_true hk⟩)
  · cases hk : p k <;> simp [held, List.filter_append, hk]

/-- The table holds the time of the rows. -/
theorem held_occupancy (p : Occupant → Bool) (intervals : List Interval) :
    held p (occupancy intervals) = duration (fun i => p i.occupant) intervals := by
  have hfold : ∀ (l : List Interval) (table : List (Occupant × Int)), (table.map (·.1)).Nodup →
      held p (l.foldl (fun acc i => credit acc i.occupant i.durationNs) table) =
        held p table + duration (fun i => p i.occupant) l := by
    intro l
    induction l with
    | nil =>
        intro table _
        exact (add_zero _).symm
    | cons i l ih =>
        intro table h
        rw [List.foldl_cons, ih _ (keys_credit h), held_credit p h, duration_cons]
        ring
  have hall := hfold intervals [] .nil
  rwa [show held p [] = 0 from rfl, zero_add] at hall

/-- So do the sorted rows. -/
theorem sum_occupancyRows (p : Occupant → Bool) (timing : Timing) (intervals : List Interval) :
    (((occupancyRows timing intervals).filter (p ·.occupant)).map (·.windowNs)).sum =
      duration (fun i => p i.occupant) intervals := by
  rw [← held_occupancy]
  unfold occupancyRows
  dsimp only
  rw [(((List.mergeSort_perm _ _).filter _).map _).sum_eq, List.filter_map, List.map_map]
  rfl

end Occupancy

/-! ## time between switches -/

section SwitchedIn

variable {metrics : Metrics} {events : List Event}

/-- The clipped time between switches where a task was switched in; the IMU's
states play no part. -/
def switchedInNs (timing : Timing) (events : List Event) (key : Int) : Int :=
  (((pairs (switches events)).filter (·.1.next.key = key)).map fun p =>
    clipped p.1.tsNs p.2.tsNs timing).sum

/-- Only segments that meet the window have clipped time. -/
theorem clipped_eq (timing : Timing) (p : Event × Event) :
    clipped p.1.tsNs p.2.tsNs timing =
      ((timing.window.meet (segment p)).map fun s => s.hi - s.lo).getD 0 := by
  unfold clipped
  by_cases hlt : max timing.startNs p.1.tsNs < min timing.endNs p.2.tsNs
  · have hmeet : timing.window.meet (segment p) =
        some ⟨max timing.startNs p.1.tsNs, min timing.endNs p.2.tsNs, (), p.1⟩ := if_pos hlt
    simp only [hmeet, Option.map_some, Option.getD_some]
    omega
  · have hmeet : timing.window.meet (segment p) = none := if_neg hlt
    simp only [hmeet, Option.map_none, Option.getD_none]
    omega

theorem switchedInNs_eq (timing : Timing) (events : List Event) (key : Int) :
    switchedInNs timing events key =
      (((segments timing events).filter (·.tag.2.next.key = key)).map
        fun s => s.hi - s.lo).sum := by
  unfold switchedInNs segments
  induction pairs (switches events) with
  | nil => rfl
  | cons p l ih =>
      rw [List.map_cons, List.filterMap_cons, List.filter_cons]
      cases hmeet : timing.window.meet (segment p) with
      | none =>
          have hzero : clipped p.1.tsNs p.2.tsNs timing = 0 := by rw [clipped_eq, hmeet]; rfl
          dsimp only
          split
          · rw [List.map_cons, List.sum_cons, hzero, zero_add, ih]
          · exact ih
      | some s =>
          have hlen : clipped p.1.tsNs p.2.tsNs timing = s.hi - s.lo := by
            rw [clipped_eq, hmeet]
            rfl
          have htag : s.tag.2 = p.1 := by rw [(Span.meet_eq_some.mp hmeet).2.2.1]; rfl
          dsimp only
          rw [List.filter_cons, htag]
          split
          · rw [List.map_cons, List.map_cons, List.sum_cons, List.sum_cons, hlen, ih]
          · exact ih

/-- The rows of one segment. -/
theorem duration_segment {s : Span Int (Unit × Event)} {states : List StateSpan}
    (h : Tiles s.lo (states.filterMap s.meet) s.hi) (key : Int) :
    duration (·.cpu.key = key) ((states.filterMap s.meet).map Interval.ofMeet) =
      if s.tag.2.next.key = key then s.hi - s.lo else 0 := by
  have hcpu : ∀ i ∈ (states.filterMap s.meet).map Interval.ofMeet, i.cpu = s.tag.2.next := by
    intro i hi
    obtain ⟨m, hm, rfl⟩ := List.mem_map.mp hi
    obtain ⟨x, -, hx⟩ := List.mem_filterMap.mp hm
    exact congrArg (fun t => t.1.2.next) (Span.meet_eq_some.mp hx).2.2.1
  unfold duration
  split
  · next hkey =>
    rw [List.filter_eq_self.mpr fun i hi => decide_eq_true (hcpu i hi ▸ hkey), List.map_map]
    exact h.sum
  · next hkey =>
    rw [List.filter_eq_nil_iff.mpr fun i hi heq => hkey (hcpu i hi ▸ of_decide_eq_true heq)]
    rfl

/-- The rows of a task take up the time it was switched in. -/
theorem duration_key {l : List (Span Int (Unit × Event))} {states : List StateSpan}
    (h : ∀ s ∈ l, Tiles s.lo (states.filterMap s.meet) s.hi) (key : Int) :
    duration (·.cpu.key = key) ((l.flatMap fun s => states.filterMap s.meet).map Interval.ofMeet) =
      ((l.filter (·.tag.2.next.key = key)).map fun s => s.hi - s.lo).sum := by
  induction l with
  | nil => rfl
  | cons s l ih =>
      rw [List.flatMap_cons, List.map_append, duration_append,
        duration_segment (h s (List.mem_cons_self ..)),
        ih fun s' hs' => h s' (List.mem_cons_of_mem _ hs'), List.filter_cons]
      by_cases hkey : s.tag.2.next.key = key
      · simp [hkey]
      · simp [hkey]

end SwitchedIn

/-! ## the partition -/

section Partition

variable {metrics : Metrics} {events : List Event} {counters : Counters}

/-- `intervals`. -/
def builtIntervals (metrics : Metrics) (events : List Event) : List Interval :=
  intersect metrics.measurement (pairs (switches events))
    (stateTimeline metrics.imu metrics.measurement.endNs events)

/-- Ordered, disjoint, covering the window exactly, and finer than both the
segments between switches and the state timeline. -/
structure IsPartition (metrics : Metrics) (events : List Event) (intervals : List Interval) :
    Prop where
  proper : ∀ i ∈ intervals, i.startNs < i.endNs ∧ i.durationNs = i.endNs - i.startNs
  ordered : intervals.Pairwise (fun i j => i.endNs ≤ j.startNs)
  cover : ∀ t, (metrics.measurement.startNs ≤ t ∧ t < metrics.measurement.endNs) ↔
    ∃ i ∈ intervals, i.startNs ≤ t ∧ t < i.endNs
  segment : ∀ i ∈ intervals, ∃ p ∈ pairs (switches events),
    p.1.tsNs ≤ i.startNs ∧ i.endNs ≤ p.2.tsNs ∧ i.cpu = p.1.next
  state : ∀ i ∈ intervals, ∃ s ∈ stateTimeline metrics.imu metrics.measurement.endNs events,
    s.lo ≤ i.startNs ∧ i.endNs ≤ s.hi ∧ s.tag = (i.imuState, i.blockedSyscall)
  total : totalsSum intervals = metrics.measurement.endNs - metrics.measurement.startNs

/-- Everything the summary and the table say of the window is time between
switches. -/
structure ReportsSwitches (metrics : Metrics) (events : List Event) (summary : Summary)
    (rows : List OccupancyRow) : Prop where
  window : summary.windowNs = metrics.measurement.endNs - metrics.measurement.startNs
  rows_sum : (rows.map (·.windowNs)).sum = summary.windowNs
  task : ∀ key, ((rows.filter (·.occupant.key = key)).map (·.windowNs)).sum =
    switchedInNs metrics.measurement events key
  imu : summary.imuSwitchResidencyNs = switchedInNs metrics.measurement events metrics.imu
  rest : summary.imuBlockedNs + summary.imuRunnableWaitNs + summary.imuExitPathNs =
    summary.windowNs - summary.imuSwitchResidencyNs

/-- What the checks before the sweep give: the segments tile the window, and
each is tiled by the states it meets. -/
theorem segments_states (hsorted : events.Pairwise (·.tsNs ≤ ·.tsNs))
    (hwindow : metrics.measurement.startNs < metrics.measurement.endNs)
    (hbracket : brackets metrics.measurement (switches events) = true) :
    let segments := segments metrics.measurement events
    let states := stateTimeline metrics.imu metrics.measurement.endNs events
    builtIntervals metrics events =
        (segments.flatMap fun s => states.filterMap s.meet).map Interval.ofMeet ∧
      Tiles metrics.measurement.startNs segments metrics.measurement.endNs ∧
      ∀ s ∈ segments, Tiles s.lo (states.filterMap s.meet) s.hi := by
  intro segments states
  have hsegments := segments_window hsorted hwindow hbracket
  obtain ⟨e, l, rfl⟩ : ∃ e l, events = e :: l := by
    cases events with
    | nil => contradiction
    | cons e l => exact ⟨e, l, rfl⟩
  obtain ⟨hi, hhi, hstates⟩ :=
    @stateTimeline_tiles metrics.imu e metrics.measurement.endNs l hsorted
  -- the first event is no later than the first switch, so than the window
  have hfirst : e.tsNs ≤ metrics.measurement.startNs := by
    unfold brackets at hbracket
    split at hbracket
    · next first last hfirst _ =>
      obtain ⟨h1, -⟩ := of_decide_eq_true hbracket
      have hmem : first ∈ e :: l := List.mem_of_mem_filter (List.mem_of_head? hfirst)
      obtain rfl | hmem := List.mem_cons.mp hmem
      · exact h1
      · exact ((List.pairwise_cons.mp hsorted).1 first hmem).trans h1
    · contradiction
  refine ⟨intersect_eq hsegments.pairwise_lo hstates.pairwise_lo, hsegments, fun s hs => ?_⟩
  obtain ⟨h1, h2, h3⟩ := hsegments.mem hs
  exact hstates.clip h2 (hfirst.trans h1) (h3.trans hhi)

theorem isPartition_builtIntervals (hsorted : events.Pairwise (·.tsNs ≤ ·.tsNs))
    (hwindow : metrics.measurement.startNs < metrics.measurement.endNs)
    (hbracket : brackets metrics.measurement (switches events) = true) :
    IsPartition metrics events (builtIntervals metrics events) := by
  obtain ⟨hbuilt, hsegments, hmeets⟩ := @segments_states metrics events hsorted hwindow hbracket
  have htiles := hsegments.flatMap hmeets
  rw [hbuilt]
  generalize hm : (segments metrics.measurement events).flatMap (fun s =>
    (stateTimeline metrics.imu metrics.measurement.endNs events).filterMap s.meet) = meets at htiles
  have hmem : ∀ m ∈ meets, ∃ s ∈ segments metrics.measurement events,
      ∃ x ∈ stateTimeline metrics.imu metrics.measurement.endNs events, s.meet x = some m := by
    intro m hmem
    rw [← hm, List.mem_flatMap] at hmem
    obtain ⟨s, hs, hmem⟩ := hmem
    obtain ⟨x, hx, hmeet⟩ := List.mem_filterMap.mp hmem
    exact ⟨s, hs, x, hx, hmeet⟩
  constructor
  case proper =>
      intro i hi
      obtain ⟨m, hmm, rfl⟩ := List.mem_map.mp hi
      obtain ⟨s, -, x, -, hmeet⟩ := hmem m hmm
      exact ⟨(Span.meet_eq_some.mp hmeet).2.2.2, rfl⟩
  case ordered => exact List.pairwise_map.mpr htiles.pairwise
  case cover =>
      intro t
      rw [htiles.cover]
      simp only [List.mem_map, exists_exists_and_eq_and]
      rfl
  case segment =>
      intro i hi
      obtain ⟨m, hmm, rfl⟩ := List.mem_map.mp hi
      obtain ⟨s, hs, x, -, hmeet⟩ := hmem m hmm
      obtain ⟨g, hg, hcut⟩ := List.mem_filterMap.mp hs
      obtain ⟨p, hp, rfl⟩ := List.mem_map.mp hg
      obtain ⟨⟨hlo, hhi⟩, -⟩ := Span.meet_le hmeet
      obtain ⟨-, hlo', hhi'⟩ := Span.meet_le hcut
      refine ⟨p, hp, hlo'.trans hlo, hhi.trans hhi', ?_⟩
      rw [Interval.ofMeet, (Span.meet_eq_some.mp hmeet).2.2.1, (Span.meet_eq_some.mp hcut).2.2.1]
      rfl
  case state =>
      intro i hi
      obtain ⟨m, hmm, rfl⟩ := List.mem_map.mp hi
      obtain ⟨s, -, x, hx, hmeet⟩ := hmem m hmm
      obtain ⟨-, hlo, hhi⟩ := Span.meet_le hmeet
      refine ⟨x, hx, hlo, hhi, ?_⟩
      rw [Interval.ofMeet, (Span.meet_eq_some.mp hmeet).2.2.1]
  case total =>
      rw [totalsSum_eq, duration, List.filter_true, List.map_map]
      exact htiles.sum

/-- Past its first three checks the analysis returns the intervals of the
sweep. -/
theorem intervals_analyzeExecution (hlost : counters.lost = 0)
    (hconflicts : counters.identityConflicts = 0)
    (hbracket : brackets metrics.measurement (switches events) = true)
    (hlinked : linked (switches events) = true) :
    (analyzeExecution events counters metrics).intervals = builtIntervals metrics events := by
  unfold analyzeExecution
  simp only [hlost, hconflicts, hbracket, hlinked, ne_eq, not_true_eq_false, or_self,
    Bool.true_eq_false, if_false]
  repeat' split
  all_goals rfl

/-- A valid analysis passed every check, and this is what it reports. -/
theorem analyzeExecution_valid {summary : Summary}
    (h : (analyzeExecution events counters metrics).summary = .ok summary) :
    let timing := metrics.measurement
    let intervals := builtIntervals metrics events
    brackets timing (switches events) = true ∧ total intervals .unknown = 0 ∧
      (∀ i ∈ intervals, i.cpu.key = metrics.imu ↔ i.imuState = .onCpu) ∧
      callbackNs timing events = .ok summary.imuCallbackResidencyNs ∧
      (analyzeExecution events counters metrics).intervals = intervals ∧
      (analyzeExecution events counters metrics).rows = occupancyRows timing intervals ∧
      summary = {
        windowNs := timing.endNs - timing.startNs
        imuSwitchResidencyNs := total intervals .onCpu
        imuBlockedNs := total intervals .blocked
        imuRunnableWaitNs := total intervals .runnableWait
        imuUnknownNs := total intervals .unknown
        imuExitPathNs := total intervals .exitPath
        imuCallbackResidencyNs := summary.imuCallbackResidencyNs
        imuComputeCpuNs := metrics.imuCpuNs } := by
  intro timing intervals
  revert h
  unfold analyzeExecution
  dsimp only
  split
  · nofun
  · split
    · nofun
    · next hbracket =>
      split
      · nofun
      · split
        · nofun
        · next htotal =>
          split
          · nofun
          · next hoccupant =>
            split
            · nofun
            · next ns hcallback =>
              intro h
              cases h
              refine ⟨by simpa using hbracket, (not_or.mp htotal).2 |> not_not.mp, ?_, hcallback,
                rfl, rfl, rfl⟩
              intro i hi
              by_contra hne
              refine hoccupant (List.any_eq_true.mpr ⟨i, hi, decide_eq_true fun heq => hne ?_⟩)
              exact iff_of_eq heq

theorem callbacks_error {startNs : Int} {acc : List (Int × Int)} {running : Option Event}
    {what : String} (h : callbacks startNs acc running events = .error what) :
    what ∈ ["unpaired IMU running callbacks", "unpaired IMU stopping callback"] := by
  induction events generalizing acc running with
  | nil => contradiction
  | cons e l ih =>
      unfold callbacks at h
      repeat' split at h
      all_goals first
        | exact ih h
        | cases h
          decide

theorem callbackNs_error {timing : Timing} {what : String}
    (h : callbackNs timing events = .error what) :
    what ∈ ["unpaired IMU running callbacks", "unpaired IMU stopping callback",
      "IMU callback coverage ends before cutoff",
      "no IMU running/stopping coverage in window"] := by
  unfold callbackNs at h
  split at h
  · next hcallbacks =>
    cases h
    exact List.mem_append_left _ (callbacks_error hcallbacks)
  · split at h
    · cases h
      decide
    · dsimp only at h
      split at h
      · cases h
        decide
      · contradiction

/-- A window without an inside has no time in it. -/
theorem sum_clipped_of_le {timing : Timing} (h : timing.endNs ≤ timing.startNs)
    (l : List (Int × Int)) : (l.map fun c => clipped c.1 c.2 timing).sum = 0 := by
  refine List.sum_eq_zero fun x hx => ?_
  obtain ⟨c, -, rfl⟩ := List.mem_map.mp hx
  unfold clipped
  omega

/-- So only a proper one has callback time. -/
theorem window_of_callbackNs {timing : Timing} {ns : Int} (h : callbackNs timing events = .ok ns) :
    timing.startNs < timing.endNs := by
  by_contra hle
  unfold callbackNs at h
  split at h
  · contradiction
  · split at h
    · contradiction
    · rw [sum_clipped_of_le (Int.not_lt.mp hle)] at h
      contradiction

/-- Only unknown time fails the coverage test. -/
theorem coverage_analyzeExecution (hlost : counters.lost = 0)
    (hconflicts : counters.identityConflicts = 0)
    (hbracket : brackets metrics.measurement (switches events) = true)
    (hlinked : linked (switches events) = true)
    (htotal : totalsSum (builtIntervals metrics events) =
      metrics.measurement.endNs - metrics.measurement.startNs) :
    (analyzeExecution events counters metrics).summary =
        .error "window contains uncovered or ambiguous IMU state" ↔
      total (builtIntervals metrics events) .unknown ≠ 0 := by
  unfold builtIntervals at htotal ⊢
  unfold analyzeExecution
  simp only [hlost, hconflicts, hbracket, hlinked, ne_eq, not_true_eq_false, or_self,
    Bool.true_eq_false, if_false, htotal, false_or]
  split
  · next h => simp [h]
  · next h =>
    have hunknown : total (builtIntervals metrics events) .unknown = 0 := not_not.mp h
    refine iff_of_false ?_ (not_not.mpr hunknown)
    split
    · simp
    · split
      · next what hcallback =>
        simp only [Except.error.injEq]
        rintro rfl
        simpa using callbackNs_error hcallback
      · nofun

theorem reportsSwitches_of_valid (hsorted : events.Pairwise (·.tsNs ≤ ·.tsNs))
    (hwindow : metrics.measurement.startNs < metrics.measurement.endNs) {summary : Summary}
    (h : (analyzeExecution events counters metrics).summary = .ok summary) :
    ReportsSwitches metrics events summary (analyzeExecution events counters metrics).rows := by
  obtain ⟨hbracket, hunknown, hoccupant, -, -, hrows, hsummary⟩ := analyzeExecution_valid h
  obtain ⟨hbuilt, -, hmeets⟩ := @segments_states metrics events hsorted hwindow hbracket
  have htotal := (isPartition_builtIntervals hsorted hwindow hbracket).total
  have htask : ∀ key, duration (·.cpu.key = key) (builtIntervals metrics events) =
      switchedInNs metrics.measurement events key := by
    intro key
    rw [hbuilt, duration_key hmeets key, switchedInNs_eq]
  rw [hrows]
  constructor
  case window => rw [hsummary]
  case rows_sum =>
      have hall := sum_occupancyRows (fun _ => true) metrics.measurement
        (builtIntervals metrics events)
      rw [List.filter_true, ← totalsSum_eq, htotal] at hall
      rw [hall, hsummary]
  case task =>
      intro key
      rw [sum_occupancyRows (·.key = key), ← htask key]
      rfl
  case imu =>
      rw [hsummary, ← htask metrics.imu]
      refine congrArg (fun l => (l.map Interval.durationNs).sum) (List.filter_congr fun i hi => ?_)
      exact decide_eq_decide.mpr (hoccupant i hi).symm
  case rest =>
      rw [hsummary]
      simp only [totalsSum, List.map_cons, List.map_nil, List.sum_cons, List.sum_nil] at htotal
      dsimp only
      omega

/-- **The execution timeline** is a partition of the window, only unknown time
fails its coverage, and what a valid report says is time between switches. -/
theorem execution_timeline (hsorted : events.Pairwise (·.tsNs ≤ ·.tsNs))
    (hlost : counters.lost = 0) (hconflicts : counters.identityConflicts = 0)
    (hwindow : metrics.measurement.startNs < metrics.measurement.endNs)
    (hbracket : brackets metrics.measurement (switches events) = true)
    (hlinked : linked (switches events) = true) :
    let analysis := analyzeExecution events counters metrics
    IsPartition metrics events analysis.intervals ∧
      (analysis.summary = .error "window contains uncovered or ambiguous IMU state" ↔
        total analysis.intervals .unknown ≠ 0) ∧
      ∀ summary, analysis.summary = .ok summary →
        ReportsSwitches metrics events summary analysis.rows := by
  intro analysis
  have hpartition := isPartition_builtIntervals hsorted hwindow hbracket
  have hintervals := intervals_analyzeExecution hlost hconflicts hbracket hlinked
  rw [show analysis.intervals = builtIntervals metrics events from hintervals]
  exact ⟨hpartition,
    coverage_analyzeExecution hlost hconflicts hbracket hlinked hpartition.total,
    fun summary h => reportsSwitches_of_valid hsorted hwindow h⟩

end Partition

/-- An event between the IMU thread 11, the batch thread 12 and a task 20 of
another class. -/
def traceEvent (kind : Kind) (tsNs task next : Int) (runnable : Bool := true)
    (syscall : Syscall := .none) : Event where
  kind := kind
  tsNs := tsNs
  runnable := runnable
  syscall := syscall
  task := { key := task }
  next := { key := next }

/-- The IMU thread sleeps at 110, is woken at 120 and waits until 150. -/
def sleepTrace : List Event :=
  [traceEvent .running 79 11 12, traceEvent .switch 80 20 11,
    traceEvent .stopping 109 11 12 false,
    traceEvent .switch 110 11 12 false .clockNanosleep, traceEvent .wakeup 120 11 12,
    traceEvent .switch 130 12 20, traceEvent .running 149 11 12, traceEvent .switch 150 20 11,
    traceEvent .stopping 179 11 12, traceEvent .switch 180 11 12]

/-- What the recorder saw after 200. -/
def sleepDrain : List Event :=
  [traceEvent .running 209 11 12, traceEvent .switch 210 12 11, traceEvent .stopping 239 11 12,
    traceEvent .switch 240 11 12]

def sleepMetrics : Metrics where
  measurement := { startNs := 100, endNs := 200 }
  imu := 11
  imuCpuNs := 38

theorem execution_timeline_sleep :
    let analysis := analyzeExecution (sleepTrace ++ sleepDrain) {} sleepMetrics
    IsPartition sleepMetrics (sleepTrace ++ sleepDrain) analysis.intervals ∧
      (analysis.summary = .error "window contains uncovered or ambiguous IMU state" ↔
        total analysis.intervals .unknown ≠ 0) ∧
      ∀ summary, analysis.summary = .ok summary →
        ReportsSwitches sleepMetrics (sleepTrace ++ sleepDrain) summary analysis.rows :=
  execution_timeline (by decide) rfl rfl (by decide) (by decide) (by decide)

end ScxSlam.ExecutionTrace
