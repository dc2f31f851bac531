import ScxSlam.ExecutionTrace.Partition

/-!
# ScxSlam.ExecutionTrace.Cutoff

What is recorded from the end of the window on cannot change what the analysis
says of the window: the segment, the state and the callback that are open at
the cutoff are closed by later events, and clipped.
-/

namespace ScxSlam.ExecutionTrace

open Tiling

/-! ## the state timeline -/

section Timeline

variable {imu endNs : Int} {s : Scan} {drain : List Event}

/-- Past the cutoff only later spans are added. -/
theorem Scan.finish_of_ge (hs : endNs ≤ s.previous) (hdrain : ∀ e ∈ drain, endNs ≤ e.tsNs) :
    ∃ r, (drain.foldl (Scan.step imu) s).finish endNs = s.states ++ r ∧ ∀ x ∈ r, endNs ≤ x.lo := by
  induction drain generalizing s with
  | nil =>
      refine ⟨_, rfl, fun x hx => ?_⟩
      cases List.mem_singleton.mp hx
      exact hs
  | cons e drain ih =>
      have he := hdrain e (List.mem_cons_self ..)
      have ih' := fun s hs => @ih s hs fun e' he' => hdrain e' (List.mem_cons_of_mem _ he')
      rw [List.foldl_cons]
      obtain hstep | hstep | hstep := Scan.step_cases imu s e
      · rw [hstep]
        exact ih' _ hs
      · rw [hstep]
        exact ih' _ hs
      · have hprevious : endNs ≤ ((s.close e.tsNs).enter imu e).previous := by
          rw [Scan.previous_enter]
          exact he
        obtain ⟨r, hr, hlo⟩ := ih' _ hprevious
        rw [← hstep] at hr
        rw [hr, hstep, Scan.states_enter]
        unfold Scan.close
        dsimp only
        split
        · refine ⟨_ :: r, List.append_assoc .., fun x hx => ?_⟩
          obtain rfl | hx := List.mem_cons.mp hx
          · exact hs
          · exact hlo x hx
        · exact ⟨r, rfl, hlo⟩

/-- The span that is open at the cutoff reaches it. -/
theorem Scan.finish_until (hs : s.previous < endNs) (hdrain : ∀ e ∈ drain, endNs ≤ e.tsNs) :
    Until endNs s.states s.previous (s.state, s.reason)
      ((drain.foldl (Scan.step imu) s).finish endNs) := by
  induction drain generalizing s with
  | nil => exact ⟨_, [], rfl, le_max_left _ _, nofun⟩
  | cons e drain ih =>
      have he := hdrain e (List.mem_cons_self ..)
      have hrest := fun e' he' => hdrain e' (List.mem_cons_of_mem _ he')
      rw [List.foldl_cons]
      obtain hstep | hstep | hstep := Scan.step_cases imu s e
      · rw [hstep]
        exact @ih { s with wakeWhileRunning := false } hs hrest
      · rw [hstep]
        exact ih hs hrest
      · have hprevious : endNs ≤ (s.step imu e).previous := by
          rw [hstep, Scan.previous_enter]
          exact he
        obtain ⟨r, hr, hlo⟩ := @Scan.finish_of_ge imu endNs (s.step imu e) drain hprevious hrest
        refine ⟨e.tsNs, r, ?_, he, hlo⟩
        rw [hr, hstep, Scan.states_enter, Scan.close, if_pos (hs.trans_le he), List.append_assoc]
        rfl

theorem Scan.previous_foldl {l : List Event} (hs : s.previous < endNs)
    (hl : ∀ e ∈ l, e.tsNs < endNs) : (l.foldl (Scan.step imu) s).previous < endNs := by
  induction l generalizing s with
  | nil => exact hs
  | cons e l ih =>
      refine ih ?_ fun e' he' => hl e' (List.mem_cons_of_mem _ he')
      obtain hstep | hstep | hstep := Scan.step_cases imu s e
      · rw [hstep]
        exact hs
      · rw [hstep]
        exact hs
      · rw [hstep, Scan.previous_enter]
        exact hl e (List.mem_cons_self ..)

end Timeline

/-! ## the switches -/

section Switches

variable {endNs : Int} {l drain : List Event} {z : Event}

theorem pairs_append (h : l.getLast? = some z) (x : Event) (r : List Event) :
    pairs (l ++ x :: r) = pairs l ++ (z, x) :: pairs (x :: r) := by
  induction l with
  | nil => contradiction
  | cons a l ih =>
      cases l with
      | nil =>
          cases h
          rfl
      | cons b l =>
          have h : (b :: l).getLast? = some z := by simpa using h
          exact congrArg ((a, b) :: ·) (ih h)

theorem mem_pairs {p : Event × Event} (h : p ∈ pairs l) : p.1 ∈ l :=
  (List.of_mem_zip h).1

/-- The segment that is open at the cutoff reaches it. -/
theorem segments_until (h : l.getLast? = some z) (hne : drain ≠ [])
    (hdrain : ∀ e ∈ drain, endNs ≤ e.tsNs) :
    Until endNs ((pairs l).map segment) z.tsNs z ((pairs (l ++ drain)).map segment) := by
  cases drain with
  | nil => contradiction
  | cons x r =>
      rw [pairs_append h, List.map_append, List.map_cons]
      refine ⟨x.tsNs, _, rfl, hdrain x (List.mem_cons_self ..), fun s hs => ?_⟩
      obtain ⟨p, hp, rfl⟩ := List.mem_map.mp hs
      exact hdrain p.1 (mem_pairs hp)

end Switches

/-! ## the callbacks -/

section Callbacks

variable {timing : Timing} {acc closed : List (Int × Int)} {running last : Option Event}
  {l drain : List Event}

theorem callbacks_append (startNs : Int) :
    callbacks startNs acc running (l ++ drain) =
      (callbacks startNs acc running l).bind fun x => callbacks startNs x.1 x.2 drain := by
  induction l generalizing acc running with
  | nil => rfl
  | cons e l ih =>
      rw [List.cons_append]
      cases hkind : e.kind
      case switch => simpa only [callbacks, hkind] using ih
      case wakeup => simpa only [callbacks, hkind] using ih
      case running =>
          cases running with
          | none => simpa only [callbacks, hkind] using ih
          | some r => simp only [callbacks, hkind, Except.bind]
      case stopping =>
          cases running with
          | some r => simpa only [callbacks, hkind] using ih
          | none =>
              simp only [callbacks, hkind]
              split
              · rfl
              · exact ih

/-- The clipped time of closed callbacks. -/
def closedNs (timing : Timing) (closed : List (Int × Int)) : Int :=
  (closed.map fun c => clipped c.1 c.2 timing).sum

theorem closedNs_concat (a b : Int) :
    closedNs timing (acc ++ [(a, b)]) = closedNs timing acc + clipped a b timing := by
  simp [closedNs]

/-- The callback that is open at the cutoff counts up to it. -/
theorem closedNs_callbacks (hdrain : ∀ e ∈ drain, timing.endNs ≤ e.tsNs)
    (h : callbacks timing.startNs acc running drain = .ok (closed, last))
    (hlast : last.any (·.tsNs < timing.endNs) = false) :
    closedNs timing closed =
      closedNs timing acc + (running.map (clipped ·.tsNs timing.endNs timing)).getD 0 := by
  have hlate : ∀ {e : Event} {b : Int}, timing.endNs ≤ e.tsNs → clipped e.tsNs b timing = 0 := by
    intro e b he
    unfold clipped
    omega
  induction drain generalizing acc running with
  | nil =>
      obtain ⟨rfl, rfl⟩ : acc = closed ∧ running = last := by simpa [callbacks] using h
      cases running with
      | none => simp
      | some r =>
          have hr : timing.endNs ≤ r.tsNs := by simpa using hlast
          simp [hlate hr]
  | cons e drain ih =>
      have he := hdrain e (List.mem_cons_self ..)
      have hrest := fun e' he' => hdrain e' (List.mem_cons_of_mem _ he')
      unfold callbacks at h
      split at h
      · contradiction
      · rw [ih hrest h]
        simp [hlate he]
      · split at h
        · contradiction
        · exact ih hrest h
      · next r _ =>
        have hclip : clipped r.tsNs e.tsNs timing = clipped r.tsNs timing.endNs timing := by
          unfold clipped
          rw [min_eq_right he, min_self]
        rw [ih hrest h, closedNs_concat, hclip]
        simp
      · exact ih hrest h

end Callbacks

/-! ## the window -/

section Window

variable {metrics : Metrics} {before drain drain' : List Event} {counters counters' : Counters}

/-- `callbackNs` when the drain closes the open callback. -/
theorem callbackNs_eq {timing : Timing} {ns : Int} (hdrain : ∀ e ∈ drain, timing.endNs ≤ e.tsNs)
    (h : callbackNs timing (before ++ drain) = .ok ns) :
    ∃ x, callbacks timing.startNs [] none before = .ok x ∧
      ns = closedNs timing x.1 + (x.2.map (clipped ·.tsNs timing.endNs timing)).getD 0 := by
  unfold callbackNs at h
  rw [callbacks_append] at h
  split at h
  · contradiction
  · next closed running hcallbacks =>
    cases hbefore : callbacks timing.startNs [] none before with
    | error what =>
        rw [hbefore] at hcallbacks
        contradiction
    | ok x =>
        rw [hbefore] at hcallbacks
        split at h
        · contradiction
        · next hlast =>
          dsimp only at h
          split at h
          · contradiction
          · cases h
            exact ⟨x, rfl, closedNs_callbacks hdrain hcallbacks (by simpa using hlast)⟩

/-- The switches on both sides of the cutoff, if they bracket the window. -/
theorem brackets_append {timing : Timing} (hwindow : timing.startNs < timing.endNs)
    (hbefore : ∀ e ∈ before, e.tsNs < timing.endNs) (hdrain : ∀ e ∈ drain, timing.endNs ≤ e.tsNs)
    (h : brackets timing (switches (before ++ drain)) = true) :
    switches before ≠ [] ∧ switches drain ≠ [] := by
  have happend : switches (before ++ drain) = switches before ++ switches drain :=
    List.filter_append ..
  rw [happend] at h
  unfold brackets at h
  split at h
  · next first last hfirst hlast =>
    obtain ⟨h1, h2⟩ := of_decide_eq_true h
    constructor
    · intro hnil
      rw [hnil, List.nil_append] at hfirst
      have := hdrain first (List.mem_of_mem_filter (List.mem_of_head? hfirst))
      omega
    · intro hnil
      rw [hnil, List.append_nil] at hlast
      have := hbefore last (List.mem_of_mem_filter (List.mem_of_getLast? hlast))
      omega
  · contradiction

/-- The scan of what is recorded before the cutoff. -/
def scanBefore (imu : Int) (e : Event) (before : List Event) : Scan :=
  (e :: before).foldl (Scan.step imu) { previous := e.tsNs }

/-- The sweep sees nothing of the drain. -/
theorem builtIntervals_append {e z : Event}
    (hwindow : metrics.measurement.startNs < metrics.measurement.endNs)
    (hsorted : (e :: before ++ drain).Pairwise (·.tsNs ≤ ·.tsNs))
    (hbefore : ∀ x ∈ e :: before, x.tsNs < metrics.measurement.endNs)
    (hdrain : ∀ x ∈ drain, metrics.measurement.endNs ≤ x.tsNs)
    (hbracket : brackets metrics.measurement (switches (e :: before ++ drain)) = true)
    (hz : (switches (e :: before)).getLast? = some z) :
    let s := scanBefore metrics.imu e before
    let segments := ((pairs (switches (e :: before))).map segment ++
      [(⟨z.tsNs, metrics.measurement.endNs, z⟩ : Span Int Event)]).filterMap
        metrics.measurement.window.meet
    builtIntervals metrics (e :: before ++ drain) =
      (segments.flatMap fun g => (s.states ++ [(⟨s.previous, metrics.measurement.endNs,
        s.state, s.reason⟩ : StateSpan)]).filterMap g.meet).map Interval.ofMeet := by
  intro s segs
  obtain ⟨-, hswitch⟩ := brackets_append hwindow hbefore hdrain hbracket
  obtain ⟨hbuilt, htiles, -⟩ := @segments_states metrics _ hsorted hwindow hbracket
  have hstates : Until metrics.measurement.endNs s.states s.previous (s.state, s.reason)
      (stateTimeline metrics.imu metrics.measurement.endNs (e :: before ++ drain)) := by
    have hprevious : s.previous < metrics.measurement.endNs :=
      Scan.previous_foldl (hbefore e (List.mem_cons_self ..)) hbefore
    have huntil := @Scan.finish_until metrics.imu _ s drain hprevious hdrain
    unfold stateTimeline
    rwa [List.foldl_append]
  have hsegments : segments metrics.measurement (e :: before ++ drain) = segs := by
    have happend : switches (e :: before ++ drain) = switches (e :: before) ++ switches drain :=
      List.filter_append ..
    have hlate : ∀ x ∈ switches drain, metrics.measurement.endNs ≤ x.tsNs :=
      fun x hx => hdrain x (List.mem_of_mem_filter hx)
    unfold segments
    rw [happend]
    exact (segments_until hz hswitch hlate).filterMap_meet le_rfl
  rw [hbuilt, ← hsegments]
  exact congrArg _ (List.flatMap_congr fun g hg => hstates.filterMap_meet (htiles.mem hg).2.2)

/-- A sorted list is what is before the cutoff and then the rest. -/
theorem append_filter_of_sorted {events : List Event} (endNs : Int)
    (h : events.Pairwise (·.tsNs ≤ ·.tsNs)) :
    events = events.filter (·.tsNs < endNs) ++ events.filter (endNs ≤ ·.tsNs) := by
  induction events with
  | nil => rfl
  | cons e l ih =>
      obtain ⟨he, h⟩ := List.pairwise_cons.mp h
      by_cases hlt : e.tsNs < endNs
      · rw [List.filter_cons_of_pos (by simpa using hlt),
          List.filter_cons_of_neg (by simpa using hlt), List.cons_append, ← ih h]
      · have hnil : l.filter (·.tsNs < endNs) = [] := by
          refine List.filter_eq_nil_iff.mpr fun x hx => ?_
          have := he x hx
          simp only [decide_eq_true_eq]
          omega
        have hrest := ih h
        rw [hnil, List.nil_append] at hrest
        rw [List.filter_cons_of_neg (by simpa using hlt), hnil, List.nil_append,
          List.filter_cons_of_pos (by simpa using hlt), ← hrest]

/-- **Drain cannot change the window**: two valid analyses that saw the same
before the cutoff report the same. -/
theorem analysis_cutoff {events events' : List Event} {summary summary' : Summary}
    (hsorted : events.Pairwise (·.tsNs ≤ ·.tsNs)) (hsorted' : events'.Pairwise (·.tsNs ≤ ·.tsNs))
    (hsame : events.filter (·.tsNs < metrics.measurement.endNs) =
      events'.filter (·.tsNs < metrics.measurement.endNs))
    (hvalid : (analyzeExecution events counters metrics).summary = .ok summary)
    (hvalid' : (analyzeExecution events' counters' metrics).summary = .ok summary') :
    (analyzeExecution events counters metrics).intervals =
        (analyzeExecution events' counters' metrics).intervals ∧
      (analyzeExecution events counters metrics).rows =
        (analyzeExecution events' counters' metrics).rows ∧
      summary = summary' := by
  obtain ⟨hbracket, -, -, hcallback, hintervals, hrows, hsummary⟩ := analyzeExecution_valid hvalid
  obtain ⟨hbracket', -, -, hcallback', hintervals', hrows', hsummary'⟩ :=
    analyzeExecution_valid hvalid'
  have hsplit := append_filter_of_sorted metrics.measurement.endNs hsorted
  have hsplit' := append_filter_of_sorted metrics.measurement.endNs hsorted'
  have hbefore : ∀ e ∈ events.filter (·.tsNs < metrics.measurement.endNs),
      e.tsNs < metrics.measurement.endNs := fun e he => of_decide_eq_true (List.mem_filter.mp he).2
  have hdrain : ∀ (l : List Event), ∀ e ∈ l.filter (metrics.measurement.endNs ≤ ·.tsNs),
      metrics.measurement.endNs ≤ e.tsNs :=
    fun l e he => of_decide_eq_true (List.mem_filter.mp he).2
  rw [← hsame] at hsplit'
  generalize events.filter (·.tsNs < metrics.measurement.endNs) = before at hsplit hsplit' hbefore
  rw [hsplit] at hsorted hbracket hcallback
  rw [hsplit'] at hsorted' hbracket' hcallback'
  have hwindow := window_of_callbackNs hcallback
  obtain ⟨x, hx, hns⟩ := callbackNs_eq (hdrain events) hcallback
  obtain ⟨x', hx', hns'⟩ := callbackNs_eq (hdrain events') hcallback'
  have hcallbackNs : summary.imuCallbackResidencyNs = summary'.imuCallbackResidencyNs := by
    rw [hx] at hx'
    cases hx'
    rw [hns, hns']
  have hbuilt : builtIntervals metrics events = builtIntervals metrics events' := by
    obtain ⟨hswitches, -⟩ := brackets_append hwindow hbefore (hdrain events) hbracket
    cases before with
    | nil => exact absurd rfl hswitches
    | cons e l =>
        obtain ⟨z, hz⟩ := Option.isSome_iff_exists.mp (List.getLast?_isSome.mpr hswitches)
        rw [hsplit, hsplit',
          builtIntervals_append hwindow hsorted hbefore (hdrain events) hbracket hz,
          builtIntervals_append hwindow hsorted' hbefore (hdrain events') hbracket' hz]
  refine ⟨?_, ?_, ?_⟩
  · rw [hintervals, hintervals', hbuilt]
  · rw [hrows, hrows', hbuilt]
  · rw [hsummary, hsummary', hbuilt, hcallbackNs]

end Window

/-- What the recorder could have seen after 200 instead. -/
def lateDrain : List Event :=
  [traceEvent .switch 1210 12 11, traceEvent .running 1300 11 12, traceEvent .switch 1310 11 20]

theorem analysis_cutoff_sleep :
    let analysis := analyzeExecution (sleepTrace ++ sleepDrain) {} sleepMetrics
    let analysis' := analyzeExecution (sleepTrace ++ lateDrain) { emitted := 13 } sleepMetrics
    analysis.intervals = analysis'.intervals ∧ analysis.rows = analysis'.rows := by
  have hsame := @analysis_cutoff sleepMetrics {} { emitted := 13 } (sleepTrace ++ sleepDrain)
    (sleepTrace ++ lateDrain) _ _ (by decide) (by decide) (by decide) rfl rfl
  exact ⟨hsame.1, hsame.2.1⟩

end ScxSlam.ExecutionTrace
