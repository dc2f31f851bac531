import Mathlib.Data.List.MinMax
import Mathlib.Data.List.Nodup
import ScxSlam.E4Eval.Plan
import ScxSlam.Lib.Dictionary

/-!
# ScxSlam.E4Eval.Anchors

`e4_perf.py`: what it reads of the estimator in the loader's trace of a case,
and the offset that it centres the reports of a repetition on.

A line of a trace stands for itself by its kind and its `key=number` fields.
-/

namespace ScxSlam.E4Eval

/-! ## records -/

/-- `fields`, a dictionary: the last one of equal keys counts. -/
abbrev Fields := List (String × Nat)

namespace Fields

def get? (e : Fields) (key : String) : Option Nat := Dictionary.get? e.reverse key

def get (e : Fields) (key : String) : Nat := Dictionary.get e.reverse key

/-- `keys <= e.keys()`. -/
def hasKeys (keys : List String) (e : Fields) : Bool := Dictionary.hasKeys keys e.reverse

end Fields

inductive TraceLine
  | summary (counters : Fields)
  | enqueue (e : Fields)
  | event (kind : String) (e : Fields)
  | other
  deriving DecidableEq, Repr

/-- `LANES`. -/
def lane? : Nat → Option String
  | 0xFE01 => some "DSQ_FE"
  | 0xBE01 => some "DSQ_BE"
  | 0x5A1E => some "DSQ_STALE"
  | _ => none

inductive Phase
  | startup
  | window
  | drain
  deriving DecidableEq, Repr

namespace Metrics

variable (m : Metrics)

def phase (tsNs : Nat) : Phase :=
  if tsNs < m.startNs then .startup else if tsNs < m.endNs then .window else .drain

def relativeNs (tsNs : Nat) : Int := tsNs - m.startNs

end Metrics

structure Enqueue where
  fields : Fields
  lane : String
  relativeNs : Int
  phase : Phase
  deriving DecidableEq, Repr

/-- An event; only those of LiDAR preprocessing have their distance to the
deadline. -/
structure TraceEvent where
  kind : String
  fields : Fields
  deadlineDeltaNs : Option Int := none
  relativeNs : Int
  phase : Phase
  deriving DecidableEq, Repr

/-- What the loop over the lines has gathered. -/
structure Gathered where
  counters : Option Fields := none
  enqueues : List Enqueue := []
  events : List TraceEvent := []
  lidarPreEvents : List TraceEvent := []
  deriving DecidableEq, Repr

def enqueueKeys : List String :=
  ["ts_ns", "pid_tgid", "job", "stage", "release_ns", "deadline_ns", "enq_flags", "dsq",
    "slice_ns", "vruntime", "exec_ns", "policy", "cpu", "overrun", "state_present"]

def eventKeys : List String := ["ts_ns", "release_ns", "deadline_ns", "pid_tgid", "job"]

/-- An enqueue of the estimator on its lane. -/
def gatherEnqueue (m : Metrics) (cpu : Nat) (t : Gathered) (e : Fields) : Except String Gathered :=
  if !e.hasKeys enqueueKeys then .error "incomplete estimator enqueue record"
  else match lane? (e.get "dsq") with
    | none => .error "estimator enqueue identity/policy/CPU/lane mismatch"
    | some lane =>
        if e.get "stage" ≠ 2 ∨ e.get "policy" ≠ 7 ∨ e.get "cpu" ≠ cpu then
          .error "estimator enqueue identity/policy/CPU/lane mismatch"
        else .ok { t with enqueues := t.enqueues ++ [{
          fields := e
          lane := lane
          relativeNs := m.relativeNs (e.get "ts_ns")
          phase := m.phase (e.get "ts_ns") }] }

/-- An event of LiDAR preprocessing or of the estimator. -/
def gatherEvent (m : Metrics) (t : Gathered) (kind : String) (e : Fields) :
    Except String Gathered :=
  let event : TraceEvent := {
    kind := kind
    fields := e
    relativeNs := m.relativeNs (e.get "ts_ns")
    phase := m.phase (e.get "ts_ns") }
  if e.get? "stage" = some 5 then
    if !e.hasKeys eventKeys then
      .error "LiDAR-pre events need exact timestamps; rebuild the loader"
    else .ok { t with lidarPreEvents := t.lidarPreEvents ++ [{ event with
      deadlineDeltaNs := if e.get "deadline_ns" ≠ 0 then
        some ((e.get "ts_ns" : Int) - e.get "deadline_ns") else none }] }
  else if e.get? "stage" ≠ some 2 then .ok t
  else if !e.hasKeys eventKeys then
    .error "estimator events need exact timestamps; rebuild the loader"
  else .ok { t with events := t.events ++ [event] }

def gather (m : Metrics) (cpu : Nat) (t : Gathered) : TraceLine → Except String Gathered
  | .summary counters =>
      if t.counters.isSome then .error "duplicate estimator trace summary"
      else .ok { t with counters := some counters }
  | .enqueue e => gatherEnqueue m cpu t e
  | .event kind e => gatherEvent m t kind e
  | .other => .ok t

/-- What `parse_estimator` returns. -/
structure Estimator where
  tid : Nat
  pidTgid : Nat
  counters : Fields
  firstMiss : Option TraceEvent
  firstStale : Option TraceEvent
  enqueues : List Enqueue
  events : List TraceEvent
  lidarPreEvents : List TraceEvent
  deriving DecidableEq, Repr

namespace Gathered

variable (t : Gathered)

/-- `first[kind]`: the earliest one that was observed in the window. -/
def first (kind : String) : Option TraceEvent :=
  (t.events.filter fun e => e.kind = kind ∧ e.phase = .window).argmin fun e => e.fields.get "ts_ns"

/-- The checks behind the loop. -/
def finish (m : Metrics) : Except String Estimator :=
  match t.counters, t.enqueues with
  | none, _ => .error "missing estimator trace counters"
  | some counters, enqueues =>
      if !counters.hasKeys ["enqueues", "emitted", "lost"] then
        .error "missing estimator trace counters"
      else match enqueues with
        | [] => .error "incomplete estimator lane stream; raw capture retained"
        | head :: _ =>
            let key := head.fields.get "pid_tgid"
            let keys := t.enqueues.map (fun e => e.fields.get "pid_tgid") ++
              t.events.map (fun e => e.fields.get "pid_tgid")
            let times := t.enqueues.map fun e => e.fields.get "ts_ns"
            if counters.get "emitted" ≠ t.enqueues.length ∨ counters.get "lost" ≠ 0 ∨
                counters.get "enqueues" ≠ counters.get "emitted" + counters.get "lost" then
              .error "incomplete estimator lane stream; raw capture retained"
            else if key = 0 ∨ ∃ k ∈ keys, k ≠ key then .error "estimator identity changed"
            else if (times.zip times.tail).any fun p => p.2 < p.1 then
              .error "estimator enqueue timestamps are not ordered"
            else if key / 2 ^ 32 ≠ m.pidTgid / 2 ^ 32 then
              .error "estimator and IMU belong to different processes"
            else if !t.enqueues.any fun e => e.phase = .window then
              .error "no estimator enqueues in the observation window"
            else .ok {
              tid := key % 2 ^ 32
              pidTgid := key
              counters := counters
              firstMiss := t.first "DEADLINE_MISS"
              firstStale := t.first "STALE_DEMOTION"
              enqueues := t.enqueues
              events := t.events
              lidarPreEvents := t.lidarPreEvents }

end Gathered

/-- `parse_estimator`. -/
def parseEstimator (lines : List TraceLine) (m : Metrics) (cpu : Nat) :
    Except String Estimator := do
  let t ← lines.foldlM (gather m cpu) {}
  t.finish m

/-! ## the report -/

/-- `HISTORICAL_MISS_OFFSET_NS`. -/
def historicalMissOffsetNs : Int := 135052000

def historicalCase : String := "historical-offset-no-observed-70pct-miss"

def reportBounds (m : Metrics) (anchorOffsetNs : Int) : Int × Int :=
  (m.startNs + max 0 (anchorOffsetNs - 100000000),
    min m.endNs (m.startNs + anchorOffsetNs + 2000000000))

/-- What a case's reports are centred on, and their bounds. -/
structure Focus where
  name : String
  anchorCase : String
  anchorOffsetNs : Int
  reportStartNs : Int
  reportEndNs : Int
  deriving DecidableEq, Repr

/-- `anchors`, the latest assignment first. -/
abbrev Anchors := List (Nat × Int × String)

/-- The body of the loop that fills `anchors`. -/
def anchor (parsed : String → Option Estimator) (anchors : Anchors) (c : Ran) : Anchors :=
  match (parsed c.name).bind Estimator.firstMiss with
  | some miss =>
      if c.imuWorkUs = 3500 ∧ c.deadlineGraceUs = .us 1000 ∧ c.lidarPreBudgetUs = 10000 ∧
          c.lidarPreClassId = 1 then
        (c.repetition, miss.relativeNs, c.name) :: anchors
      else anchors
  | none => anchors

def focus (anchors : Anchors) (c : Ran) : Focus :=
  let (offset, anchorCase) :=
    (anchors.lookup c.repetition).getD (historicalMissOffsetNs, historicalCase)
  let (startNs, endNs) := reportBounds c.metrics offset
  { name := c.name
    anchorCase := anchorCase
    anchorOffsetNs := offset
    reportStartNs := startNs
    reportEndNs := endNs }

/-- `report_perf_cases`, with the traces as they stand in the output directory. -/
def reportPerfCases (loaderText : String → List TraceLine) (cases : List Ran) (cpu : Nat) :
    Except String (List Focus) := do
  let parsed ← cases.mapM fun c => do
    let data ← parseEstimator (loaderText c.name) c.metrics cpu
    return (c.name, data)
  let anchors := cases.foldl (anchor fun name => parsed.reverse.lookup name) []
  return cases.map (focus anchors)

/-- The cases of `main` behind its loop; of every case, whether the loader left
the expiry to the application, and the metrics that were printed. -/
def ranCases (applicationOwned : Case → Bool) (metrics : Case → Metrics) (plan : List Case) :
    List Ran :=
  plan.map fun c => runOneCase (applicationOwned c) (metrics c) c

/-! ## the anchors -/

/-- The first miss of a case that was observed in its window. -/
def Ran.miss? (c : Ran) (loaderText : String → List TraceLine) (cpu : Nat) : Option TraceEvent :=
  match parseEstimator (loaderText c.name) c.metrics cpu with
  | .ok data => data.firstMiss
  | .error _ => none

/-- Every repetition is centred on the miss of its 70 percent case, and on the
historical one only without such a miss. -/
structure AnchorsRight (loaderText : String → List TraceLine) (cpu : Nat) (cases : List Ran)
    (out : List Focus) : Prop where
  observed : ∀ c ∈ cases, c.Qualifies → ∀ miss ∈ c.miss? loaderText cpu,
    List.Forall₂ (fun c' f => c'.repetition = c.repetition →
      f.anchorOffsetNs = miss.relativeNs ∧ f.anchorCase = c.name) cases out
  historical : List.Forall₂ (fun c' f => f.anchorCase = historicalCase →
    ∀ c ∈ cases, c.repetition = c'.repetition → c.Qualifies → c.miss? loaderText cpu = none)
    cases out

/-! ## what the loop leaves -/

section Anchor

variable {parsed : String → Option Estimator} {cases : List Ran} {r : Nat} {v : Int × String}

/-- What the loop takes for an anchor. -/
def Ran.Anchors (parsed : String → Option Estimator) (c : Ran) (v : Int × String) : Prop :=
  c.Qualifies ∧ c.deadlineGraceUs = .us 1000 ∧
    ∃ miss ∈ (parsed c.name).bind Estimator.firstMiss, v = (miss.relativeNs, c.name)

theorem anchor_cases (anchors : Anchors) (c : Ran) :
    (∃ v, c.Anchors parsed v ∧ anchor parsed anchors c = (c.repetition, v) :: anchors) ∨
      (∀ v, ¬ c.Anchors parsed v) ∧ anchor parsed anchors c = anchors := by
  unfold anchor
  split
  · next miss hmiss =>
    split
    · next hc =>
      exact .inl ⟨_, ⟨⟨hc.1, hc.2.2.1, hc.2.2.2⟩, hc.2.1, miss, hmiss, rfl⟩, rfl⟩
    · next hc =>
      exact .inr ⟨fun v hv => hc ⟨hv.1.1, hv.2.1, hv.1.2.1, hv.1.2.2⟩, rfl⟩
  · next hnone =>
    refine .inr ⟨?_, rfl⟩
    rintro v ⟨-, -, miss, hmiss, -⟩
    rw [hnone] at hmiss
    contradiction

/-- Every anchor is one of a case, and every case with an anchor leaves one. -/
theorem lookup_anchors :
    (∀ v, (cases.foldl (anchor parsed) []).lookup r = some v →
      ∃ c ∈ cases, c.repetition = r ∧ c.Anchors parsed v) ∧
    ((cases.foldl (anchor parsed) []).lookup r = none →
      ∀ c ∈ cases, c.repetition = r → ∀ v, ¬ c.Anchors parsed v) := by
  induction cases using List.reverseRecOn with
  | nil => exact ⟨nofun, fun _ => nofun⟩
  | append_singleton cases c ih =>
      obtain ⟨hsome, hnone⟩ := ih
      have hkept (hc : c.repetition = r → ∀ v, ¬ c.Anchors parsed v) :
          (∀ v, (cases.foldl (anchor parsed) []).lookup r = some v →
            ∃ c' ∈ cases ++ [c], c'.repetition = r ∧ c'.Anchors parsed v) ∧
          ((cases.foldl (anchor parsed) []).lookup r = none →
            ∀ c' ∈ cases ++ [c], c'.repetition = r → ∀ v, ¬ c'.Anchors parsed v) := by
        refine ⟨fun v hv => ?_, fun hv c' hc' hr' => ?_⟩
        · obtain ⟨c', hc', hfound⟩ := hsome v hv
          exact ⟨c', List.mem_append_left _ hc', hfound⟩
        · obtain hc' | hc' := List.mem_append.mp hc'
          · exact hnone hv c' hc' hr'
          · cases List.mem_singleton.mp hc'
            exact hc hr'
      rw [List.foldl_append, List.foldl_cons, List.foldl_nil]
      obtain ⟨w, hw, heq⟩ | ⟨hnever, heq⟩ := anchor_cases (cases.foldl (anchor parsed) []) c
      · rw [heq]
        by_cases hr : c.repetition = r
        · subst hr
          rw [List.lookup_cons_self]
          refine ⟨fun v hv => ⟨c, by simp, rfl, ?_⟩, nofun⟩
          cases hv
          exact hw
        · have hkey : (r == c.repetition) = false := by simpa using Ne.symm hr
          rw [List.lookup_cons, hkey]
          exact hkept fun hr' => absurd hr' hr
      · rw [heq]
        exact hkept fun _ => hnever

end Anchor

/-! ## the report and its cases -/

section Report

variable {loaderText : String → List TraceLine} {cases : List Ran} {cpu : Nat} {out : List Focus}

/-- A report that is written has read every trace, and is centred by the loop. -/
theorem report_eq_ok (h : reportPerfCases loaderText cases cpu = .ok out) :
    ∃ parsed : List (String × Estimator),
      List.Forall₂ (fun c p => p.1 = c.name ∧
        parseEstimator (loaderText c.name) c.metrics cpu = .ok p.2) cases parsed ∧
      out = cases.map (focus (cases.foldl (anchor fun name => parsed.reverse.lookup name) [])) := by
  obtain ⟨parsed, hparsed, h⟩ := Raise.bind_eq_ok.mp h
  cases h
  refine ⟨parsed, (Raise.mapM_eq_ok.mp hparsed).imp fun c p hp => ?_, rfl⟩
  obtain ⟨data, hdata, hp⟩ := Raise.bind_eq_ok.mp hp
  cases hp
  exact ⟨rfl, hdata⟩

/-- What the report of a case is centred on. -/
theorem focus_eq (anchors : Anchors) (c : Ran) :
    (focus anchors c).anchorOffsetNs =
        ((anchors.lookup c.repetition).getD (historicalMissOffsetNs, historicalCase)).1 ∧
      (focus anchors c).anchorCase =
        ((anchors.lookup c.repetition).getD (historicalMissOffsetNs, historicalCase)).2 :=
  ⟨rfl, rfl⟩

/-- Where names are distinct, a case finds its own trace. -/
theorem lookup_parsed {parsed : List (String × Estimator)}
    (hparsed : List.Forall₂ (fun c p => p.1 = c.name ∧
      parseEstimator (loaderText c.name) c.metrics cpu = .ok p.2) cases parsed)
    (hnames : (cases.map (·.name)).Nodup) {c : Ran} (hc : c ∈ cases) :
    (parsed.reverse.lookup c.name).bind Estimator.firstMiss = c.miss? loaderText cpu := by
  have hfst : cases.map (·.name) = parsed.map Prod.fst := by
    rw [← List.forall₂_eq_eq_eq, List.forall₂_map_left_iff, List.forall₂_map_right_iff]
    exact hparsed.imp fun _ _ hp => hp.1.symm
  obtain ⟨p, hp, hname, hdata⟩ := Raise.exists_of_mem hparsed hc
  have hkeys : (Dictionary.keys parsed.reverse).Nodup := by
    rw [Dictionary.keys, List.map_reverse, List.nodup_reverse, ← hfst]
    exact hnames
  have hfound : parsed.reverse.lookup p.1 = some p.2 :=
    Dictionary.get?_of_mem hkeys (List.mem_reverse.mpr hp)
  rw [← hname, hfound, Ran.miss?, hdata]
  rfl

/-- With the grace that the plans are drawn with, the anchors are right. -/
theorem report_right_of_grace (h : reportPerfCases loaderText cases cpu = .ok out)
    (hgrace : ∀ c ∈ cases, c.deadlineGraceUs = .us 1000)
    (hnames : (cases.map (·.name)).Nodup) (hplain : ∀ c ∈ cases, c.name ≠ historicalCase)
    (hone : ∀ c ∈ cases, ∀ c' ∈ cases, c.repetition = c'.repetition → c.Qualifies →
      c'.Qualifies → c = c') : AnchorsRight loaderText cpu cases out := by
  obtain ⟨parsed, hparsed, rfl⟩ := report_eq_ok h
  obtain ⟨find, hfind⟩ : ∃ find, find = fun name => parsed.reverse.lookup name := ⟨_, rfl⟩
  have hmiss : ∀ c ∈ cases, (find c.name).bind Estimator.firstMiss = c.miss? loaderText cpu := by
    intro c hc
    rw [hfind]
    exact lookup_parsed hparsed hnames hc
  rw [← hfind]
  have hobserved : ∀ c ∈ cases, c.Qualifies → ∀ miss ∈ c.miss? loaderText cpu,
      (cases.foldl (anchor find) []).lookup c.repetition = some (miss.relativeNs, c.name) := by
    intro c hc hq miss hm
    obtain ⟨hsome, hnone⟩ := @lookup_anchors find cases c.repetition
    have hanchors : c.Anchors find (miss.relativeNs, c.name) :=
      ⟨hq, hgrace c hc, miss, (hmiss c hc).trans hm, rfl⟩
    cases hlookup : (cases.foldl (anchor find) []).lookup c.repetition with
    | none => exact absurd hanchors (hnone hlookup c hc rfl _)
    | some v =>
        obtain ⟨c', hc', hr, hq', -, miss', hm', rfl⟩ := hsome v hlookup
        cases hone c' hc' c hc hr hq' hq
        rw [hmiss c hc, Option.mem_def.mp hm] at hm'
        cases hm'
        rfl
  constructor
  · intro c hc hq miss hm
    rw [List.forall₂_map_right_iff, List.forall₂_same]
    intro c' hc' hr
    obtain ⟨hoffset, hcase⟩ := focus_eq (cases.foldl (anchor find) []) c'
    rw [hoffset, hcase, hr, hobserved c hc hq miss hm]
    exact ⟨rfl, rfl⟩
  · rw [List.forall₂_map_right_iff, List.forall₂_same]
    intro c' hc' hhistorical c hc hr hq
    rw [Option.eq_none_iff_forall_not_mem]
    intro miss hm
    rw [(focus_eq (cases.foldl (anchor find) []) c').2, ← hr,
      hobserved c hc hq miss hm] at hhistorical
    exact hplain c hc hhistorical

/-- No case without a grace is an anchor. -/
theorem focus_of_no_grace (parsed : String → Option Estimator)
    (hgrace : ∀ c ∈ cases, c.deadlineGraceUs = .notApplicable) (c : Ran) :
    (focus (cases.foldl (anchor parsed) []) c).anchorCase = historicalCase := by
  have hlookup : (cases.foldl (anchor parsed) []).lookup c.repetition = none := by
    rw [Option.eq_none_iff_forall_not_mem]
    intro v hv
    obtain ⟨c', hc', -, -, hus, -⟩ := lookup_anchors.1 v hv
    rw [hgrace c' hc'] at hus
    contradiction
  rw [(focus_eq _ c).2, hlookup]
  rfl

end Report

/-! ## the report of a plan -/

theorem wakeupName_ne_historicalCase {r : Nat} {rest : String} :
    wakeupName r rest ≠ historicalCase := by
  intro h
  have hhead := congrArg (fun name => name.toList.head?) h
  simp [wakeupName, historicalCase] at hhead

section PerfSched

variable {args checked : Args} {rng : Rng} {affinity : List Nat} {plan : List Case}
variable {applicationOwned : Case → Bool} {metrics : Case → Metrics}

theorem mem_ranCases {c : Ran} (hc : c ∈ ranCases applicationOwned metrics plan) :
    ∃ drawn ∈ plan, c = runOneCase (applicationOwned drawn) (metrics drawn) drawn := by
  obtain ⟨drawn, hdrawn, rfl⟩ := List.mem_map.mp hc
  exact ⟨drawn, hdrawn, rfl⟩

theorem names_ranCases :
    (ranCases applicationOwned metrics plan).map (·.name) = plan.map (·.name) := by
  rw [ranCases, List.map_map]
  rfl

/-- With the grace that it was drawn with, the anchors of a plan are right. -/
theorem report_right_of_draw {explicit : Bool} (hprobe : args.preemptProbe = false)
    {loaderText : String → List TraceLine} {cpu : Nat} {out : List Focus}
    (hout : reportPerfCases loaderText
      (ranCases (fun _ => false) metrics (args.draw rng explicit)) cpu = .ok out) :
    AnchorsRight loaderText cpu (ranCases (fun _ => false) metrics (args.draw rng explicit))
      out := by
  obtain ⟨hnodup, hnames⟩ := @Args.names_draw args rng explicit hprobe
  obtain ⟨q, hq⟩ := @Args.qualifies_draw args rng explicit hprobe
  refine report_right_of_grace hout ?_ (by rwa [names_ranCases]) ?_ ?_
  · intro c hc
    obtain ⟨drawn, hdrawn, rfl⟩ := mem_ranCases hc
    exact (hq drawn hdrawn).1
  · intro c hc
    obtain ⟨drawn, hdrawn, rfl⟩ := mem_ranCases hc
    obtain ⟨r, rest, hname⟩ := hnames drawn hdrawn
    show drawn.name ≠ historicalCase
    rw [hname]
    exact wakeupName_ne_historicalCase
  · intro c hc c' hc' hr hqualifies hqualifies'
    obtain ⟨drawn, hdrawn, rfl⟩ := mem_ranCases hc
    obtain ⟨drawn', hdrawn', rfl⟩ := mem_ranCases hc'
    have hsame : drawn = drawn' := by
      rw [(hq drawn hdrawn).2 hqualifies, (hq drawn' hdrawn').2 hqualifies']
      exact congrArg q hr
    rw [hsame]

/-- Under `--perf-sched`, a case that has run still has no grace. -/
theorem ran_perfSched (hplan : args.plan rng affinity = .ok (checked, plan))
    (hperf : checked.perfSched = true) :
    ∀ c ∈ ranCases applicationOwned metrics plan,
      c.deadlineGraceUs = .notApplicable ∧ c.name ≠ historicalCase := by
  intro c hc
  obtain ⟨drawn, hdrawn, rfl⟩ := mem_ranCases hc
  obtain ⟨hgrace, r, rest, hname⟩ := Args.plan_perfSched hplan hperf drawn hdrawn
  constructor
  · show (if _ then Grace.notApplicable else drawn.deadlineGraceUs) = _
    rw [hgrace, ite_self]
  · show drawn.name ≠ historicalCase
    rw [hname]
    exact wakeupName_ne_historicalCase

/-- The anchors of a report are right if no 70 percent case has missed its
deadline, and only then. -/
theorem report_anchors_iff (hplan : args.plan rng affinity = .ok (checked, plan))
    (hperf : checked.perfSched = true) (loaderText : String → List TraceLine) {out : List Focus}
    (hout : reportPerfCases loaderText (ranCases applicationOwned metrics plan) checked.cpu =
      .ok out) :
    AnchorsRight loaderText checked.cpu (ranCases applicationOwned metrics plan) out ↔
      ∀ c ∈ ranCases applicationOwned metrics plan, c.Qualifies →
        c.miss? loaderText checked.cpu = none := by
  have hran := @ran_perfSched _ _ _ _ _ applicationOwned metrics hplan hperf
  obtain ⟨parsed, -, rfl⟩ := report_eq_ok hout
  have hfocus := @focus_of_no_grace (ranCases applicationOwned metrics plan)
    (fun name => parsed.reverse.lookup name) fun c hc => (hran c hc).1
  constructor
  · rintro ⟨hobserved, -⟩ c hc hq
    rw [Option.eq_none_iff_forall_not_mem]
    intro miss hmiss
    have hown := hobserved c hc hq miss hmiss
    rw [List.forall₂_map_right_iff, List.forall₂_same] at hown
    obtain ⟨-, hcase⟩ := hown c hc rfl
    rw [hfocus c] at hcase
    exact (hran c hc).2 hcase.symm
  · intro hnone
    constructor
    · intro c hc hq miss hmiss
      rw [hnone c hc hq] at hmiss
      contradiction
    · rw [List.forall₂_map_right_iff, List.forall₂_same]
      exact fun _ _ _ c hc _ hq => hnone c hc hq

end PerfSched

/-- A generator that leaves every list as it is. -/
def unshuffled : Rng where
  State := Unit
  seeded _ := ()
  shuffle l s := (l, s)
  perm _ _ := .rfl

def perfArgs : Args := { perfSched := true }

def perfPlan : List Case :=
  [(.controlStart, 150), (.sweep, 3250), (.sweep, 3500), (.controlEnd, 150)].map fun x =>
    { Rng.planCase 1 x.1 x.2 .wakeup with deadlineGraceUs := .notApplicable }

theorem plan_perfArgs : perfArgs.plan unshuffled [0] = .ok (perfArgs, perfPlan) := rfl

/-- The cases of `perfPlan`, with a window of three seconds each. -/
def perfCases : List Ran :=
  ranCases (fun _ => true)
    (fun _ => { startNs := 1000000000, endNs := 4000000000, pidTgid := 100 * 2 ^ 32 + 101 })
    perfPlan

/-- A trace with one enqueue of the estimator, and these events. -/
def perfTrace (events : List TraceLine) : List TraceLine :=
  .enqueue [("ts_ns", 1100000000), ("pid_tgid", 100 * 2 ^ 32 + 102), ("job", 4), ("stage", 2),
    ("release_ns", 1066000000), ("deadline_ns", 1099000000), ("enq_flags", 1), ("dsq", 0x5A1E),
    ("slice_ns", 20000000), ("vruntime", 3), ("exec_ns", 100), ("policy", 7), ("cpu", 0),
    ("overrun", 0), ("state_present", 1)] ::
  events ++ [.summary [("enqueues", 1), ("emitted", 1), ("lost", 0)]]

theorem report_anchors_hit : ∃ out, reportPerfCases (fun _ => perfTrace []) perfCases 0 = .ok out ∧
    out.map (·.anchorOffsetNs) = List.replicate 4 historicalMissOffsetNs ∧
    AnchorsRight (fun _ => perfTrace []) 0 perfCases out := by
  have hrun : ((reportPerfCases (fun _ => perfTrace []) perfCases 0).toOption.any fun out =>
      out.map (·.anchorOffsetNs) = List.replicate 4 historicalMissOffsetNs) = true ∧
      ∀ c ∈ perfCases, c.Qualifies → c.miss? (fun _ => perfTrace []) 0 = none := by
    decide +kernel
  obtain ⟨out, hout, hoffsets⟩ := (Option.any_eq_true ..).mp hrun.1
  have hok : reportPerfCases (fun _ => perfTrace []) perfCases 0 = .ok out :=
    Raise.toOption_eq_some.mp hout
  exact ⟨out, hok, of_decide_eq_true hoffsets,
    (report_anchors_iff plan_perfArgs rfl (fun _ => perfTrace []) hok).mpr hrun.2⟩

/-- The estimator misses its deadline where the IMU takes 70 percent. -/
def missText (name : String) : List TraceLine :=
  perfTrace (if name = "r1-wakeup-sweep-3500" then
    [.event "DEADLINE_MISS" [("stage", 2), ("job", 4), ("pid_tgid", 100 * 2 ^ 32 + 102),
      ("ts_ns", 1100000000), ("release_ns", 1066000000), ("deadline_ns", 1099000000)]] else [])

/-- The miss was observed 100 ms into the window, and every report is centred on
the historical offset. -/
theorem report_anchors_refuted : ∃ out, reportPerfCases missText perfCases 0 = .ok out ∧
    (∃ c ∈ perfCases, c.Qualifies ∧
      (c.miss? missText 0).map (·.relativeNs) = some 100000000) ∧
    out.map (·.anchorOffsetNs) = List.replicate 4 historicalMissOffsetNs ∧
    ¬ AnchorsRight missText 0 perfCases out := by
  have hrun : ((reportPerfCases missText perfCases 0).toOption.any fun out =>
      out.map (·.anchorOffsetNs) = List.replicate 4 historicalMissOffsetNs) = true ∧
      ∃ c ∈ perfCases, c.Qualifies ∧
        (c.miss? missText 0).map (·.relativeNs) = some 100000000 := by
    decide +kernel
  obtain ⟨out, hout, hoffsets⟩ := (Option.any_eq_true ..).mp hrun.1
  have hoffsets : out.map (·.anchorOffsetNs) = List.replicate 4 historicalMissOffsetNs :=
    of_decide_eq_true hoffsets
  refine ⟨out, Raise.toOption_eq_some.mp hout, hrun.2, hoffsets, fun hright => ?_⟩
  obtain ⟨c, hc, hq, hmiss⟩ := hrun.2
  obtain ⟨miss, hmiss, hrelative⟩ := Option.map_eq_some_iff.mp hmiss
  -- the report of the case itself would be centred on its miss
  obtain ⟨f, hf, hown⟩ := Raise.exists_of_mem (hright.observed c hc hq miss hmiss) hc
  have hoffset : f.anchorOffsetNs = historicalMissOffsetNs :=
    List.eq_of_mem_replicate (hoffsets ▸ List.mem_map_of_mem hf)
  rw [(hown rfl).1, hrelative] at hoffset
  exact absurd hoffset (by decide)

end ScxSlam.E4Eval
