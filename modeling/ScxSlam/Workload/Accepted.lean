import Mathlib.Algebra.BigOperators.Ring.Finset
import Mathlib.Data.List.Dedup
import ScxSlam.Workload.Readback
import ScxSlam.Workload.Touch

/-!
# ScxSlam.Workload.Accepted

`validate` takes what a drained run of two seconds with two hogs has printed,
whatever the clock and the threads did.
-/

namespace ScxSlam.Workload

open DependentGraph (Lane)
open Fields (ints item)
open Python (Dict Raised)
open Raise (bind_eq_ok pure_eq_ok require_eq_ok)

/-! ## the checks pass -/

/-- The readings come in their order. -/
structure Readings.Clocked (R : Readings) (L : Launch) (start : Nat) (s : State) : Prop where
  enrolled : ∀ r, L.enrolled r = true → 0 < R.enrollmentBegin r ∧
    R.enrollmentBegin r ≤ R.enrollmentEnd r ∧ R.enrollmentEnd r ≤ start
  drained : s.now ≤ R.drained
  shutdown : ∀ r, R.drained ≤ R.shutdownBegin r

section Checks

variable {s : State} {L : Launch} {R : Readings} {r : Role} {i : Lane} {o : Options}
  {start : Nat} {done : String} {e : Raised} {d : Dict Int}

/-- Balanced counters with nothing left over pass. -/
theorem checkAccounting_ok {offered completed dropped : Nat}
    (hoffered : item d "offered".toList = .ok (offered : Int))
    (hcompleted : item d done.toList = .ok (completed : Int))
    (hdropped : item d "dropped".toList = .ok (dropped : Int))
    (hpending : item d "pending".toList = .ok 0) (hflight : item d "in_flight".toList = .ok 0)
    (h : offered = completed + dropped) : checkAccounting done e d = .ok () := by
  simp only [checkAccounting, hoffered, hcompleted, hdropped, hpending, hflight, bind_eq_ok,
    require_eq_ok]
  exact ⟨_, rfl, _, rfl, _, rfl, (), by exact_mod_cast h, _, rfl, (), rfl, _, rfl, rfl⟩

/-- The audit expects the priority a worker was launched with. -/
theorem expectedPriority_text (L : Launch) (r : Role) :
    expectedPriority L.fifo r.text = L.priority r := by
  unfold Launch.priority Launch.enrolled Launch.fifoOf expectedPriority
  cases hf : L.fifo with
  | false => cases r <;> simp
  | true => cases r <;> simp [Options.pool, Pool.get] <;> decide

/-- The audit expects the policy a worker was launched with. -/
theorem policy_text (L : Launch) (r : Role) :
    (L.policy r : Int) = expectedPolicy L.options.hinted (L.priority r) := by
  unfold Launch.policy Launch.priority Launch.enrolled Launch.fifoOf expectedPolicy
  have := L.exclusive
  cases hf : L.fifo <;> cases hh : L.options.hinted <;> cases r <;>
    simp_all [Options.pool, Pool.get]

/-- A worker that has to be enrolled is. -/
theorem enrolled_of_checked (h : L.options.hinted = true ∨ (L.priority r : Int) ≠ 0) :
    L.enrolled r = true := by
  obtain h | h := h
  · simp [Launch.enrolled, h]
  · by_contra hno
    exact h (by simp [Launch.priority, hno])

/-- The policy's fields and the enrollment before the window pass. -/
theorem checkPolicy_ok (hR : R.Clocked L start s) (hbegin : s.begin = start + 100 * ms) :
    checkPolicy L.options.hinted (L.priority r) r.text (ints (s.lifecycleFields L R r))
      (ints (s.windowFields R)) = .ok () := by
  have hlife : ∀ key n, (key, n) ∈ s.lifecycleFields L R r →
      item (ints (s.lifecycleFields L R r)) key.toList = .ok (n : Int) :=
    fun key n => Fields.item_ints keys_lifecycle.tail
  have hpolicy := hlife "policy" (L.policy r) (by simp [State.lifecycleFields])
  have hpriority := hlife "priority" (L.priority r) (by simp [State.lifecycleFields])
  have henrolling := hlife "enrollment_begin_ns" _ (by
    simp only [State.lifecycleFields]
    exact List.mem_cons_self)
  have henrolled := hlife "enrollment_end_ns"
    (if L.enrolled r then R.enrollmentEnd r else 0) (by simp [State.lifecycleFields])
  have hwindow : item (ints (s.windowFields R)) "begin_ns".toList = .ok (s.begin : Int) :=
    Fields.item_ints keys_window (by simp [State.windowFields])
  simp only [checkPolicy, hpolicy, hpriority, henrolling, henrolled, hwindow, bind_eq_ok,
    require_eq_ok]
  refine ⟨_, rfl, (), policy_text L r, _, rfl, (), rfl, ?_⟩
  split
  · next hchecked =>
    have hr := enrolled_of_checked hchecked
    obtain ⟨hpos, hle, hstart⟩ := hR.enrolled r hr
    simp only [hr, bind_eq_ok, require_eq_ok]
    refine ⟨_, rfl, (), by exact_mod_cast hpos, _, rfl, (), by exact_mod_cast hle, _, rfl, ?_⟩
    have hbefore : R.enrollmentEnd r < s.begin := by
      rw [hbegin]
      exact Nat.lt_of_le_of_lt hstart (Nat.lt_add_of_pos_right (by decide))
    exact_mod_cast hbefore
  · rfl

/-- Rows with their times in order are counted late by their deadlines. -/
theorem lateJobs_traces {rows : List Trace} {life : Dict Int} {shutdown : Nat}
    (hshutdown : item life "shutdown_begin_ns".toList = .ok (shutdown : Int))
    (hordered : ∀ row ∈ rows, row.Ordered) (hobserved : ∀ row ∈ rows, row.observed ≤ shutdown) :
    lateJobs r.text life (rows.map (traceRow r)) =
      .ok (rows.countP fun row => decide (row.deadline < row.finish) : Nat) := by
  induction rows with
  | nil => rfl
  | cons row rows ih =>
      obtain ⟨hrow, hrows⟩ := List.forall_mem_cons.mp hordered
      obtain ⟨hobs, hlater⟩ := List.forall_mem_cons.mp hobserved
      have hsorted : [(row.release : Int), row.assigned, row.start, row.finish, row.observed] =
          [(row.release : Int), row.assigned, row.start, row.finish, row.observed].insertionSort
            (· ≤ ·) := by
        have h₁ := hrow.released
        have h₂ := hrow.assigned
        have h₃ := hrow.started
        have h₄ := hrow.finished
        refine (List.Pairwise.insertionSort_eq ?_).symm
        simp
        omega
      rw [List.map_cons, lateJobs]
      simp only [number_stamps, hshutdown, number_finish, number_deadline, ih hrows hlater,
        bind_eq_ok, require_eq_ok, pure_eq_ok]
      refine ⟨_, rfl, (), hsorted, _, rfl, (), by simpa using hobs, _, rfl, _, rfl, _, rfl, ?_⟩
      rw [List.countP_cons]
      simp

/-- Different numbers are printed differently. -/
theorem decimal_inj {m n : Nat} (h : Extract.decimal m = Extract.decimal n) : m = n := by
  rw [← @Extract.ofDigitChars_decimal m, h, Extract.ofDigitChars_decimal]

/-- What a worker's line gave for a counter. -/
theorem item_worker {key : String} {n : Nat} (h : (key, n) ∈ s.workerFields r) :
    item (ints (s.workerFields r)) key.toList = .ok (n : Int) :=
  Fields.item_ints keys_worker.tail h

/-- What a lifecycle line gave for a field. -/
theorem item_life {key : String} {n : Nat} (h : (key, n) ∈ s.lifecycleFields L R r) :
    item (ints (s.lifecycleFields L R r)) key.toList = .ok (n : Int) :=
  Fields.item_ints keys_lifecycle.tail h

/-- The rows of one worker pass: as many jobs as it completed, all different, with
the same late counter. -/
theorem checkJobs_ok (hrecorded : Recorded s) (hR : R.Clocked L start s) (hobs : Observed start s)
    (hr : r ∈ L.options.workers) :
    checkJobs r.text (ints (s.workerFields r)) (ints (s.lifecycleFields L R r))
      (L.options.workers.flatMap fun r => (s.worker r).traces.map (traceRow r)) = .ok () := by
  have hselect := @select_traceRows s r _ (nodup_workers L.options)
  rw [if_pos hr] at hselect
  have hcompleted := @item_worker s r "completed" (s.worker r).completed
    (by simp [State.workerFields])
  have hlate := @item_worker s r "late" (s.worker r).late (by simp [State.workerFields])
  have hshutdown := @item_life s L R r "shutdown_begin_ns" (R.shutdownBegin r)
    (by simp [State.lifecycleFields])
  have hjobs : ((s.worker r).traces.map (traceRow r)).mapM (Csv.field · "job") =
      .ok ((s.worker r).traces.map fun row => some (Extract.decimal row.id)) := by
    rw [Raise.mapM_eq_ok, List.forall₂_map_left_iff, List.forall₂_map_right_iff]
    exact List.forall₂_same.mpr fun row _ => field_job
  have hdistinct : ((s.worker r).traces.map fun row => some (Extract.decimal row.id)).Nodup := by
    have hinj : Function.Injective fun n => some (Extract.decimal n) :=
      fun m n h => decimal_inj (Option.some.inj h)
    have := (List.nodup_map_iff hinj).mpr (hrecorded.distinct r)
    rwa [List.map_map] at this
  have hloop := lateJobs_traces (r := r) hshutdown (hrecorded.ordered r) fun row hrow =>
    (hobs.traces r row hrow).trans (hR.drained.trans (hR.shutdown r))
  simp only [checkJobs, hselect, hcompleted, hlate, bind_eq_ok, require_eq_ok]
  refine ⟨_, rfl, _, rfl, (), ?_, _, hjobs, (), ?_, _, hloop, _, rfl, ?_⟩
  · rw [List.length_map, hrecorded.count r]
  · rw [List.dedup_eq_self.mpr hdistinct, List.length_map, List.length_map]
  · rw [hrecorded.late r]

/-- Each worker is found under its name. -/
theorem item_workers (value : Role → Dict Int) (hr : r ∈ L.options.workers) :
    item (L.options.workers.map fun r => (r.text, value r)) r.text = .ok (value r) := by
  have hget : Dictionary.get? (L.options.workers.map fun r => (r.text, value r)) r.text =
      some (value r) := by
    refine Dictionary.get?_of_mem ?_ (List.mem_map_of_mem hr)
    rw [Dictionary.keys, List.map_map]
    exact nodup_texts L
  rw [item, hget]

/-- Every worker of a drained run passes. -/
theorem checkWorker_ok (hdrained : Drained L.options s) (hrecorded : Recorded s)
    (hR : R.Clocked L start s) (hobs : Observed start s) (hr : r ∈ L.options.workers) :
    checkWorker L.options.hinted L.fifo (s.collected L R) (ints (s.windowFields R))
      (L.options.workers.flatMap fun r => (s.worker r).traces.map (traceRow r))
        (r.text, ints (s.workerFields r)) = .ok () := by
  obtain ⟨hbalance, hqueue, hbusy⟩ := hdrained.workers r hr
  have haccounting : checkAccounting "completed" (workerError r.text "incomplete accounting")
      (ints (s.workerFields r)) = .ok () := by
    refine checkAccounting_ok (item_worker (n := (s.worker r).offered) ?_)
      (item_worker (n := (s.worker r).completed) ?_) (item_worker (n := (s.worker r).dropped) ?_)
      (item_worker (n := 0) ?_) (item_worker (n := 0) ?_) hbalance
    all_goals simp [State.workerFields, hqueue, hbusy]
  have hlife : item (s.collected L R).lifecycle r.text = .ok (ints (s.lifecycleFields L R r)) :=
    item_workers (fun r => ints (s.lifecycleFields L R r)) hr
  have hpolicy : checkPolicy L.options.hinted (expectedPriority L.fifo r.text) r.text
      (ints (s.lifecycleFields L R r)) (ints (s.windowFields R)) = .ok () := by
    rw [expectedPriority_text]
    exact checkPolicy_ok hR hobs.begin
  simp only [checkWorker, bind_eq_ok]
  exact ⟨(), haccounting, _, hlife, (), hpolicy, checkJobs_ok hrecorded hR hobs hr⟩

/-- A sensor's stream balances with its worker. -/
theorem checkSource_ok (hdrained : Drained L.options s) {count : Nat}
    (hworker : (s.worker (roleOf i)).offered = count) (hr : roleOf i ∈ L.options.workers)
    {source worker : String} (hsource : source.toList = State.streamName i)
    (hname : worker.toList = (roleOf i).text) :
    checkSource (s.collected L R) source worker count = .ok () := by
  have hstream : item (s.collected L R).streams source.toList = .ok (ints (s.streamFields i)) := by
    rw [hsource]
    cases i <;> rfl
  have hw :
      item (s.collected L R).workers worker.toList = .ok (ints (s.workerFields (roleOf i))) := by
    rw [hname]
    exact item_workers (fun r => ints (s.workerFields r)) hr
  have hitem : ∀ key n, (key, n) ∈ s.streamFields i →
      item (ints (s.streamFields i)) key.toList = .ok (n : Int) :=
    fun key n => Fields.item_ints keys_stream.tail.tail
  have hreleased := @item_worker s (roleOf i) "offered" (s.worker (roleOf i)).offered
    (by simp [State.workerFields])
  have hcompleted := @item_worker s (roleOf i) "completed" (s.worker (roleOf i)).completed
    (by simp [State.workerFields])
  have hoffered := hitem "offered" (s.session.graph.accounting.get i).offered
    (by simp [State.streamFields])
  have hflight : s.session.graph.inFlight i.stream = 0 := by
    simp [DependentGraph.Graph.inFlight, hdrained.running]
  have haccounting : checkAccounting "consumed" (.runtimeError "measurement accounting mismatch")
      (ints (s.streamFields i)) = .ok () := by
    refine checkAccounting_ok hoffered
      (hitem "consumed" (s.session.graph.accounting.get i).consumed ?_)
      (hitem "dropped" (s.session.graph.accounting.get i).dropped ?_)
      (hitem "pending" 0 ?_) (hitem "in_flight" 0 ?_) (hdrained.balance i)
    all_goals simp [State.streamFields, hdrained.inboxes i, hflight]
  simp only [checkSource, hstream, hw, bind_eq_ok, require_eq_ok]
  exact ⟨_, rfl, _, rfl, _, hreleased, (), by exact_mod_cast hworker, _, hoffered, _, hcompleted,
    (), by exact_mod_cast hdrained.streams i, haccounting⟩

/-- Control outcomes add up to the jobs of the control worker. -/
theorem checkControl_ok (hdrained : Drained L.options s)
    (hworker : (s.worker .control).offered = 200)
    (hr : Role.control ∈ L.options.workers) : checkControl (s.collected L R) = .ok () := by
  have hw :
      item (s.collected L R).workers "control".toList = .ok (ints (s.workerFields .control)) :=
    item_workers (fun r => ints (s.workerFields r)) hr
  have hreleased := @item_worker s .control "offered" (s.worker .control).offered
    (by simp [State.workerFields])
  have hcompleted := @item_worker s .control "completed" (s.worker .control).completed
    (by simp [State.workerFields])
  have hsum :
      ((ints s.controlFields).map Prod.snd).sum = ((s.worker .control).completed : Int) := by
    rw [← hdrained.control]
    simp [ints, State.controlFields]
    omega
  simp only [checkControl, bind_eq_ok, require_eq_ok]
  exact ⟨_, hw, _, hreleased, (), by exact_mod_cast hworker,
    bind_eq_ok.mpr ⟨_, hcompleted, require_eq_ok.mpr hsum⟩⟩

end Checks

section Accepted

variable {s : State} {L : Launch} {R : Readings} {start : Nat} {as : List Action}

/-- The workers of a run with two hogs. -/
theorem workers_of_two {o : Options} (h : o.hogCount = 2) :
    o.workers = [.imu, .camera, .estimator, .control, .mapping, .hog0, .hog1] := by
  rw [Options.workers, Options.hogs, h]
  rfl

/-- **Acceptance**: whatever the clock and the threads do, `validate` takes the
output and the trace of a run of two seconds with two hogs that has drained. -/
theorem validate_output (hstart : start < clockLimit)
    (hrun : Steps.exec (step L.options) (State.initial L.options start) as = some s)
    (hdone : s.pc = .done) (hseconds : L.options.seconds = 2) (hhogs : L.options.hogCount = 2)
    (htracing : L.options.tracing = true) (hR : R.Clocked L start s) :
    validate (s.output L R) (s.traceText L.options) L.options.hinted L.fifo = .ok () := by
  have hreach : Reachable L.options s := ⟨start, as, hstart, hrun⟩
  have hdrained := break_accounts_all hreach hdone
  have hrecorded := drained_traces hreach hdone htracing
  have hobs := exec_observed hstart hrun
  have hworkers := workers_of_two hhogs
  have hmem : ∀ r, r ∈ L.options.workers := fun r => by rw [hworkers]; cases r <;> simp
  have himu := hdrained.imuOffered
  have hcamera := hdrained.cameraOffered
  have hcontrol := hdrained.controlOffered
  rw [hseconds] at himu hcamera hcontrol
  have hnames : sameNames (s.collected L R).workers expectedNames ∧
      sameNames (s.collected L R).lifecycle expectedNames ∧ ints (s.windowFields R) ≠ [] := by
    have hkeys : ∀ value : Role → Dict Int,
        Dictionary.keys (L.options.workers.map fun r => (r.text, value r)) = expectedNames := by
      intro value
      rw [Dictionary.keys, List.map_map, hworkers]
      rfl
    have hsame : ∀ d : Dict (Dict Int), d.keys = expectedNames → sameNames d expectedNames :=
      fun d hd => ⟨fun k hk => hd ▸ hk, fun k hk => hd ▸ hk⟩
    exact ⟨hsame _ (hkeys _), hsame _ (hkeys _), List.cons_ne_nil _ _⟩
  have hcompleted : (s.collected L R).workers.mapM (fun p => item p.2 "completed".toList) =
      .ok (L.options.workers.map fun r => ((s.worker r).completed : Int)) := by
    rw [Raise.mapM_eq_ok, State.collected, List.forall₂_map_left_iff, List.forall₂_map_right_iff]
    exact List.forall₂_same.mpr fun r _ => item_worker (by simp [State.workerFields])
  have hcount : ((L.options.workers.flatMap fun r =>
      (s.worker r).traces.map (traceRow r)).length : Int) =
        (L.options.workers.map fun r => ((s.worker r).completed : Int)).sum := by
    rw [List.length_flatMap, Nat.cast_list_sum, List.map_map]
    refine congrArg List.sum (List.map_congr_left fun r _ => ?_)
    rw [Function.comp_apply, List.length_map, hrecorded.count r]
  have hchecks : (s.collected L R).workers.forM (checkWorker L.options.hinted L.fifo
      (s.collected L R) (ints (s.windowFields R))
        (L.options.workers.flatMap fun r => (s.worker r).traces.map (traceRow r))) = .ok () := by
    refine Raise.forM_eq_ok.mpr fun p hp => ?_
    obtain ⟨r, hr, rfl⟩ := List.mem_map.mp hp
    exact checkWorker_ok hdrained hrecorded hR hobs hr
  simp only [validate, foldlM_output, table_traceText, bind_eq_ok, require_eq_ok]
  exact ⟨_, rfl, (), hnames, _, rfl, _, hcompleted, (), hcount, (), hchecks,
    (), checkSource_ok (i := .imu) hdrained himu (hmem _) rfl rfl,
    (), checkSource_ok (i := .camera) hdrained hcamera (hmem _) rfl rfl,
    checkControl_ok hdrained hcontrol (hmem _)⟩

end Accepted

/-- What the audited runs are started with. -/
def auditedLaunch : Launch where
  options := {
    seconds := 2, hogCount := 2, scenario := .nominal, hinted := true, tracing := true,
    seconds_pos := Nat.zero_lt_two }
  fifo := false
  cpu := 1
  housekeeping := 0
  exclusive := fun _ => rfl

def auditedEnd : State :=
  drive auditedLaunch.options 3400 (State.initial auditedLaunch.options 1000)

def auditedReadings : Readings where
  enrollmentBegin := fun _ => 10
  enrollmentEnd := fun _ => 20
  drained := 2 ^ 62
  shutdownBegin := fun _ => 2 ^ 62
  shutdownEnd := fun _ => 2 ^ 62
  tid := fun _ => 300
  code := fun _ => 1

/-- The output of one whole run passes the audit. -/
theorem validate_output_audited :
    validate (auditedEnd.output auditedLaunch auditedReadings)
      (auditedEnd.traceText auditedLaunch.options) true false = .ok () := by
  obtain ⟨as, has⟩ :=
    drive_exec auditedLaunch.options 3400 (State.initial auditedLaunch.options 1000)
  have hend : auditedEnd.pc = .done ∧ auditedEnd.now ≤ 2 ^ 62 := by decide +kernel
  have hclocked : auditedReadings.Clocked auditedLaunch 1000 auditedEnd :=
    ⟨fun _ _ => show 0 < 10 ∧ 10 ≤ 20 ∧ 20 ≤ 1000 by decide, hend.2, fun _ => Nat.le_refl _⟩
  exact validate_output (by decide) has hend.1 rfl rfl rfl hclocked

end ScxSlam.Workload
