import Mathlib.Data.List.Count
import ScxSlam.Workload.Safety

/-!
# ScxSlam.Workload.Traces

The trace rows of a drained run.  The ids of a worker's jobs come from its
source, its own counter or the graph (`State.issued`) and only go up, and a
control row repeats the outcome the graph answered when its snapshot was
selected.
-/

namespace ScxSlam.Workload

open DependentGraph

/-! ## ids -/

/-- The last id handed to a worker. -/
def State.issued (s : State) : Role → Nat
  | .imu => s.imu.id
  | .camera => s.camera.id
  | .control => s.control.id
  | .estimator => (batches s.session.history).length
  | .mapping => (completedBatches s.session.history).length
  | .hog0 => (s.worker .hog0).offered
  | .hog1 => (s.worker .hog1).offered

/-- The traces of all workers. -/
def Written (o : Options) (s : State) : Prop :=
  ∀ r, (s.worker r).Written o.tracing (s.issued r)

section Ids

variable {o : Options} {s s' : State} {r : Role} {W : Worker Closure} {job : Job Closure}

/-- One worker goes on, and no id is handed out twice. -/
theorem Written.replace (h : Written o s) (hworker : s'.worker = (s.setWorker r W).worker)
    (hW : W.Written o.tracing (s'.issued r)) (hissued : ∀ q, q ≠ r → s.issued q ≤ s'.issued q) :
    Written o s' := by
  intro q
  rw [hworker]
  by_cases hq : q = r
  · subst hq
    rw [worker_setWorker, Function.update_self]
    exact hW
  · rw [setWorker_of_ne s W hq]
    exact (h q).mono (hissued q hq)

/-- Ids are handed out with offers. -/
theorem issued_setWorker (hW : W.offered = (s.worker r).offered) (q : Role) :
    (s.setWorker r W).issued q = s.issued q := by
  have hoffered : ∀ q, ((s.setWorker r W).worker q).offered = (s.worker q).offered := by
    intro q
    by_cases hq : q = r
    · subst hq
      rw [worker_setWorker, Function.update_self, hW]
    · rw [setWorker_of_ne s W hq]
  cases q <;> first | rfl | exact hoffered _

theorem Written.setWorker (h : Written o s) (hoffered : W.offered = (s.worker r).offered)
    (hW : W.Written o.tracing (s.issued r)) : Written o (s.setWorker r W) := by
  refine h.replace rfl ?_ ?_
  · rw [issued_setWorker hoffered]
    exact hW
  · exact fun q _ => Nat.le_of_eq (issued_setWorker hoffered q).symm

/-- A hog's ids are those of its own counter. -/
theorem Written.offerHog (h : Written o s) (hr : r = .hog0 ∨ r = .hog1) :
    Written o (s.offerHog r) := by
  unfold State.offerHog
  split
  · have hlt : s.issued r < (s.hogJob ((s.worker r).offered + 1)).id := by
      obtain rfl | rfl := hr <;> exact Nat.lt_succ_self _
    have hjob := (h r).offer hlt
    refine h.replace rfl (r := r) ?_ ?_
    · obtain rfl | rfl := hr
      all_goals
        refine hjob.mono (Nat.le_of_eq ?_)
        exact (offer_offered _ _).symm
    · intro q hq
      obtain rfl | rfl := hr <;> cases q <;> first | exact Nat.le_refl _ | contradiction
  · exact h

theorem Written.offerHogs (h : Written o s) {hogs : List Role}
    (hhogs : ∀ r ∈ hogs, r = .hog0 ∨ r = .hog1) : Written o (hogs.foldl State.offerHog s) := by
  induction hogs generalizing s with
  | nil => exact h
  | cons r hogs ih =>
      exact ih (h.offerHog (hhogs r List.mem_cons_self))
        fun q hq => hhogs q (List.mem_cons_of_mem r hq)

/-- The ids of the batches count them. -/
theorem running_id {S : Session} {b : Batch} (h : Books 32 8 S) (hrun : S.graph.running = some b) :
    b.id = (completedBatches S.history).length + 1 := by
  have hids := h.ids
  rw [h.current, hrun, Option.toList_some, List.map_append, List.length_append,
    List.length_singleton, List.range'_concat] at hids
  have hlast := (List.append_inj' hids rfl).2
  simpa [Nat.add_comm] using hlast

theorem foldl_keep_batchId (l : List Measurement) (s : Snapshot) :
    (l.foldl Snapshot.keep s).batchId = s.batchId := by
  induction l generalizing s with
  | nil => rfl
  | cons m l ih =>
      rw [List.foldl_cons, ih]
      unfold Snapshot.keep
      split <;> rfl

/-- No worker moves, and ids may have been handed out. -/
theorem Written.frame (h : Written o s) (hworker : s'.worker = s.worker)
    (hissued : ∀ q, s.issued q ≤ s'.issued q) : Written o s' := by
  intro q
  rw [hworker]
  exact (h q).mono (hissued q)

/-- A call that selects and completes nothing hands out no id. -/
theorem issued_quiet {c : Call} {resp : Response} {g : Graph} (hs : selected1 (c, resp) = none)
    (hc : completed1 (c, resp) = none) (q : Role) :
    (s.called c resp g).issued q = s.issued q := by
  obtain ⟨hbatches, hdone⟩ := quiet_history (S := s.session) (g := g) hs hc
  cases q with
  | estimator => exact congrArg List.length hbatches
  | mapping => exact congrArg List.length hdone
  | _ => rfl

/-- A completed batch's id is handed to the mapping worker. -/
theorem issued_completed {b : Batch} {snapshot : Snapshot} {g : Graph} (hacc : Account s)
    (hrun : s.session.graph.running = some b)
    (hok : s.session.graph.complete b.id s.now = .ok (snapshot, g)) :
    (s.called (.complete b.id s.now) (.completed snapshot) g).issued .mapping = b.id ∧
      ∀ q, s.issued q ≤ (s.called (.complete b.id s.now) (.completed snapshot) g).issued q := by
  have hdone : (s.called (.complete b.id s.now) (.completed snapshot) g).issued .mapping =
      (completedBatches s.session.history).length + 1 := by
    show (completedBatches (s.session.after _ _ _).history).length = _
    rw [completedBatches_complete hacc.held.books hok hrun, List.length_append]
    rfl
  refine ⟨hdone.trans (running_id hacc.held.books hrun).symm, ?_⟩
  intro q
  cases q with
  | estimator =>
      show _ ≤ (batches (s.session.after _ _ _).history).length
      rw [batches_after]
      exact Nat.le_of_eq (congrArg List.length (List.append_nil _).symm)
  | mapping => rw [hdone]; exact Nat.le_succ _
  | _ => exact Nat.le_refl _

/-- A selected batch's id is handed to the estimator. -/
theorem issued_selected {b : Batch} {g : Graph} (hacc : Account s)
    (hok : s.session.graph.select s.now = .ok (some b, g)) :
    (s.called (.select s.now) (.selected (some b)) g).issued .estimator = b.id ∧
      b.id = s.issued .estimator + 1 ∧
      ∀ q, s.issued q ≤ (s.called (.select s.now) (.selected (some b)) g).issued q := by
  have hid : b.id = (batches s.session.history).length + 1 := by
    obtain ⟨-, ⟨hnone, -⟩ | ⟨-, -, hsome, -⟩⟩ := select_ok hok
    · cases hnone
    · rw [Option.some.inj hsome]
      exact hacc.held.books.next
  have hlen : (s.called (.select s.now) (.selected (some b)) g).issued .estimator =
      (batches s.session.history).length + 1 := by
    show (batches (s.session.after _ _ _).history).length = _
    rw [batches_after, List.length_append]
    rfl
  refine ⟨hlen.trans hid.symm, hid, ?_⟩
  intro q
  cases q with
  | estimator => rw [hlen]; exact Nat.le_succ _
  | mapping =>
      show _ ≤ (completedBatches (s.session.after _ _ _).history).length
      rw [completedBatches_select hacc.held.books hok]
      exact Nat.le_refl _
  | _ => exact Nat.le_refl _

/-- The dispatcher's step. -/
theorem Written.turn (h : Written o s) (hacc : Account s) (hsafe : ¬ Fails s)
    (hs : Turn o s s') : Written o s' := by
  cases hs with
  | goto | clock | quiet | tally => exact h
  | @collect r W c todo hcalm hc =>
      refine h.setWorker ?_ ((h r).collect (hacc.sound r) hc)
      obtain ⟨r, -, rfl, rfl⟩ := Worker.collect_some hc
      rfl
  | @offered r m =>
      refine h.frame rfl
        (fun q => Nat.le_of_eq (issued_quiet (c := .offer m s.now) ?_ ?_ q).symm) <;> rfl
  | completed hpc hok =>
      obtain ⟨-, hissued⟩ := issued_completed hacc (hacc.owner hpc).1 hok
      exact h.frame rfl hissued
  | @mapped r b todo snapshot m g hpc hok hcamera hm =>
      obtain ⟨hrun, hknown⟩ := hacc.owner hpc
      obtain ⟨hmapping, hissued⟩ := issued_completed hacc hrun hok
      have hid : snapshot.batchId = b.id := by
        obtain ⟨b', hb', -, -, hk⟩ := complete_ok hok
        cases hrun.symm.trans hb'
        rw [(hk hknown).1, foldl_keep_batchId]
      have hlt : s.issued .mapping < (State.mappingJob snapshot m).id := by
        show (completedBatches s.session.history).length < snapshot.batchId
        rw [hid, running_id hacc.held.books hrun]
        exact Nat.lt_succ_self _
      refine h.replace rfl (r := .mapping) ?_ ?_
      · refine ((h .mapping).offer hlt).mono (Nat.le_of_eq ?_)
        exact hid.trans hmapping.symm
      · intro q _
        cases q <;> exact hissued _
  | hogs => exact h.offerHogs (fun r => mem_hogs)
  | imu =>
      refine h.replace rfl ((h .imu).offer (Nat.lt_succ_self _)) ?_
      intro q hq
      cases q <;> first | exact Nat.le_refl _ | contradiction
  | camera =>
      refine h.replace rfl ((h .camera).offer (Nat.lt_succ_self _)) ?_
      intro q hq
      cases q <;> first | exact Nat.le_refl _ | contradiction
  | skip =>
      have hcontrol := (h .control).mono (Nat.le_succ s.control.id)
      refine h.replace rfl (r := .control) ?_ ?_
      · exact { hcontrol with
          rowed := ⟨hcontrol.rowed.count, hcontrol.rowed.late⟩
          numbered := ⟨hcontrol.numbered.ascending, hcontrol.numbered.bounded⟩ }
      · intro q hq
        cases q <;> first | exact Nat.le_refl _ | contradiction
  | @controlled setpoint maxImuAge selection g =>
      have hquiet := @issued_quiet s (.control s.now setpoint maxImuAge) (.controlled selection) g
        rfl rfl
      refine h.replace rfl ((h .control).offer (Nat.lt_succ_self _)) ?_
      intro q hq
      cases q <;> first | exact Nat.le_of_eq (hquiet _).symm | contradiction
  | @nothing g =>
      exact h.frame rfl
        fun q => Nat.le_of_eq (@issued_quiet s (.select s.now) (.selected none) g rfl rfl q).symm
  | @selected b m rest g burst pc hpc hidle hok =>
      obtain ⟨hestimator, hid, hissued⟩ := issued_selected hacc hok
      have hlt : s.issued .estimator < (State.estimatorJob o b m.sourceTime).id := by
        show _ < b.id
        rw [hid]
        exact Nat.lt_succ_self _
      refine h.replace rfl (r := .estimator) ?_ ?_
      · exact ((h .estimator).offer hlt).mono (Nat.le_of_eq hestimator.symm)
      · intro q _
        cases q <;> exact hissued _
  | @dispatch r =>
      exact h.setWorker (dispatch_offered _ _) ((h r).dispatch (hacc.sound r) s.now)
  | fail hfails => exact absurd hfails hsafe

end Ids

/-! ## outcomes -/

/-- The control selections of a history, in order. -/
def controls (h : History) : List Control :=
  h.filterMap fun p => match p.2 with
    | .controlled selection => some selection
    | _ => none

/-- The outcome a completion function counts. -/
def Closure.outcome? : Closure → Option Outcome
  | .control selection => some selection.outcome
  | _ => none

/-- The counter of an outcome. -/
def State.count (s : State) : Outcome → Nat
  | .usable => s.usable
  | .stale => s.stale
  | .missing => s.missing

/-- The control worker and the counters against the control selections. -/
structure Told (tracing : Bool) (W : Worker Closure) (owed : List Closure)
    (count : Outcome → Nat) (selections : List Control) : Prop where
  entries : tracing = true →
    W.entries.map Prod.snd = selections.map fun c => State.outcomeCode c.outcome
  counted : ∀ out, count out + ((owed ++ W.closures).filterMap Closure.outcome?).count out =
    (selections.map Control.outcome).count out

/-- The same, of a state. -/
def State.Told (o : Options) (s : State) : Prop :=
  Workload.Told o.tracing (s.worker .control) (s.pc.owed .control) s.count
    (controls s.session.history)

section Told

variable {o : Options} {s s' : State} {r : Role} {W : Worker Closure}

/-- A call that is no control call. -/
theorem controls_quiet {S : Session} {c : Call} {resp : Response} {g : Graph}
    (hresp : ∀ selection, resp ≠ .controlled selection) :
    controls (S.after c resp g).history = controls S.history := by
  have hnone : controls [(c, resp)] = [] := by
    cases resp with
    | controlled selection => exact absurd rfl (hresp selection)
    | _ => rfl
  unfold controls at hnone ⊢
  rw [Session.after, List.filterMap_append, hnone, List.append_nil]

theorem State.Told.called {c : Call} {resp : Response} {g : Graph} (h : s.Told o)
    (hresp : ∀ selection, resp ≠ .controlled selection) : (s.called c resp g).Told o := by
  unfold State.Told
  rw [show controls (s.called c resp g).session.history = _ from controls_quiet hresp]
  exact h

/-- Another worker goes on. -/
theorem State.Told.setWorker (h : s.Told o) (hr : r ≠ .control) : (s.setWorker r W).Told o := by
  unfold State.Told
  rw [setWorker_of_ne s W hr.symm]
  exact h

theorem State.Told.goto {pc : Pc} (h : s.Told o) (hpc : pc.owed .control = s.pc.owed .control) :
    (s.goto pc).Told o := by
  unfold State.Told
  show Workload.Told _ _ (pc.owed .control) _ _
  rw [hpc]
  exact h

/-- A completion function that counts no outcome has returned. -/
theorem State.Told.returned {c : Closure} {todo : List Role} (h : s.Told o)
    (hpc : s.pc = .complete r c todo) (hc : c.outcome? = none) :
    (s.goto (.collect todo)).Told o := by
  unfold State.Told at h
  rw [hpc, Pc.owed] at h
  by_cases hr : Role.control = r
  · subst hr
    rw [Function.update_self] at h
    refine ⟨h.entries, ?_⟩
    intro out
    have hcount := h.counted out
    rw [List.singleton_append, List.filterMap_cons_none hc] at hcount
    exact hcount
  · rw [Function.update_of_ne hr] at h
    exact h

theorem count_tally (s : State) (selection : Control) (out : Outcome) :
    (s.tally selection).count out = s.count out + [selection.outcome].count out := by
  cases out <;> cases hsel : selection.outcome <;> simp [State.count, State.tally, hsel]

/-- The control worker's completion function counts its outcome. -/
theorem State.Told.tally {selection : Control} {todo : List Role} (h : s.Told o)
    (hacc : Account s) (hpc : s.pc = .complete r (.control selection) todo) :
    ((s.tally selection).goto (.collect todo)).Told o := by
  have hr : r = .control := by
    have hheld := hacc.held
    rw [hpc] at hheld
    have hfits := hheld.fits_owed
    cases r <;> first | rfl | exact hfits.elim
  subst hr
  unfold State.Told at h
  rw [hpc, Pc.owed, Function.update_self] at h
  refine ⟨h.entries, ?_⟩
  intro out
  have hcount := h.counted out
  show (s.tally selection).count out + _ = _
  rw [count_tally, Nat.add_assoc, ← List.count_append]
  exact hcount

theorem State.Told.collect {c : Closure} {todo : List Role} (h : s.Told o) (hacc : Account s)
    (hW : Written o s) (hcalm : s.pc.calm = true)
    (hc : (s.worker r).collect s.now = (W, some c)) :
    ((s.setWorker r W).goto (.complete r c todo)).Told o := by
  unfold State.Told at h
  rw [calm_owed hcalm] at h
  show Workload.Told _ ((s.setWorker r W).worker .control)
    (Function.update (fun _ => []) r [c] .control) _ _
  by_cases hr : Role.control = r
  · subst hr
    rw [worker_setWorker, Function.update_self, Function.update_self]
    obtain ⟨-, hclosures, -⟩ := (hacc.sound .control).collect hc
    refine ⟨?_, ?_⟩
    · intro htracing
      rw [((hacc.sound .control).collect_entries hc).2 ((hW .control).tracing.trans htracing)]
      exact h.entries htracing
    · have hcounted := h.counted
      rw [hclosures] at hcounted
      exact hcounted
  · rw [setWorker_of_ne s W hr, Function.update_of_ne hr]
    exact h

/-- A selection is made for the idle control worker, which takes it. -/
theorem Told.controlled {tracing : Bool} {count : Outcome → Nat} {selections : List Control}
    {selection : Control} {job : Job Closure} {h' : History}
    (h : Workload.Told tracing W [] count selections) (hidle : W.pending = false)
    (hjob : job.complete = .control selection)
    (hout : job.outcome = State.outcomeCode selection.outcome)
    (hcontrols : controls h' = selections ++ [selection]) :
    Workload.Told tracing (W.offer job) [] count (controls h') := by
  have hroom : W.queue.length ≠ Worker.capacity := by
    unfold Worker.pending at hidle
    simp only [Bool.or_eq_false_iff, Bool.not_eq_false', List.isEmpty_iff] at hidle
    rw [hidle.2]
    decide
  have hclosures : (W.offer job).closures = W.closures ++ [job.complete] :=
    congrArg Tally.closures (Worker.offer_room hroom)
  constructor
  case entries =>
      intro htracing
      rw [Worker.offer_room_entries hroom, hcontrols, List.map_append, List.map_append,
        h.entries htracing, List.map_singleton, List.map_singleton, hout]
  case counted =>
      intro out
      have hcount := h.counted out
      rw [hclosures, hcontrols, hjob, List.map_append, List.count_append, ← List.append_assoc,
        List.filterMap_append, List.count_append, ← Nat.add_assoc, hcount]
      rfl

/-- The loop over the hogs touches the workers alone. -/
theorem hogs_pool (hogs : List Role) (s : State) :
    ∃ pool, hogs.foldl State.offerHog s = { s with pool := pool } := by
  induction hogs generalizing s with
  | nil => exact ⟨s.pool, rfl⟩
  | cons r hogs ih =>
      obtain ⟨pool, hpool⟩ := ih (s.offerHog r)
      refine ⟨pool, ?_⟩
      rw [List.foldl_cons, hpool]
      unfold State.offerHog
      split <;> rfl

/-- The dispatcher's step. -/
theorem State.Told.turn (h : s.Told o) (hacc : Account s) (hW : Written o s)
    (hsafe : ¬ Fails s) (hs : Turn o s s') : s'.Told o := by
  cases hs with
  | goto hcalm hcalm' => exact h.goto (by rw [calm_owed hcalm, calm_owed hcalm'])
  | clock hpc => exact h.goto (by rw [hpc]; rfl)
  | collect hcalm hc => exact h.collect hacc hW hcalm hc
  | quiet hpc hc =>
      refine h.returned hpc ?_
      obtain rfl | ⟨snapshot, rfl⟩ := hc <;> rfl
  | tally hpc => exact h.tally hacc hpc
  | @offered r m todo b g hpc =>
      have hcalled : (s.called (.offer m s.now) (.offered b) g).Told o := h.called nofun
      exact hcalled.returned hpc rfl
  | @completed r b todo snapshot g hpc =>
      have hcalled : (s.called (.complete b.id s.now) (.completed snapshot) g).Told o :=
        h.called nofun
      exact hcalled.returned hpc rfl
  | @mapped r b todo snapshot m g hpc =>
      have hcalled : (s.called (.complete b.id s.now) (.completed snapshot) g).Told o :=
        h.called nofun
      exact (@State.Told.returned _ _ _ _ todo hcalled hpc rfl).setWorker (r := .mapping) nofun
  | hogs hpc =>
      have hcontrol : Role.control ∉ o.hogs := by
        intro hmem
        obtain h | h := mem_hogs hmem <;> cases h
      have hworker := hogs_worker (s := s) hcontrol
      obtain ⟨pool, hpool⟩ := hogs_pool o.hogs s
      rw [hpool] at hworker ⊢
      unfold State.Told at h ⊢
      rw [hpc] at h
      rw [← hworker] at h
      exact h
  | imu => exact h.setWorker (r := .imu) nofun
  | camera => exact h.setWorker (r := .camera) nofun
  | skip => exact ⟨h.entries, h.counted⟩
  | @controlled setpoint maxImuAge selection g hpc hdue hidle =>
      unfold State.Told at h
      rw [hpc] at h
      have hcontrols : controls (s.session.after (.control s.now setpoint maxImuAge)
          (.controlled selection) g).history = controls s.session.history ++ [selection] :=
        List.filterMap_append
      have hjob : (State.controlJob (s.control.id + 1) s.control.next selection).complete =
          .control selection := rfl
      have htold := h.controlled hidle hjob rfl hcontrols
      unfold State.Told
      show Workload.Told _ _ (s.pc.owed .control) _ _
      rw [hpc]
      exact htold
  | @nothing g pc hpc hok hcalm =>
      have howed : s.pc.owed = fun _ => [] := by rw [hpc]; rfl
      have hcalled : (s.called (.select s.now) (.selected none) g).Told o := h.called nofun
      exact hcalled.goto (by rw [calm_owed hcalm]; exact (congrFun howed _).symm)
  | @selected b m rest g burst pc hpc hidle hok hinputs hcalm =>
      have howed : s.pc.owed = fun _ => [] := by rw [hpc]; rfl
      have hcalled : (s.called (.select s.now) (.selected (some b)) g).Told o := h.called nofun
      have hoffer := hcalled.setWorker (r := .estimator) (W := ((s.worker .estimator).offer
        (State.estimatorJob o b m.sourceTime))) nofun
      have hidle' : pc.owed .control = s.pc.owed .control := by
        rw [calm_owed hcalm]
        exact (congrFun howed _).symm
      exact hoffer.goto hidle'
  | @dispatch r pc hcalm hcalm' =>
      have hdispatch : (s.setWorker r ((s.worker r).dispatch s.now)).Told o := by
        by_cases hr : r = .control
        · subst hr
          have hsound := hacc.sound .control
          refine ⟨?_, ?_⟩
          · intro htracing
            rw [worker_setWorker, Function.update_self, hsound.dispatch_entries]
            exact h.entries htracing
          · have hsame : ((s.worker .control).dispatch s.now).closures =
                (s.worker .control).closures :=
              congrArg Tally.closures (hsound.dispatch s.now).2
            rw [worker_setWorker, Function.update_self, hsame]
            exact h.counted
        · exact h.setWorker hr
      exact hdispatch.goto (by rw [calm_owed hcalm']; exact (congrFun (calm_owed hcalm) _).symm)
  | fail hfails => exact absurd hfails hsafe

end Told

/-! ## drained runs -/

section Rows

variable {o : Options} {s : State}

theorem step_written (o : Options) :
    Steps.Preserved (step o) fun s => (Account s ∧ Lawful s) ∧ Written o s ∧ s.Told o := by
  intro s a s' ⟨⟨hacc, hlawful⟩, hwritten, htold⟩ hs
  refine ⟨step_lawful o s a s' ⟨hacc, hlawful⟩ hs, ?_⟩
  cases a with
  | tick d =>
      rw [step] at hs
      split at hs <;> cases hs
      exact ⟨hwritten, htold⟩
  | thread r cpu =>
      rw [step] at hs
      obtain ⟨W, hW, rfl⟩ := Option.map_eq_some_iff.mp hs
      have hsound := hacc.sound r
      refine ⟨hwritten.setWorker (advance_own hW).1 ((hwritten r).advance hsound hW), ?_⟩
      by_cases hr : r = .control
      · subst hr
        have hsame : W.closures = (s.worker .control).closures :=
          congrArg Tally.closures (hsound.advance hW).2
        constructor
        case entries =>
            intro htracing
            rw [worker_setWorker, Function.update_self, hsound.advance_entries hW]
            exact htold.entries htracing
        case counted =>
            rw [worker_setWorker, Function.update_self, hsame]
            exact htold.counted
      · exact htold.setWorker hr
  | main =>
      have hsafe := hlawful.safe hacc
      have hturn := main_turn hs
      exact ⟨hwritten.turn hacc hsafe hturn, htold.turn hacc hwritten hsafe hturn⟩

theorem initial_written (o : Options) (start : Nat) :
    Written o (State.initial o start) ∧ (State.initial o start).Told o := by
  refine ⟨?_, fun _ => rfl, fun out => by cases out <;> rfl⟩
  intro r
  cases r <;> exact ⟨rfl, ⟨fun _ => rfl, fun _ => rfl⟩, List.Pairwise.nil, nofun⟩

theorem Reachable.written (h : Reachable o s) : Written o s ∧ s.Told o := by
  obtain ⟨start, as, hstart, hrun⟩ := h
  exact ((step_written o).exec ⟨⟨initial_account o start, initial_lawful o hstart⟩,
    initial_written o start⟩ hrun).2

/-- What the trace says against the counters. -/
structure Recorded (s : State) : Prop where
  distinct : ∀ r, ((s.worker r).traces.map Trace.id).Nodup
  count : ∀ r, (s.worker r).traces.length = (s.worker r).completed
  ordered : ∀ r, ∀ row ∈ (s.worker r).traces, row.Ordered
  late : ∀ r, (s.worker r).traces.countP (fun row => decide (row.deadline < row.finish)) =
    (s.worker r).late
  /-- The outcomes the graph answered, in the order of the selections. -/
  outcomes : (s.worker .control).traces.map Trace.outcome =
    (controls s.session.history).map fun c => State.outcomeCode c.outcome
  tallied : ∀ out, s.count out =
    ((s.worker .control).traces.map Trace.outcome).count (State.outcomeCode out)

theorem outcomeCode_inj : Function.Injective State.outcomeCode := by
  intro a b h
  cases a <;> cases b <;> first | rfl | cases h

/-- **Traces**: behind the `break` of a run with a trace, each worker's rows
are its completed jobs, and the control rows are what was counted. -/
theorem drained_traces (h : Reachable o s) (hdone : s.pc = .done) (htracing : o.tracing = true) :
    Recorded s := by
  obtain ⟨hacc, hlawful⟩ := h.lawful
  obtain ⟨hwritten, htold⟩ := h.written
  obtain ⟨-, hidle, -⟩ := h.invariants.2.2 hdone
  have htraced : ∀ r, (s.worker r).tracing = true := fun r => (hwritten r).tracing.trans htracing
  have hnone : (s.worker .control).closures = [] :=
    (hacc.sound .control).pending_eq_false.mp (hidle .control (by simp [Options.workers]))
  have hentries : (s.worker .control).entries.map Prod.snd =
      (s.worker .control).traces.map Trace.outcome := by
    have hjobs : (s.worker .control).outstanding ++ (s.worker .control).queue = [] :=
      List.map_eq_nil_iff.mp hnone
    rw [Worker.entries, hjobs]
    simp
  have houtcomes : (s.worker .control).traces.map Trace.outcome =
      (controls s.session.history).map fun c => State.outcomeCode c.outcome :=
    hentries.symm.trans (htold.entries htracing)
  constructor
  case distinct =>
      intro r
      have hpairs := (hwritten r).numbered.ascending
      rw [Worker.entries, List.map_append, List.map_map] at hpairs
      exact (List.pairwise_append.mp hpairs).1.imp Nat.ne_of_lt
  case count => exact fun r => (hwritten r).rowed.count (htraced r)
  case ordered => exact fun r => (hlawful.workers r).traces
  case late => exact fun r => (hwritten r).rowed.late (htraced r)
  case outcomes => exact houtcomes
  case tallied =>
      intro out
      have hcount := htold.counted out
      rw [hdone, hnone] at hcount
      have hcodes : (controls s.session.history).map (fun c => State.outcomeCode c.outcome) =
          ((controls s.session.history).map Control.outcome).map State.outcomeCode := by
        rw [List.map_map]
        rfl
      rw [houtcomes, hcodes, List.count_map_of_injective _ _ outcomeCode_inj]
      exact hcount

end Rows

/-- A second with a trace. -/
def tracedOptions : Options where
  seconds := 1
  hogCount := 0
  scenario := .nominal
  tracing := true
  seconds_pos := tourOptions.seconds_pos
  seconds_le := tourOptions.seconds_le

def tracedEnd : State := drive tracedOptions 1700 (State.initial tracedOptions 0)

theorem drained_traces_second :
    (tracedEnd.worker .control).traces.length = (tracedEnd.worker .control).completed ∧
      ((tracedEnd.worker .imu).traces.map Trace.id).Nodup := by
  have hreachable : Reachable tracedOptions tracedEnd := by
    obtain ⟨as, has⟩ := drive_exec tracedOptions 1700 (State.initial tracedOptions 0)
    exact ⟨0, as, by decide, has⟩
  have hdone : tracedEnd.pc = .done := by decide +kernel
  have hrecorded := drained_traces hreachable hdone rfl
  exact ⟨hrecorded.count .control, hrecorded.distinct .imu⟩

end ScxSlam.Workload
