import ScxSlam.Workload.Safety

/-!
# ScxSlam.Workload.Remaining

What the dispatch loop of `dependent_workload` still has to do.

Behind the window nothing is released any more, and what is left to do
(`State.remaining`) is a number that every step keeps or makes smaller: a job
comes nearer to its completion function, a measurement to its batch, a batch to
its mapping update.  A step of the dispatcher that keeps it has found nothing to
do, and changes nothing but its place in the loop.
-/

namespace ScxSlam.Workload

open DependentGraph

/-! ## what is left to do -/

/-- The steps of the thread that a job still needs. -/
def Activity.rest {κ : Type} : Activity κ → Nat
  | .waiting => 0
  | .taken _ => 4
  | .compute .. => 3
  | .measured _ => 2

/-- The steps that the jobs of a worker need until they are collected. -/
def Worker.rest {κ : Type} (W : Worker κ) : Nat :=
  6 * W.queue.length + 5 * W.slot.toList.length + W.thread.rest + W.result.toList.length

/-- What the completion function of a job may lead to. -/
def Role.weight : Role → Nat
  | .imu | .camera => 16
  | .estimator => 8
  | _ => 1

/-- The jobs of a worker, the one whose completion function is called
included. -/
def State.effort (s : State) (r : Role) : Nat :=
  (s.worker r).rest + r.weight * ((s.pc.owed r).length + (s.worker r).closures.length)

/-- A sum over the workers. -/
def overRoles (f : Role → Nat) : Nat :=
  f .imu + f .camera + f .estimator + f .control + f .mapping + f .hog0 + f .hog1

/-- What the graph holds back. -/
def State.waiting (s : State) : Nat :=
  (s.session.graph.inbox.get .imu).length + (s.session.graph.inbox.get .camera).length

/-- The releases that are still to come. -/
def State.releases (o : Options) (s : State) : Nat :=
  23 * (200 * o.seconds - s.imu.id) + 23 * (20 * o.seconds - s.camera.id) +
    8 * (100 * o.seconds - s.control.id)

def State.remaining (o : Options) (s : State) : Nat :=
  overRoles s.effort + 15 * s.waiting + s.releases o

section Workers

variable {κ : Type} {W W' : Worker κ} {job : Job κ} {c : κ} {now cpu : Nat}

namespace Worker

theorem rest_offer (W : Worker κ) (job : Job κ) : (W.offer job).rest ≤ W.rest + 6 ∧
    (W.offer job).closures.length ≤ W.closures.length + 1 := by
  unfold Worker.offer
  split
  · exact ⟨Nat.le_add_right _ _, Nat.le_add_right _ _⟩
  · refine ⟨?_, ?_⟩
    · simp [rest]
      omega
    · simp [closures, outstanding]
      omega

/-- The thread has come nearer to its result. -/
theorem Sound.rest_advance (h : W.Sound) (ha : W.advance now cpu = some W') :
    W'.rest + 1 = W.rest ∧ W'.closures.length = W.closures.length := by
  have hclosures : W'.closures = W.closures := congrArg Tally.closures (h.advance ha).2
  refine ⟨?_, by rw [hclosures]⟩
  obtain ⟨job, hthread, hslot, rfl⟩ | ⟨job, hthread, rfl⟩ | ⟨job, start, hthread, rfl⟩ |
    ⟨r, hthread, rfl⟩ := advance_cases ha
  · simp [rest, hthread, hslot, Activity.rest]
    omega
  · simp [rest, hthread, Activity.rest]
    omega
  · simp [rest, hthread, Activity.rest]
    omega
  · have hresult : W.result = none := (h.of_thread (by rw [hthread]; rfl)).2
    simp [rest, hthread, hresult, Activity.rest]

/-- A result is collected. -/
theorem Sound.rest_collect (h : W.Sound) (hc : W.collect now = (W', some c)) :
    W'.rest + 1 = W.rest ∧ W'.closures.length + 1 = W.closures.length := by
  obtain ⟨-, hclosures, -⟩ := h.collect hc
  refine ⟨?_, by rw [hclosures, List.length_cons]⟩
  obtain ⟨r, hr, -, rfl⟩ := collect_some hc
  simp [rest, hr]

/-- A job is handed over, or there is none, or the worker is busy. -/
theorem Sound.rest_dispatch (h : W.Sound) (now : Nat) :
    (W.dispatch now = W ∧ (W.busy = true ∨ W.queue = [])) ∨
      ((W.dispatch now).rest + 1 = W.rest ∧
        (W.dispatch now).closures.length = W.closures.length) := by
  have hclosures : (W.dispatch now).closures = W.closures :=
    congrArg Tally.closures (h.dispatch now).2
  cases hbusy : W.busy with
  | true => exact .inl ⟨by rw [Worker.dispatch, if_pos hbusy], .inl rfl⟩
  | false =>
      cases hqueue : W.queue with
      | nil => exact .inl ⟨by simp [Worker.dispatch, hqueue], .inr rfl⟩
      | cons j rest =>
          obtain ⟨hslot, -, -⟩ := h.holds_none hbusy
          refine .inr ⟨?_, by rw [hclosures]⟩
          simp [Worker.dispatch, hbusy, hqueue, Worker.rest, hslot]
          omega

end Worker

end Workers

section Roles

variable {o : Options} {s s' : State} {r : Role} {W : Worker Closure} {pc : Pc} {c : Closure}
  {todo : List Role} {job : Job Closure}

/-- One worker's part of a sum changes. -/
theorem overRoles_of_eq {f g : Role → Nat} (h : ∀ q, q ≠ r → g q = f q) :
    overRoles g + f r = overRoles f + g r := by
  unfold overRoles
  cases r <;> simp [h] <;> omega

theorem effort_setWorker_of_ne {q : Role} (W : Worker Closure) (hq : q ≠ r) :
    (s.setWorker r W).effort q = s.effort q := by
  unfold State.effort
  rw [setWorker_of_ne s W hq]
  rfl

theorem effort_setWorker (s : State) (r : Role) (W : Worker Closure) :
    (s.setWorker r W).effort r =
      W.rest + r.weight * ((s.pc.owed r).length + W.closures.length) := by
  unfold State.effort
  rw [worker_setWorker, Function.update_self]
  rfl

/-- One worker goes on. -/
theorem overRoles_setWorker (s : State) (r : Role) (W : Worker Closure) :
    overRoles (s.setWorker r W).effort + s.effort r =
      overRoles s.effort + (s.setWorker r W).effort r :=
  overRoles_of_eq fun _ hq => effort_setWorker_of_ne W hq

/-- No completion function is called. -/
theorem overRoles_goto (hpc : ∀ r, (pc.owed r).length = (s.pc.owed r).length) :
    overRoles (s.goto pc).effort = overRoles s.effort := by
  have heffort : (s.goto pc).effort = s.effort := by
    funext r
    show _ + _ * ((pc.owed r).length + _) = _ + _ * (_ + _)
    rw [hpc r]
    rfl
  rw [heffort]

/-- A job is offered. -/
theorem overRoles_offerTo (s : State) (r : Role) (job : Job Closure) :
    overRoles (s.offerTo r job).effort ≤ overRoles s.effort + 6 + r.weight := by
  have hsum := overRoles_setWorker s r ((s.worker r).offer job)
  rw [effort_setWorker] at hsum
  obtain ⟨hrest, hclosures⟩ := Worker.rest_offer (s.worker r) job
  have hmul := Nat.mul_le_mul_left r.weight (Nat.add_le_add_left hclosures (s.pc.owed r).length)
  have heffort : s.effort r = (s.worker r).rest +
      r.weight * ((s.pc.owed r).length + (s.worker r).closures.length) := rfl
  rw [← Nat.add_assoc, Nat.mul_add _ _ 1, Nat.mul_one] at hmul
  show overRoles (s.setWorker r _).effort ≤ _
  omega

/-- A completion function has returned. -/
theorem overRoles_returned (hpc : s.pc = .complete r c todo) :
    overRoles (s.goto (.collect todo)).effort + r.weight = overRoles s.effort := by
  have hother : ∀ q, q ≠ r → (s.goto (.collect todo)).effort q = s.effort q := by
    intro q hq
    unfold State.effort
    rw [hpc, Pc.owed, Function.update_of_ne hq]
    rfl
  have hsum := overRoles_of_eq (f := s.effort) hother
  have hold : s.effort r = (s.worker r).rest + r.weight * (1 + (s.worker r).closures.length) := by
    unfold State.effort
    rw [hpc, Pc.owed, Function.update_self]
    rfl
  have hnew : (s.goto (.collect todo)).effort r =
      (s.worker r).rest + r.weight * (0 + (s.worker r).closures.length) := rfl
  rw [Nat.mul_add, Nat.mul_one] at hold
  rw [Nat.mul_add, Nat.mul_zero] at hnew
  omega

theorem weight_pos (r : Role) : 0 < r.weight := by
  cases r <;> decide

/-- A job has come nearer to its end, on whatever side. -/
theorem overRoles_lt_of_worker (hrest : W.rest + 1 = (s.worker r).rest)
    (hclosures : W.closures.length = (s.worker r).closures.length) :
    overRoles (s.setWorker r W).effort + 1 = overRoles s.effort := by
  have hsum := overRoles_setWorker s r W
  rw [effort_setWorker, hclosures] at hsum
  have heffort : s.effort r = (s.worker r).rest +
      r.weight * ((s.pc.owed r).length + (s.worker r).closures.length) := rfl
  omega

/-- A result is collected, and its completion function is called. -/
theorem overRoles_collected (hcalm : s.pc.calm = true) (hrest : W.rest + 1 = (s.worker r).rest)
    (hclosures : W.closures.length + 1 = (s.worker r).closures.length) :
    overRoles ((s.setWorker r W).goto (.complete r c todo)).effort + 1 = overRoles s.effort := by
  have howed : s.pc.owed = fun _ => [] := calm_owed hcalm
  have hother : ∀ q, q ≠ r →
      ((s.setWorker r W).goto (.complete r c todo)).effort q = s.effort q := by
    intro q hq
    have hnone : (Pc.complete r c todo).owed q = [] := by
      rw [Pc.owed, Function.update_of_ne hq]
    show ((s.setWorker r W).worker q).rest +
      q.weight * (((Pc.complete r c todo).owed q).length + _) = _
    rw [hnone, State.effort, howed]
    show ((s.setWorker r W).worker q).rest +
      _ * (_ + ((s.setWorker r W).worker q).closures.length) = _
    rw [setWorker_of_ne s W hq]
  have hsum := overRoles_of_eq (f := s.effort) hother
  have hone : (Pc.complete r c todo).owed r = [c] := by
    rw [Pc.owed, Function.update_self]
  have hnew : ((s.setWorker r W).goto (.complete r c todo)).effort r =
      W.rest + r.weight * (1 + W.closures.length) := by
    show ((s.setWorker r W).worker r).rest + r.weight * (((Pc.complete r c todo).owed r).length +
      ((s.setWorker r W).worker r).closures.length) = _
    rw [hone, worker_setWorker, Function.update_self]
    rfl
  have hold : s.effort r = (s.worker r).rest + r.weight * (0 + (s.worker r).closures.length) := by
    rw [State.effort, howed]
    rfl
  rw [← hclosures, Nat.zero_add, Nat.add_comm _ 1] at hold
  omega

end Roles

/-! ## a step of the dispatcher -/

/-- A step of the dispatcher that finds nothing to do. -/
inductive Coast (o : Options) (s : State) : State → Prop
  | collect {r : Role} {todo : List Role} (hpc : s.pc = .collect (r :: todo))
      (hnone : (s.worker r).result = none) : Coast o s (s.goto (.collect todo))
  | collected (hpc : s.pc = .collect []) : Coast o s (s.goto .clock)
  | clock (hpc : s.pc = .clock) : Coast o s ({ s with t := s.now }.goto .hogs)
  | hogs (hpc : s.pc = .hogs) : Coast o s (s.goto .imu)
  | imu (hpc : s.pc = .imu) : Coast o s (s.goto .camera)
  | camera (hpc : s.pc = .camera) : Coast o s (s.goto .control)
  | control (hpc : s.pc = .control) : Coast o s (s.goto .estimator)
  | busy (hpc : s.pc = .estimator) (hpending : (s.worker .estimator).pending = true) :
      Coast o s (s.goto (.dispatch o.workers))
  | nothing {g : Graph} (hpc : s.pc = .estimator)
      (hempty : ∀ i, s.session.graph.inbox.get i = []) (hinbox : g.inbox = s.session.graph.inbox) :
      Coast o s ((s.called (.select s.now) (.selected none) g).goto (.dispatch o.workers))
  | dispatch {r : Role} {todo : List Role} (hpc : s.pc = .dispatch (r :: todo))
      (hidle : (s.worker r).busy = true ∨ (s.worker r).queue = []) :
      Coast o s (s.goto (.dispatch todo))
  | dispatched (hpc : s.pc = .dispatch []) : Coast o s (s.goto .exit)
  | again (hpc : s.pc = .exit)
      (hstay : ¬(s.finish ≤ s.t ∧ (o.workers.any fun r => (s.worker r).pending) = false ∧
        s.drained .imu = true ∧ s.drained .camera = true)) : Coast o s (s.goto (.collect o.workers))
  | leave (hpc : s.pc = .exit) : Coast o s (s.goto .done)

section Main

variable {o : Options} {s s' : State} {r : Role} {todo : List Role} {c : Closure}

theorem setWorker_self (s : State) (r : Role) : s.setWorker r (s.worker r) = s := by
  have hsame : s.pool.set r (s.pool.get r) = s.pool := by cases r <;> rfl
  rw [State.setWorker, State.worker, hsame]

theorem remaining_collect (hacc : Account s) (hpc : s.pc = .collect todo) :
    Coast o s (s.collectStep todo) ∨ (s.collectStep todo).remaining o < s.remaining o := by
  cases todo with
  | nil => exact .inl (.collected hpc)
  | cons r todo =>
      simp only [State.collectStep]
      split
      · next W hc =>
        have hnone : (s.worker r).result = none := by
          unfold Worker.collect at hc
          split at hc
          · assumption
          · cases hc
        rw [Worker.eq_of_collect_none hc, setWorker_self]
        exact .inl (.collect hpc hnone)
      · next W c hc =>
        right
        obtain ⟨hrest, hclosures⟩ := (hacc.sound r).rest_collect hc
        have hsum : overRoles ((s.setWorker r W).goto (.complete r c todo)).effort + 1 =
            overRoles s.effort := overRoles_collected (by rw [hpc]; rfl) hrest hclosures
        show overRoles _ + 15 * s.waiting + s.releases o <
          overRoles _ + 15 * s.waiting + s.releases o
        omega

theorem remaining_complete (hacc : Account s) (hsafe : ¬Fails s) (hpc : s.pc = .complete r c todo) :
    (s.completeStep c todo).remaining o < s.remaining o := by
  have hreturned := overRoles_returned hpc
  have hpos := weight_pos r
  have hheld := hacc.held
  rw [hpc] at hheld
  have hplain : ((s.goto (.collect todo)).remaining o) < s.remaining o := by
    show overRoles _ + 15 * s.waiting + s.releases o < overRoles _ + 15 * s.waiting + s.releases o
    omega
  cases c with
  | hog | mapping snapshot => exact hplain
  | control selection => exact hplain
  | offer m =>
      obtain ⟨i, -, hr⟩ := Held.lane hheld
      have hweight : r.weight = 16 := by
        rw [hr]
        cases i <;> rfl
      unfold State.completeStep State.call
      cases hok : s.session.graph.offer m s.now with
      | error what => exact absurd (.offer hpc hok) hsafe
      | ok p =>
          obtain ⟨b, g⟩ := p
          simp only [Graph.call, hok, Graph.respond]
          have hwaiting : (s.called (.offer m s.now) (.offered b) g).waiting ≤ s.waiting + 1 := by
            obtain ⟨j, -, -, -, ⟨-, -, rfl⟩ | ⟨-, -, rfl⟩⟩ := offer_ok hok
            · exact Nat.le_succ _
            · cases j <;>
                simp [State.called, State.waiting, Session.after, Lanes.set, Lanes.get] <;>
                omega
          show overRoles (s.goto (.collect todo)).effort +
            15 * (s.called (.offer m s.now) (.offered b) g).waiting + s.releases o <
              overRoles _ + 15 * s.waiting + s.releases o
          omega
  | estimator b =>
      obtain ⟨hr, -, -⟩ := Held.running hheld
      subst hr
      have hweight : Role.estimator.weight = 8 := rfl
      obtain ⟨hrun, hknown⟩ := hacc.owner hpc
      have hgraph : ∀ snapshot g, s.session.graph.complete b.id s.now = .ok (snapshot, g) →
          (s.called (.complete b.id s.now) (.completed snapshot) g).waiting = s.waiting := by
        intro snapshot g hok
        obtain ⟨b', hb', -, -, hk⟩ := complete_ok hok
        cases hrun.symm.trans hb'
        obtain ⟨-, acc, rfl, -⟩ := hk hknown
        rfl
      unfold State.completeStep State.call
      cases hok : s.session.graph.complete b.id s.now with
      | error what => exact absurd (.complete hpc hok) hsafe
      | ok p =>
          obtain ⟨snapshot, g⟩ := p
          have hwaiting := hgraph snapshot g hok
          simp only [Graph.call, hok, Graph.respond]
          cases hcamera : hasCamera b with
          | false =>
              show overRoles (s.goto (.collect todo)).effort +
                15 * (s.called (.complete b.id s.now) (.completed snapshot) g).waiting +
                  s.releases o < overRoles _ + 15 * s.waiting + s.releases o
              omega
          | true =>
              cases hm : snapshot.camera with
              | none => exact absurd (.camera hpc hok hcamera hm) hsafe
              | some m =>
                  have hmapping : Role.mapping.weight = 1 := rfl
                  have hoffer := overRoles_offerTo (s.goto (.collect todo)) .mapping
                    (State.mappingJob snapshot m)
                  show overRoles ((s.goto (.collect todo)).offerTo .mapping
                    (State.mappingJob snapshot m)).effort +
                      15 * (s.called (.complete b.id s.now) (.completed snapshot) g).waiting +
                        s.releases o < overRoles _ + 15 * s.waiting + s.releases o
                  omega

theorem remaining_imu (hfed : Fed o s) (hpc : s.pc = .imu) :
    Coast o s s.imuStep ∨ s.imuStep.remaining o < s.remaining o := by
  unfold State.imuStep
  split
  · next hdue =>
    right
    have hleft : s.imu.id + 1 ≤ 200 * o.seconds := (hfed.imu.tick hfed.periods.1 hdue).bounded
    have hweight : Role.imu.weight = 16 := rfl
    have hoffer := overRoles_offerTo s .imu
      (State.sensorJob ⟨.imu, s.imu.id + 1, s.imu.next⟩ (5 * ms) 150000)
    show overRoles (s.offerTo .imu (State.sensorJob _ _ _)).effort + 15 * s.waiting +
      (23 * (200 * o.seconds - (s.imu.id + 1)) + 23 * (20 * o.seconds - s.camera.id) +
        8 * (100 * o.seconds - s.control.id)) <
      overRoles s.effort + 15 * s.waiting + (23 * (200 * o.seconds - s.imu.id) +
        23 * (20 * o.seconds - s.camera.id) + 8 * (100 * o.seconds - s.control.id))
    omega
  · exact .inl (.imu hpc)

theorem remaining_camera (hfed : Fed o s) (hpc : s.pc = .camera) :
    Coast o s s.cameraStep ∨ s.cameraStep.remaining o < s.remaining o := by
  unfold State.cameraStep
  split
  · next hdue =>
    right
    have hleft : s.camera.id + 1 ≤ 20 * o.seconds :=
      (hfed.camera.tick hfed.periods.2.1 hdue).bounded
    have hweight : Role.camera.weight = 16 := rfl
    have hoffer := overRoles_offerTo s .camera
      (State.sensorJob ⟨.camera, s.camera.id + 1, s.camera.next⟩ (33 * ms) (4 * ms))
    show overRoles (s.offerTo .camera (State.sensorJob _ _ _)).effort + 15 * s.waiting +
      (23 * (200 * o.seconds - s.imu.id) + 23 * (20 * o.seconds - (s.camera.id + 1)) +
        8 * (100 * o.seconds - s.control.id)) <
      overRoles s.effort + 15 * s.waiting + (23 * (200 * o.seconds - s.imu.id) +
        23 * (20 * o.seconds - s.camera.id) + 8 * (100 * o.seconds - s.control.id))
    omega
  · exact .inl (.camera hpc)

theorem remaining_control (hfed : Fed o s) (hsafe : ¬Fails s) (hpc : s.pc = .control) :
    Coast o s s.controlStep ∨ s.controlStep.remaining o < s.remaining o := by
  unfold State.controlStep
  split
  · next hdue =>
    right
    have hleft : s.control.id + 1 ≤ 100 * o.seconds :=
      (hfed.control.tick hfed.periods.2.2 hdue).bounded
    have hweight : Role.control.weight = 1 := rfl
    split
    · have hskip : overRoles s.skipControl.effort = overRoles s.effort := by
        have hsum := overRoles_setWorker s .control
          { s.worker .control with
            offered := (s.worker .control).offered + 1
            dropped := (s.worker .control).dropped + 1 }
        rw [effort_setWorker] at hsum
        exact Nat.add_right_cancel hsum
      show overRoles s.skipControl.effort + 15 * s.waiting +
        (23 * (200 * o.seconds - s.imu.id) + 23 * (20 * o.seconds - s.camera.id) +
          8 * (100 * o.seconds - (s.control.id + 1))) <
        overRoles s.effort + 15 * s.waiting + (23 * (200 * o.seconds - s.imu.id) +
          23 * (20 * o.seconds - s.camera.id) + 8 * (100 * o.seconds - s.control.id))
      omega
    · unfold State.call
      cases hok : s.session.graph.control s.now ((s.control.id + 1) / 100) (20 * ms) with
      | error what => exact absurd (.control hpc hok) hsafe
      | ok p =>
          obtain ⟨selection, g⟩ := p
          have hinbox : g.inbox = s.session.graph.inbox := by
            obtain ⟨-, rfl, -⟩ := control_ok hok
            rfl
          simp only [Graph.call, hok, Graph.respond]
          have hoffer := overRoles_offerTo s .control
            (State.controlJob (s.control.id + 1) s.control.next selection)
          show overRoles (s.offerTo .control (State.controlJob _ _ _)).effort +
            15 * ((g.inbox.get .imu).length + (g.inbox.get .camera).length) +
              (23 * (200 * o.seconds - s.imu.id) + 23 * (20 * o.seconds - s.camera.id) +
                8 * (100 * o.seconds - (s.control.id + 1))) <
            overRoles s.effort + 15 * ((s.session.graph.inbox.get .imu).length +
              (s.session.graph.inbox.get .camera).length) +
              (23 * (200 * o.seconds - s.imu.id) + 23 * (20 * o.seconds - s.camera.id) +
                8 * (100 * o.seconds - s.control.id))
          rw [hinbox]
          omega
  · exact .inl (.control hpc)

/-- What is selected leaves the inboxes. -/
theorem fill_waiting {n : Nat} {inbox : Lanes (List Measurement)} (hs : Sorted inbox)
    (hne : (fill n inbox).1 ≠ []) :
    ((fill n inbox).2.get .imu).length + ((fill n inbox).2.get .camera).length + 1 ≤
      (inbox.get .imu).length + (inbox.get .camera).length := by
  obtain ⟨hparts, -, hknown⟩ := fill_spec n hs
  obtain ⟨m, hm⟩ := List.exists_mem_of_ne_nil _ hne
  obtain ⟨i, hi⟩ := hknown m hm
  have hpos : 0 < (on i (fill n inbox).1).length :=
    List.length_pos_of_mem (List.mem_filter.mpr ⟨hm, by simpa using hi⟩)
  have himu := congrArg List.length (hparts .imu)
  have hcamera := congrArg List.length (hparts .camera)
  rw [List.length_append] at himu hcamera
  cases i <;> omega

theorem remaining_estimator (hacc : Account s) (hsafe : ¬Fails s) (hpc : s.pc = .estimator) :
    Coast o s (s.estimatorStep o) ∨ (s.estimatorStep o).remaining o < s.remaining o := by
  unfold State.estimatorStep
  split
  · next hpending => exact .inl (.busy hpc hpending)
  · next hpending =>
    have hidle : (s.worker .estimator).closures = [] :=
      (hacc.sound .estimator).pending_eq_false.mp (by simpa using hpending)
    have hnone : s.session.graph.running = none := by
      have he := hacc.held.estimator
      have howed : s.pc.owed .estimator = [] := by
        rw [hpc]
        rfl
      rw [howed, List.nil_append] at he
      have hmap := he.symm.trans hidle
      cases hrun : s.session.graph.running with
      | none => rfl
      | some b =>
          rw [hrun] at hmap
          cases hmap
    unfold State.call
    cases hok : s.session.graph.select s.now with
    | error what => exact absurd (.select hpc hok) hsafe
    | ok p =>
        obtain ⟨b, g⟩ := p
        simp only [Graph.call, hok, Graph.respond]
        obtain ⟨-, ⟨rfl, ⟨hrun, -⟩ | ⟨-, hnil, rfl⟩⟩ | ⟨-, hne, rfl, rfl⟩⟩ := select_ok hok
        · rw [hnone] at hrun
          cases hrun
        · obtain ⟨hlimit, hzero⟩ := hacc.held.books.sameLimit
          obtain ⟨hempty, hkept⟩ := fill_eq_nil (hlimit ▸ hzero) hnil
          exact .inl (.nothing hpc hempty hkept)
        · right
          have hwaiting := fill_waiting hacc.held.books.sorted hne
          cases hin : (fill s.session.graph.limit s.session.graph.inbox).1 with
          | nil => exact absurd hin hne
          | cons m rest =>
              let b : Batch := ⟨s.session.graph.nextBatch, m :: rest⟩
              have hweight : Role.estimator.weight = 8 := rfl
              have hoffer := overRoles_offerTo s .estimator
                (State.estimatorJob o b m.sourceTime)
              have hgoto : overRoles ((s.offerTo .estimator
                  (State.estimatorJob o b m.sourceTime)).goto (.dispatch o.workers)).effort =
                    overRoles (s.offerTo .estimator
                      (State.estimatorJob o b m.sourceTime)).effort :=
                overRoles_goto fun r => by
                  show _ = (s.pc.owed r).length
                  rw [hpc]
                  rfl
              show overRoles ((s.offerTo .estimator
                (State.estimatorJob o b m.sourceTime)).goto (.dispatch o.workers)).effort +
                  15 * (((fill s.session.graph.limit s.session.graph.inbox).2.get .imu).length +
                    ((fill s.session.graph.limit s.session.graph.inbox).2.get .camera).length) +
                  s.releases o <
                overRoles s.effort + 15 * ((s.session.graph.inbox.get .imu).length +
                  (s.session.graph.inbox.get .camera).length) + s.releases o
              omega

theorem remaining_dispatch (hacc : Account s) (hpc : s.pc = .dispatch todo) :
    Coast o s (s.dispatchStep todo) ∨ (s.dispatchStep todo).remaining o < s.remaining o := by
  cases todo with
  | nil => exact .inl (.dispatched hpc)
  | cons r todo =>
      rw [State.dispatchStep]
      obtain ⟨hsame, hidle⟩ | ⟨hrest, hclosures⟩ := (hacc.sound r).rest_dispatch s.now
      · rw [hsame, setWorker_self]
        exact .inl (.dispatch hpc hidle)
      · right
        have hsum := overRoles_lt_of_worker hrest hclosures
        have hgoto : overRoles ((s.setWorker r ((s.worker r).dispatch s.now)).goto
            (.dispatch todo)).effort =
              overRoles (s.setWorker r ((s.worker r).dispatch s.now)).effort :=
          overRoles_goto fun q => by
            show _ = (s.pc.owed q).length
            rw [hpc]
            rfl
        show overRoles ((s.setWorker r ((s.worker r).dispatch s.now)).goto
          (.dispatch todo)).effort + 15 * s.waiting + s.releases o <
            overRoles s.effort + 15 * s.waiting + s.releases o
        omega

/-- **Inversion**: behind the window a step of the dispatcher gets something
done or finds nothing to do. -/
theorem main_coasts (hacc : Account s) (hlawful : Lawful s) (hfed : Fed o s)
    (hbehind : s.finish ≤ s.t) (hs : s.mainStep o = some s') :
    Coast o s s' ∨ s'.remaining o < s.remaining o := by
  have hsafe := hlawful.safe hacc
  cases hpc : s.pc <;> rw [State.mainStep, hpc] at hs <;> cases hs
  case collect todo => exact remaining_collect hacc hpc
  case complete r c todo => exact .inr (remaining_complete hacc hsafe hpc)
  case clock => exact .inl (.clock hpc)
  case hogs =>
      rw [State.hogsStep, if_neg fun h => absurd h.2 (Nat.not_lt.mpr hbehind)]
      exact .inl (.hogs hpc)
  case imu => exact remaining_imu hfed hpc
  case camera => exact remaining_camera hfed hpc
  case control => exact remaining_control hfed hsafe hpc
  case estimator => exact remaining_estimator hacc hsafe hpc
  case dispatch todo => exact remaining_dispatch hacc hpc
  case exit =>
      simp only [State.exitStep]
      split
      · exact .inl (.leave hpc)
      · next hstay => exact .inl (.again hpc hstay)

/-- Nothing but the place in the loop changes. -/
theorem Coast.keeps (h : Coast o s s') : s'.remaining o = s.remaining o ∧ s'.pool = s.pool ∧
    s'.session.graph.inbox = s.session.graph.inbox := by
  have hgoto : ∀ pc, s.pc.calm = true → pc.calm = true →
      (s.goto pc).remaining o = s.remaining o := by
    intro pc hcalm hcalm'
    have hsum : overRoles (s.goto pc).effort = overRoles s.effort :=
      overRoles_goto fun r => by rw [calm_owed hcalm, calm_owed hcalm']
    show overRoles (s.goto pc).effort + 15 * s.waiting + s.releases o = _
    rw [hsum]
    rfl
  cases h with
  | collect hpc _ | collected hpc | clock hpc | hogs hpc | imu hpc | camera hpc | control hpc
  | busy hpc _ | dispatch hpc _ | dispatched hpc | again hpc _ | leave hpc =>
      exact ⟨hgoto _ (by rw [hpc]; rfl) rfl, rfl, rfl⟩
  | @nothing g hpc _ hinbox =>
      have hsame := hgoto (.dispatch o.workers) (by rw [hpc]; rfl) rfl
      refine ⟨?_, rfl, hinbox⟩
      rw [← hsame]
      show _ + 15 * ((g.inbox.get .imu).length + (g.inbox.get .camera).length) + _ = _
      rw [hinbox]
      rfl

/-- What every step keeps. -/
structure Going (o : Options) (s : State) : Prop where
  account : Account s
  lawful : Lawful s
  fed : Fed o s

theorem step_going (o : Options) : Steps.Preserved (step o) (Going o) := by
  intro s a s' h hs
  obtain ⟨hacc, hlawful⟩ := step_lawful o s a s' ⟨h.account, h.lawful⟩ hs
  exact ⟨hacc, hlawful, step_fed o s a s' h.fed hs⟩

theorem Reachable.going (h : Reachable o s) : Going o s :=
  ⟨h.lawful.1, h.lawful.2, h.invariants.2.1⟩

/-- A step of a thread gets a job nearer to its result. -/
theorem remaining_thread {cpu : Nat} {W : Worker Closure} (hacc : Account s)
    (ha : (s.worker r).advance s.now cpu = some W) :
    (s.setWorker r W).remaining o < s.remaining o := by
  obtain ⟨hrest, hclosures⟩ := (hacc.sound r).rest_advance ha
  have hsum := overRoles_lt_of_worker hrest hclosures
  show overRoles (s.setWorker r W).effort + 15 * s.waiting + s.releases o <
    overRoles s.effort + 15 * s.waiting + s.releases o
  omega

/-- **Step**: behind the window every step gets something done, or is a tick, or
a step of the dispatcher that finds nothing to do. -/
theorem step_remaining {a : Action} (h : Going o s) (hbehind : s.finish ≤ s.t)
    (hs : step o s a = some s') :
    s'.remaining o < s.remaining o ∨ (∃ d, a = .tick d ∧ s' = { s with now := s.now + d }) ∨
      a = .main ∧ Coast o s s' := by
  cases a with
  | tick d =>
      rw [step] at hs
      split at hs
      · cases hs
        exact .inr (.inl ⟨d, rfl, rfl⟩)
      · cases hs
  | thread r cpu =>
      rw [step] at hs
      obtain ⟨W, ha, rfl⟩ := Option.map_eq_some_iff.mp hs
      exact .inl (remaining_thread h.account ha)
  | main =>
      rw [step] at hs
      obtain hcoast | hlt := main_coasts h.account h.lawful h.fed hbehind hs
      · exact .inr (.inr ⟨rfl, hcoast⟩)
      · exact .inl hlt

/-! ## the way round the loop -/

/-- The steps of the dispatcher to the next test before the `break`. -/
def Pc.ahead : Pc → Nat
  | .complete _ _ todo => 2 * todo.length + 16
  | .collect todo => 2 * todo.length + 15
  | .clock => 14
  | .hogs => 13
  | .imu => 12
  | .camera => 11
  | .control => 10
  | .estimator => 9
  | .dispatch todo => todo.length + 1
  | .exit | .done | .failed _ => 0

theorem workers_length (o : Options) : o.workers.length ≤ 7 := by
  simp only [Options.workers, Options.hogs, List.length_append, List.length_take]
  simp
  omega

theorem SameFeed.releases (h : SameFeed s s') : s'.releases o = s.releases o := by
  unfold State.releases
  rw [h.imu, h.camera, h.control]

/-- A release has been offered or counted. -/
theorem main_ahead_source (h : Going o s) (hpc : s.pc = .imu ∨ s.pc = .camera ∨ s.pc = .control)
    (hs : s.mainStep o = some s') :
    s'.releases o + s'.pc.ahead < s.releases o + s.pc.ahead := by
  have hsafe := h.lawful.safe h.account
  obtain hpc | hpc | hpc := hpc <;> rw [State.mainStep, hpc] at hs <;> cases hs
  · unfold State.imuStep
    split
    · next hdue =>
      have hid : s.imu.id + 1 ≤ 200 * o.seconds :=
        (h.fed.imu.tick h.fed.periods.1 hdue).bounded
      have hless : s.releases o = 23 * (200 * o.seconds - (s.imu.id + 1)) +
          23 * (20 * o.seconds - s.camera.id) + 8 * (100 * o.seconds - s.control.id) + 23 := by
        unfold State.releases
        omega
      rw [hless]
      exact Nat.add_lt_add_right (Nat.lt_add_of_pos_right (by decide)) _
    · rw [hpc]
      exact Nat.add_lt_add_left (show Pc.ahead .camera < Pc.ahead .imu by decide) _
  · unfold State.cameraStep
    split
    · next hdue =>
      have hid : s.camera.id + 1 ≤ 20 * o.seconds :=
        (h.fed.camera.tick h.fed.periods.2.1 hdue).bounded
      have hless : s.releases o = 23 * (200 * o.seconds - s.imu.id) +
          23 * (20 * o.seconds - (s.camera.id + 1)) + 8 * (100 * o.seconds - s.control.id) +
            23 := by
        unfold State.releases
        omega
      rw [hless]
      exact Nat.add_lt_add_right (Nat.lt_add_of_pos_right (by decide)) _
    · rw [hpc]
      exact Nat.add_lt_add_left (show Pc.ahead .control < Pc.ahead .camera by decide) _
  · unfold State.controlStep
    split
    · next hdue =>
      have hid : s.control.id + 1 ≤ 100 * o.seconds :=
        (h.fed.control.tick h.fed.periods.2.2 hdue).bounded
      have hless : s.releases o = 23 * (200 * o.seconds - s.imu.id) +
          23 * (20 * o.seconds - s.camera.id) + 8 * (100 * o.seconds - (s.control.id + 1)) + 8 := by
        unfold State.releases
        omega
      rw [hless]
      split
      · exact Nat.add_lt_add_right (Nat.lt_add_of_pos_right (by decide)) _
      · unfold State.call
        cases hok : s.session.graph.control s.now ((s.control.id + 1) / 100) (20 * ms) with
        | error what => exact absurd (.control hpc hok) hsafe
        | ok p =>
            obtain ⟨selection, g⟩ := p
            simp only [Graph.call, hok, Graph.respond]
            exact Nat.add_lt_add_right (Nat.lt_add_of_pos_right (by decide)) _
    · rw [hpc]
      exact Nat.add_lt_add_left (show Pc.ahead .estimator < Pc.ahead .control by decide) _

/-- A completion function returns into the first loop or fails. -/
theorem complete_pc (s : State) (c : Closure) (todo : List Role) :
    (s.completeStep c todo).pc = .collect todo ∨
      ∃ what, (s.completeStep c todo).pc = .failed what := by
  cases c with
  | hog | mapping snapshot | control selection => exact .inl rfl
  | offer m =>
      unfold State.completeStep
      dsimp only
      split
      · exact .inr ⟨_, rfl⟩
      · exact .inl rfl
  | estimator b =>
      unfold State.completeStep
      dsimp only
      split
      · exact .inr ⟨_, rfl⟩
      · split
        · split
          · exact .inr ⟨_, rfl⟩
          · exact .inl rfl
        · exact .inl rfl
      · exact .inl rfl

/-- The estimator's job is offered, and the workers are to be dispatched. -/
theorem estimator_ahead (s : State) : (s.estimatorStep o).pc.ahead < 9 := by
  have hlength := workers_length o
  have hnext : (Pc.dispatch o.workers).ahead < 9 := Nat.add_lt_add_right hlength 2
  unfold State.estimatorStep
  split
  · exact hnext
  · split
    · exact Nat.zero_lt_succ _
    · split
      · exact Nat.zero_lt_succ _
      · exact hnext
    · exact hnext

/-- **Step**: the dispatcher comes nearer to its test, or has one release less
to make. -/
theorem main_ahead (h : Going o s) (hs : s.mainStep o = some s') (hexit : s.pc ≠ .exit) :
    s'.releases o + s'.pc.ahead < s.releases o + s.pc.ahead := by
  have hlength := workers_length o
  have hframe : SameFeed s s' → s'.pc.ahead < s.pc.ahead →
      s'.releases o + s'.pc.ahead < s.releases o + s.pc.ahead := by
    intro hfeed hlt
    rw [hfeed.releases]
    exact Nat.add_lt_add_left hlt _
  cases hpc : s.pc
  case imu => exact hpc ▸ main_ahead_source h (.inl hpc) hs
  case camera => exact hpc ▸ main_ahead_source h (.inr (.inl hpc)) hs
  case control => exact hpc ▸ main_ahead_source h (.inr (.inr hpc)) hs
  all_goals
    rw [hpc] at hframe
    rw [State.mainStep, hpc] at hs
    cases hs
  case exit => exact absurd hpc hexit
  case collect todo =>
      refine hframe (same_collect s todo) ?_
      cases todo with
      | nil => exact Nat.lt_succ_self 14
      | cons r todo =>
          simp only [State.collectStep]
          split <;> simp [State.goto, Pc.ahead]
          omega
  case complete r c todo =>
      refine hframe (same_complete s c todo) ?_
      obtain hnext | ⟨what, hfailed⟩ := complete_pc s c todo
      · rw [hnext]
        exact Nat.lt_succ_self _
      · rw [hfailed]
        exact Nat.zero_lt_succ _
  case clock => exact Nat.add_lt_add_left (show Pc.ahead .hogs < Pc.ahead .clock by decide) _
  case hogs => exact hframe (same_hogs s o) (show Pc.ahead .imu < Pc.ahead .hogs by decide)
  case estimator => exact hframe (same_estimator s o) (estimator_ahead s)
  case dispatch todo =>
      refine hframe (same_dispatch s todo) ?_
      cases todo <;> simp [State.dispatchStep, State.goto, Pc.ahead]

end Main

end ScxSlam.Workload
