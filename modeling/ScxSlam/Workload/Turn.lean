import ScxSlam.Workload.Account

/-!
# ScxSlam.Workload.Turn

What one step of the dispatcher can do, as a relation: an invariant of the
loop is a case analysis over `Turn`, and the ways in which the loop can fail
are those of `Fails`.
-/

namespace ScxSlam.Workload

open DependentGraph

/-! ## failures -/

/-- What makes `main` leave its loop through an exception, or read an empty
optional or the front of an empty vector. -/
inductive Fails (s : State) : Prop
  | offer {r : Role} {m : Measurement} {todo : List Role} {what : String}
      (hpc : s.pc = .complete r (.offer m) todo)
      (hthrew : s.session.graph.offer m s.now = .error what)
  | complete {r : Role} {b : Batch} {todo : List Role} {what : String}
      (hpc : s.pc = .complete r (.estimator b) todo)
      (hthrew : s.session.graph.complete b.id s.now = .error what)
  | camera {r : Role} {b : Batch} {todo : List Role} {snapshot : Snapshot} {g : Graph}
      (hpc : s.pc = .complete r (.estimator b) todo)
      (hok : s.session.graph.complete b.id s.now = .ok (snapshot, g))
      (hcamera : hasCamera b = true) (hnone : snapshot.camera = none)
  | control {setpoint maxImuAge : Nat} {what : String} (hpc : s.pc = .control)
      (hthrew : s.session.graph.control s.now setpoint maxImuAge = .error what)
  | select {what : String} (hpc : s.pc = .estimator)
      (hthrew : s.session.graph.select s.now = .error what)
  | front {b : Batch} {g : Graph} (hpc : s.pc = .estimator)
      (hok : s.session.graph.select s.now = .ok (some b, g)) (hnil : b.inputs = [])

/-! ## steps -/

/-- Between two completion functions. -/
def Pc.calm : Pc → Bool
  | .complete .. | .failed _ => false
  | _ => true

/-- The graph has answered a call. -/
def State.called (s : State) (c : Call) (r : Response) (g : Graph) : State :=
  { s with session := s.session.after c r g }

/-- A step of the dispatcher. -/
inductive Turn (o : Options) (s : State) : State → Prop
  | goto {pc : Pc} (hcalm : s.pc.calm = true) (hcalm' : pc.calm = true) : Turn o s (s.goto pc)
  | clock (hpc : s.pc = .clock) : Turn o s ({ s with t := s.now }.goto .hogs)
  | collect {r : Role} {W : Worker Closure} {c : Closure} {todo : List Role}
      (hcalm : s.pc.calm = true) (hc : (s.worker r).collect s.now = (W, some c)) :
      Turn o s ((s.setWorker r W).goto (.complete r c todo))
  | quiet {r : Role} {c : Closure} {todo : List Role} (hpc : s.pc = .complete r c todo)
      (hc : c = .hog ∨ ∃ snapshot, c = .mapping snapshot) : Turn o s (s.goto (.collect todo))
  | tally {r : Role} {selection : Control} {todo : List Role}
      (hpc : s.pc = .complete r (.control selection) todo) :
      Turn o s ((s.tally selection).goto (.collect todo))
  | offered {r : Role} {m : Measurement} {todo : List Role} {b : Bool} {g : Graph}
      (hpc : s.pc = .complete r (.offer m) todo)
      (hok : s.session.graph.offer m s.now = .ok (b, g)) :
      Turn o s ((s.called (.offer m s.now) (.offered b) g).goto (.collect todo))
  | completed {r : Role} {b : Batch} {todo : List Role} {snapshot : Snapshot} {g : Graph}
      (hpc : s.pc = .complete r (.estimator b) todo)
      (hok : s.session.graph.complete b.id s.now = .ok (snapshot, g))
      (hcamera : hasCamera b = false) :
      Turn o s ((s.called (.complete b.id s.now) (.completed snapshot) g).goto (.collect todo))
  | mapped {r : Role} {b : Batch} {todo : List Role} {snapshot : Snapshot} {m : Measurement}
      {g : Graph} (hpc : s.pc = .complete r (.estimator b) todo)
      (hok : s.session.graph.complete b.id s.now = .ok (snapshot, g))
      (hcamera : hasCamera b = true) (hm : snapshot.camera = some m) :
      Turn o s (((s.called (.complete b.id s.now) (.completed snapshot) g).offerTo .mapping
        (State.mappingJob snapshot m)).goto (.collect todo))
  | hogs (hpc : s.pc = .hogs) : Turn o s ((o.hogs.foldl State.offerHog s).goto .imu)
  | imu (hpc : s.pc = .imu) (hdue : s.imu.due s.finish s.t = true) :
      Turn o s { s.offerTo .imu (State.sensorJob ⟨.imu, s.imu.id + 1, s.imu.next⟩ (5 * ms) 150000)
        with imu := s.imu.tick (5 * ms) }
  | camera (hpc : s.pc = .camera) (hdue : s.camera.due s.finish s.t = true) :
      Turn o s { s.offerTo .camera
          (State.sensorJob ⟨.camera, s.camera.id + 1, s.camera.next⟩ (33 * ms) (4 * ms))
        with camera := s.camera.tick (50 * ms) }
  | skip (hpc : s.pc = .control) (hdue : s.control.due s.finish s.t = true)
      (hpending : (s.worker .control).pending = true) :
      Turn o s { s.skipControl with control := s.control.tick (10 * ms) }
  | controlled {setpoint maxImuAge : Nat} {selection : Control} {g : Graph} (hpc : s.pc = .control)
      (hdue : s.control.due s.finish s.t = true) (hidle : (s.worker .control).pending = false)
      (hok : s.session.graph.control s.now setpoint maxImuAge = .ok (selection, g)) :
      Turn o s { (s.called (.control s.now setpoint maxImuAge) (.controlled selection) g).offerTo
          .control (State.controlJob (s.control.id + 1) s.control.next selection)
        with control := s.control.tick (10 * ms) }
  | nothing {g : Graph} {pc : Pc} (hpc : s.pc = .estimator)
      (hok : s.session.graph.select s.now = .ok (none, g)) (hcalm : pc.calm = true) :
      Turn o s ((s.called (.select s.now) (.selected none) g).goto pc)
  | selected {b : Batch} {m : Measurement} {rest : List Measurement} {g : Graph} {burst : Nat}
      {pc : Pc} (hpc : s.pc = .estimator) (hidle : (s.worker .estimator).pending = false)
      (hok : s.session.graph.select s.now = .ok (some b, g)) (hinputs : b.inputs = m :: rest)
      (hcalm : pc.calm = true) :
      Turn o s (({ s.called (.select s.now) (.selected (some b)) g with
        burstJob := burst }.offerTo .estimator (State.estimatorJob o b m.sourceTime)).goto pc)
  | dispatch {r : Role} {pc : Pc} (hcalm : s.pc.calm = true) (hcalm' : pc.calm = true) :
      Turn o s ((s.setWorker r ((s.worker r).dispatch s.now)).goto pc)
  | fail {s' : State} (h : Fails s) : Turn o s s'

section Turns

variable {o : Options} {s s' : State}

/-- Collecting goes on to the completion function of the result it finds. -/
theorem turn_collect {todo : List Role} (hpc : s.pc.calm = true) :
    Turn o s (s.collectStep todo) := by
  cases todo with
  | nil => exact .goto hpc rfl
  | cons r todo =>
      simp only [State.collectStep]
      split
      · next W hc =>
        rw [Worker.eq_of_collect_none hc, State.setWorker, State.worker]
        have hsame : s.pool.set r (s.pool.get r) = s.pool := by cases r <;> rfl
        rw [hsame]
        exact .goto hpc rfl
      · next W c hc => exact .collect hpc hc

/-- A completion function does what its closure is for, or fails. -/
theorem turn_complete {r : Role} {c : Closure} {todo : List Role}
    (hpc : s.pc = .complete r c todo) : Turn o s (s.completeStep c todo) := by
  cases c with
  | hog => exact .quiet hpc (.inl rfl)
  | mapping snapshot => exact .quiet hpc (.inr ⟨snapshot, rfl⟩)
  | control selection => exact .tally hpc
  | offer m =>
      unfold State.completeStep State.call
      cases hok : s.session.graph.offer m s.now with
      | error what => exact .fail (.offer hpc hok)
      | ok p =>
          simp only [Graph.call, hok]
          exact .offered hpc hok
  | estimator b =>
      unfold State.completeStep State.call
      cases hok : s.session.graph.complete b.id s.now with
      | error what => exact .fail (.complete hpc hok)
      | ok p =>
          simp only [Graph.call, hok, Graph.respond]
          cases hcamera : hasCamera b with
          | false => exact .completed hpc hok hcamera
          | true =>
              cases hm : p.1.camera with
              | none => exact .fail (.camera hpc hok hcamera hm)
              | some m => exact .mapped hpc hok hcamera hm

/-- The hogs are offered their jobs. -/
theorem turn_hogs (hpc : s.pc = .hogs) : Turn o s (s.hogsStep o) := by
  unfold State.hogsStep
  split
  · exact .hogs hpc
  · exact .goto (by rw [hpc]; rfl) rfl

/-- The IMU's job is offered when it is due. -/
theorem turn_imu (hpc : s.pc = .imu) : Turn o s s.imuStep := by
  unfold State.imuStep
  split
  · next hdue => exact .imu hpc hdue
  · exact .goto (by rw [hpc]; rfl) rfl

/-- The camera's job is offered when it is due. -/
theorem turn_camera (hpc : s.pc = .camera) : Turn o s s.cameraStep := by
  unfold State.cameraStep
  split
  · next hdue => exact .camera hpc hdue
  · exact .goto (by rw [hpc]; rfl) rfl

/-- Control is skipped while its worker has a job, and otherwise asks the graph. -/
theorem turn_control (hpc : s.pc = .control) : Turn o s s.controlStep := by
  unfold State.controlStep
  split
  · next hdue =>
    split
    · next hpending => exact .skip hpc hdue hpending
    · next hpending =>
      unfold State.call
      cases hok : s.session.graph.control s.now ((s.control.id + 1) / 100) (20 * ms) with
      | error what => exact .fail (.control hpc hok)
      | ok p =>
          simp only [Graph.call, hok, Graph.respond]
          exact .controlled hpc hdue (by simpa using hpending) hok
  · exact .goto (by rw [hpc]; rfl) rfl

/-- A batch is selected only for an idle estimator. -/
theorem turn_estimator (hpc : s.pc = .estimator) : Turn o s (s.estimatorStep o) := by
  unfold State.estimatorStep
  split
  · exact .goto (by rw [hpc]; rfl) rfl
  · next hpending =>
    unfold State.call
    cases hok : s.session.graph.select s.now with
    | error what => exact .fail (.select hpc hok)
    | ok p =>
        obtain ⟨b?, g⟩ := p
        simp only [Graph.call, hok, Graph.respond]
        cases b? with
        | none => exact .nothing hpc hok rfl
        | some b =>
            dsimp only
            cases hin : b.inputs with
            | nil => exact .fail (.front hpc hok hin)
            | cons m rest => exact .selected hpc (by simpa using hpending) hok hin rfl

/-- Queued jobs go to their threads, one worker after the other. -/
theorem turn_dispatch {todo : List Role} (hpc : s.pc.calm = true) :
    Turn o s (s.dispatchStep todo) := by
  cases todo with
  | nil => exact .goto hpc rfl
  | cons r todo => exact .dispatch hpc rfl

/-- **Inversion**: a step of the dispatcher is one of its turns. -/
theorem main_turn (hs : s.mainStep o = some s') : Turn o s s' := by
  cases hpc : s.pc <;> rw [State.mainStep, hpc] at hs <;> cases hs
  case collect todo => exact turn_collect (by rw [hpc]; rfl)
  case complete r c todo => exact turn_complete hpc
  case clock => exact .clock hpc
  case hogs => exact turn_hogs hpc
  case imu => exact turn_imu hpc
  case camera => exact turn_camera hpc
  case control => exact turn_control hpc
  case estimator => exact turn_estimator hpc
  case dispatch todo => exact turn_dispatch (by rw [hpc]; rfl)
  case exit =>
      unfold State.exitStep
      dsimp only
      split <;> exact .goto (by rw [hpc]; rfl) rfl

end Turns

end ScxSlam.Workload
