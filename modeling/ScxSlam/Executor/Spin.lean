import ScxSlam.Executor.Work
import ScxSlam.Lib.Steps

/-!
# ScxSlam.Executor.Spin

`FreshnessExecutor::spin` as a step system over three parties: the thread
that called `spin` (the dispatcher), the worker thread it creates, and the
environment, which may call `cancel`, shut the ROS context down, or wake a
waiting thread spuriously.

A step is one mutex-protected section, one opaque call, or one local
statement between them.  The outcome of an opaque call is the `Input` of
the step, so `step` is a function and a run is a list of actions.  A thread
blocked in `condition.wait` is marked asleep; only `notify_all` or a
spurious wakeup lets it re-test its predicate.

`log` records, in order, every effect the claims of the header are about:
callback groups claimed and released, messages created and returned,
observer events, expiry checks, callbacks entered, and sink operations that
took effect.
-/

namespace ScxSlam.Executor

/-! ## events -/

/-- The two threads of a running `spin`. -/
inductive Thread
  | dispatcher
  | worker
  deriving DecidableEq, Repr

/-- An effect of the executor, tagged with the selection it belongs to. -/
inductive Event
  /-- `get_next_executable` handed out an executable and claimed its group. -/
  | claim (serial : Nat) (group : Option GroupId)
  /-- `can_be_taken_from().store(true)`. -/
  | release (serial : Nat) (group : GroupId)
  /-- `create_message`. -/
  | create (serial : Nat)
  /-- `return_message`. -/
  | giveBack (serial : Nat)
  /-- A message was taken and its metadata is valid. -/
  | accept (serial : Nat) (observed reject : Bool)
  /-- The observer is called with `Selected`. -/
  | select (serial : Nat) (by' : Thread)
  /-- `Impl::expired` returned `result`. -/
  | check (serial : Nat) (by' : Thread) (result : Bool)
  /-- `Impl::drop`; the observer is called with `DroppedBeforeStart` when set. -/
  | drop (serial : Nat) (by' : Thread) (observed : Bool)
  /-- `hint_sink->publish` took effect. -/
  | publish (worker : Nat) (serial : Nat) (hint : FreshTaskHint)
  /-- `hint_sink->clear` took effect. -/
  | clear (worker : Nat) (by' : Thread)
  /-- `handle_message` is entered. -/
  | handle (serial : Nat)
  /-- `execute_any_executable` is entered. -/
  | execute (serial : Nat)
  deriving DecidableEq, Repr

/-- `return_taken_message`: give the message back if one is held. -/
def PendingWork.returned (w : PendingWork) : PendingWork :=
  if w.executable.subscription.isSome then { w with message := none } else w

/-- The effect of `return_taken_message`. -/
def PendingWork.returnEvents (w : PendingWork) : List Event :=
  match w.message, w.executable.subscription with
  | some m, some _ => [.giveBack m]
  | _, _ => []

/-- The effect of storing `true` in the group of an executable, if any:
`release_callback_group` and `~AnyExecutable` alike. -/
def AnyExecutable.releaseEvents (e : AnyExecutable) : List Event :=
  match e.callbackGroup with
  | some g => [.release e.serial g]
  | none => []

/-- `release_callback_group` leaves no group behind. -/
def PendingWork.released (w : PendingWork) : PendingWork :=
  { w with executable := { w.executable with callbackGroup := none } }

/-! ## program points -/

/-- What ended `spin`: one of its own errors, or an exception of an opaque
call (rclcpp, a callback, an observer, the sink, the clock). -/
inductive Failure
  | runtimeError (what : String)
  | external
  deriving DecidableEq, Repr

/-- Where the dispatcher goes once a cleanup has released the group:
`continue`, or on with the exception being handled. -/
inductive AfterCleanup
  | next
  | rethrow (f : Failure)
  deriving DecidableEq, Repr

/-- Program points of the thread in `spin`. -/
inductive DispatcherPc
  | entry
  | reset
  | spawn
  | waitReady
  | loopHead
  | waitIdle
  | getNext
  | bind (e : AnyExecutable)
  | createMessage (w : PendingWork) (b : ProfileBinding)
  | take (w : PendingWork) (b : ProfileBinding)
  | extract (w : PendingWork) (b : ProfileBinding)
  | observeSelected (w : PendingWork)
  | checkExpired (w : PendingWork)
  | dropObserve (w : PendingWork)
  | makeHint (w : PendingWork) (b : ProfileBinding)
  | publish (w : PendingWork)
  | returnMessage (w : PendingWork) (after : AfterCleanup)
  | releaseGroup (w : PendingWork) (after : AfterCleanup)
  | handoff (w : PendingWork)
  | notifyHandoff
  | stopSpinning
  | finalWait
  | notifyStop
  | join
  | done (result : Option Failure)
  deriving DecidableEq, Repr

/-- Program points of the worker thread. -/
inductive WorkerPc
  | absent
  | configuring
  | register
  | notifyReady
  | park
  | waiting
  | admission (w : PendingWork)
  | dropObserve (w : PendingWork)
  | dropReturn (w : PendingWork)
  | dropRelease (w : PendingWork)
  | enterHandler (w : PendingWork)
  | handling (w : PendingWork)
  | handlerReturn (w : PendingWork) (thrown : Bool)
  | handlerRelease (w : PendingWork) (thrown : Bool)
  | executeAny (w : PendingWork)
  | executing (w : PendingWork)
  | catchReturn (w : PendingWork)
  | catchRelease (w : PendingWork)
  | catchClear (w : PendingWork)
  | catchFlag (w : PendingWork)
  | unwind (w : PendingWork)
  | destroy (w : PendingWork)
  | failing
  | failNotify
  | failCancel
  | exited
  deriving DecidableEq, Repr

/-! ## state -/

/-- `Impl`, the members of `rclcpp::Executor` it shares, both threads'
program points and locals, and the log of effects so far. -/
structure State where
  spinning : Bool := false
  contextOk : Bool := true
  pending : Option PendingWork := none
  workerReady : Bool := false
  workerIdle : Bool := false
  hintNeedsClear : Bool := false
  stop : Bool := false
  workerId : Nat := 0
  workerError : Option Failure := none
  nextJobId : Nat := 1
  dispatchError : Option Failure := none
  dispatcher : DispatcherPc := .entry
  worker : WorkerPc := .absent
  dispatcherAsleep : Bool := false
  workerAsleep : Bool := false
  clock : Nat := 0
  serial : Nat := 0
  log : List Event := []
  deriving DecidableEq, Repr

namespace State

/-- Record effects. -/
@[simp] def emit (s : State) (es : List Event) : State := { s with log := s.log ++ es }

/-- The dispatcher moves on to `pc`. -/
@[simp] def goto (s : State) (pc : DispatcherPc) : State := { s with dispatcher := pc }

/-- The worker moves on to `pc`. -/
@[simp] def workerGoto (s : State) (pc : WorkerPc) : State := { s with worker := pc }

/-- `condition.notify_all()`. -/
@[simp] def notifyAll (s : State) : State :=
  { s with dispatcherAsleep := false, workerAsleep := false }

/-- An exception leaves the dispatcher's `try` block. -/
@[simp] def dispatchThrows (s : State) (f : Failure) : State :=
  { s with dispatchError := some f, dispatcher := .stopSpinning }

/-- The catch site of the dispatcher: return the message, release the
group, rethrow. -/
@[simp] def dispatchCatch (s : State) (w : PendingWork) (f : Failure) : State :=
  s.goto (.returnMessage w (.rethrow f))

end State

/-- The outcome of the opaque call at a program point; `ok` where the call
returns normally or where there is no call. -/
inductive Input
  | ok
  | throws
  /-- `hint_sink->clear` throws. -/
  | clearThrows
  /-- `get_next_executable` or `take_type_erased` returns false. -/
  | nothing
  | selected (group : Option GroupId) (subscription : Option Subscription)
  /-- `get_next_executable` throws after it claimed a group. -/
  | selectedThrows (group : Option GroupId) (subscription : Option Subscription)
  | metadata (m : MessageMetadata)
  /-- A reading of `CLOCK_MONOTONIC`. -/
  | now (t : Nat)
  /-- `freshqos_pid_tgid_self`. -/
  | pidTgid (id : Nat)
  /-- `execute_any_executable` returns, having stored `true` in the group or not. -/
  | executed (released : Bool)
  deriving DecidableEq, Repr

/-! ## the dispatcher -/

/-- `binding_for`, over the profiles registered before `spin`. -/
def bindingFor (profiles : GroupId → Option ProfileBinding) (e : AnyExecutable) :
    ProfileBinding :=
  match e.callbackGroup with
  | some g => (profiles g).getD {}
  | none => {}

/-- `Impl::expired` on thread `t`: the clock is read only when the profile
rejects expired work.  Yields the verdict with the check recorded. -/
def checkExpiry (s : State) (w : PendingWork) (t : Thread) : Input → Option (Bool × State)
  | .ok => if w.rejectExpired then none else some (false, s.emit [.check w.serial t false])
  | .now now =>
      if w.rejectExpired ∧ s.clock ≤ now then
        some (w.hint.expiredAt now,
          { s with clock := now }.emit [.check w.serial t (w.hint.expiredAt now)])
      else none
  | _ => none

/-- The statements before the `try` block of `spin`. -/
def startStep (s : State) : Input → Option State
  | .ok => match s.dispatcher with
      | .entry =>
          if s.spinning then
            some (s.goto (.done (some (.runtimeError
              "FreshnessExecutor::spin() called while already spinning"))))
          else some ({ s with spinning := true }.goto .reset)
      | .reset => some ({ s with
          pending := none
          workerReady := false
          workerIdle := false
          hintNeedsClear := false
          stop := false
          workerId := 0
          workerError := none
          dispatchError := none }.goto .spawn)
      | .spawn => some ((s.workerGoto .configuring).goto .waitReady)
      | _ => none
  | .throws => match s.dispatcher with
      -- the `std::thread` constructor is outside every `try` block
      | .spawn => some (s.goto (.done (some .external)))
      | _ => none
  | _ => none

/-- `condition.wait(lock, worker_ready)` and the rethrow after it. -/
def waitReadyStep (s : State) : Option State :=
  if s.dispatcherAsleep then none
  else if s.workerReady then
    match s.workerError with
    | some f => some (s.dispatchThrows f)
    | none => some (s.goto .loopHead)
  else some { s with dispatcherAsleep := true }

/-- The wait at the top of the dispatch loop. -/
def waitIdleStep (s : State) : Option State :=
  if s.dispatcherAsleep then none
  else if s.workerIdle ∨ s.workerError.isSome ∨ ¬ s.spinning then
    match s.workerError with
    | some f => some (s.dispatchThrows f)
    | none => some (s.goto (if s.spinning then .getNext else .stopSpinning))
  else some { s with dispatcherAsleep := true }

/-- The next selection: its executable owns the group it claims. -/
@[simp] def State.claimed (s : State) (group : Option GroupId) : State :=
  { s with serial := s.serial + 1 }.emit [.claim (s.serial + 1) group]

/-- `get_next_executable`.  When it throws, `~AnyExecutable` releases. -/
def getNextStep (s : State) : Input → Option State
  | .selected group subscription =>
      some ((s.claimed group).goto (.bind ⟨s.serial + 1, group, subscription⟩))
  | .nothing => some (s.goto .loopHead)
  | .throws => some (s.dispatchThrows .external)
  | .selectedThrows group subscription =>
      some (((s.claimed group).emit
        (AnyExecutable.releaseEvents ⟨s.serial + 1, group, subscription⟩)).dispatchThrows
          .external)
  | _ => none

/-- `binding_for`, the move into `PendingWork`, and the checks on the
delivered kind that come before any message is created. -/
def bindStep (profiles : GroupId → Option ProfileBinding) (s : State) (e : AnyExecutable) :
    Input → Option State
  | .ok =>
      let w : PendingWork := { executable := e }
      let b := bindingFor profiles e
      if b.metadataExtractor then
        match e.subscription with
        | none => some (s.dispatchCatch w (.runtimeError
            "message metadata extractor registered for a non-subscription callback"))
        | some sub =>
            if sub.kind = .rosMessage then some (s.goto (.createMessage w b))
            else some (s.dispatchCatch w (.runtimeError
              "message-aware handoff supports normal ROS messages only"))
      else some (s.goto (.makeHint w b))
  | .throws => some ((s.emit e.releaseEvents).dispatchThrows .external)
  | _ => none

/-- `create_message`. -/
def createStep (s : State) (w : PendingWork) (b : ProfileBinding) : Input → Option State
  | .ok => some ((s.emit [.create w.serial]).goto
      (.take { w with message := some w.serial } b))
  | .throws => some (s.dispatchCatch w .external)
  | _ => none

/-- `take_type_erased`. -/
def takeStep (s : State) (w : PendingWork) (b : ProfileBinding) : Input → Option State
  | .ok => some (s.goto (.extract w b))
  | .nothing => some (s.goto (.returnMessage w .next))
  | .throws => some (s.dispatchCatch w .external)
  | _ => none

/-- The metadata extractor, the check of its result and `make_hint`. -/
def extractStep (s : State) (w : PendingWork) (b : ProfileBinding) : Input → Option State
  | .metadata m =>
      if m.jobId = 0 ∨ m.releaseTsNs = 0 then
        some (s.dispatchCatch w (.runtimeError
          "message metadata must contain nonzero job_id and release_ts_ns"))
      else
        let w' := { w with
          hint := Executor.makeHint b.profile m
          rejectExpired := b.profile.rejectExpired
          observer := b.observer }
        some ((s.emit [.accept w.serial b.observer b.profile.rejectExpired]).goto
          (if b.observer then .observeSelected w' else .checkExpired w'))
  | .throws => some (s.dispatchCatch w .external)
  | _ => none

/-- The observer call with `Selected`. -/
def observeSelectedStep (s : State) (w : PendingWork) : Input → Option State
  | .ok => some ((s.emit [.select w.serial .dispatcher]).goto (.checkExpired w))
  | .throws => some ((s.emit [.select w.serial .dispatcher]).dispatchCatch w .external)
  | _ => none

/-- The dispatcher's expiry check. -/
def dispatchCheckStep (s : State) (w : PendingWork) (i : Input) : Option State :=
  match i with
  | .throws => if w.rejectExpired then some (s.dispatchCatch w .external) else none
  | i => (checkExpiry s w .dispatcher i).map fun (expired, s') =>
      s'.goto (if expired then .dropObserve w else .publish w)

/-- `Impl::drop` up to the return of its observer. -/
def dispatchDropStep (s : State) (w : PendingWork) : Input → Option State
  | .ok => some ((s.emit [.drop w.serial .dispatcher w.observer]).goto (.returnMessage w .next))
  | .throws =>
      if w.observer then
        some ((s.emit [.drop w.serial .dispatcher w.observer]).dispatchCatch w .external)
      else none
  | _ => none

/-- `make_hint` without metadata: the release is the selection time and the
job id is the executor's own, which wraps. -/
def makeHintStep (s : State) (w : PendingWork) (b : ProfileBinding) : Input → Option State
  | .now now =>
      if s.clock ≤ now then
        some ({ s with clock := now, nextJobId := (s.nextJobId + 1) % u64 }.goto
          (.publish { w with hint := makeHintFor b.profile s.nextJobId now }))
      else none
  | .throws => some (s.dispatchCatch w .external)
  | _ => none

/-- `hint_sink->publish(worker_id, work.hint)`. -/
def publishStep (s : State) (w : PendingWork) : Input → Option State
  | .ok => some ((s.emit [.publish s.workerId w.serial w.hint]).goto (.handoff w))
  | .throws => some (s.dispatchCatch w .external)
  | _ => none

/-- The handoff section.  `pending.emplace` destroys whatever it replaces,
and destroying unconsumed work releases its group. -/
def handoffStep (s : State) (w : PendingWork) : State :=
  { s.emit ((s.pending.map fun old => old.executable.releaseEvents).getD []) with
    workerIdle := false
    hintNeedsClear := true
    pending := some w
    dispatcher := .notifyHandoff }

/-- The last wait: `clear_completed_hint` and `stop` under the mutex. -/
def finalWaitStep (s : State) (i : Input) : Option State :=
  if s.dispatcherAsleep then none
  else if s.workerIdle ∨ s.workerError.isSome then
    if s.hintNeedsClear then
      match i with
      | .ok => some ({ s with hintNeedsClear := false, stop := true }.emit
          [.clear s.workerId .dispatcher] |>.goto .notifyStop)
      | .clearThrows => some ({ s with
          dispatchError := some (s.dispatchError.getD .external)
          stop := true }.goto .notifyStop)
      | _ => none
    else if i = .ok then some ({ s with stop := true }.goto .notifyStop) else none
  else if i = .ok then some { s with dispatcherAsleep := true } else none

/-- One step of the thread in `spin`. -/
def dispatcherStep (profiles : GroupId → Option ProfileBinding) (s : State) (i : Input) :
    Option State :=
  match s.dispatcher with
  | .entry | .reset | .spawn => startStep s i
  | .waitReady => if i = .ok then waitReadyStep s else none
  | .loopHead =>
      if i = .ok then
        some (s.goto (if s.contextOk ∧ s.spinning then .waitIdle else .stopSpinning))
      else none
  | .waitIdle => if i = .ok then waitIdleStep s else none
  | .getNext => getNextStep s i
  | .bind e => bindStep profiles s e i
  | .createMessage w b => createStep s w b i
  | .take w b => takeStep s w b i
  | .extract w b => extractStep s w b i
  | .observeSelected w => observeSelectedStep s w i
  | .checkExpired w => dispatchCheckStep s w i
  | .dropObserve w => dispatchDropStep s w i
  | .makeHint w b => makeHintStep s w b i
  | .publish w => publishStep s w i
  | .returnMessage w after =>
      if i = .ok then some ((s.emit w.returnEvents).goto (.releaseGroup w.returned after))
      else none
  | .releaseGroup w after =>
      if i = .ok then
        let s' := s.emit w.executable.releaseEvents
        match after with
        | .next => some (s'.goto .loopHead)
        | .rethrow f => some (s'.dispatchThrows f)
      else none
  | .handoff w => if i = .ok then some (handoffStep s w) else none
  | .notifyHandoff => if i = .ok then some (s.notifyAll.goto .loopHead) else none
  | .stopSpinning => if i = .ok then some ({ s with spinning := false }.goto .finalWait) else none
  | .finalWait => finalWaitStep s i
  | .notifyStop => if i = .ok then some (s.notifyAll.goto .join) else none
  | .join =>
      if i = .ok ∧ s.worker = .exited then
        some (s.goto (.done (s.dispatchError.or s.workerError)))
      else none
  | .done _ => none

/-! ## the worker -/

/-- The body of `condition.wait` on the worker and what follows it: leave on
`stop` with nothing pending, take the pending work, or sleep. -/
def workerWait (s : State) : State :=
  match s.pending with
  | some w => { s with
      pending := none
      worker := if w.message.isSome then .admission w else .executeAny w }
  | none => if s.stop then s.workerGoto .exited
      else { s with worker := .waiting, workerAsleep := true }

/-- The worker's expiry check. -/
def admissionStep (s : State) (w : PendingWork) (i : Input) : Option State :=
  match i with
  | .throws => if w.rejectExpired then some (s.workerGoto (.catchReturn w)) else none
  | i => (checkExpiry s w .worker i).map fun (expired, s') =>
      s'.workerGoto (if expired then .dropObserve w else .enterHandler w)

/-- `Impl::drop` on the worker up to the return of its observer. -/
def workerDropStep (s : State) (w : PendingWork) : Input → Option State
  | .ok => some ((s.emit [.drop w.serial .worker w.observer]).workerGoto (.dropReturn w))
  | .throws =>
      if w.observer then
        some ((s.emit [.drop w.serial .worker w.observer]).workerGoto (.catchReturn w))
      else none
  | _ => none

/-- The return of `execute_any_executable`. -/
def executingStep (s : State) (w : PendingWork) : Input → Option State
  | .executed released =>
      some ((s.emit (if released then w.executable.releaseEvents else [])).workerGoto
        (.destroy w))
  | .throws => some (s.workerGoto (.catchReturn w))
  | _ => none

/-- One step of the worker thread. -/
def workerStep (s : State) (i : Input) : Option State :=
  match s.worker with
  | .absent | .exited => none
  | .configuring => match i with
      | .ok => some (s.workerGoto .register)
      | .throws => some (s.workerGoto .failing)
      | _ => none
  | .register => match i with
      | .pidTgid id => some { s with workerId := id, workerReady := true, worker := .notifyReady }
      | _ => none
  | .notifyReady => if i = .ok then some (s.notifyAll.workerGoto .park) else none
  | .park => if i = .ok then some (workerWait { s with workerIdle := true }.notifyAll) else none
  | .waiting => if i = .ok ∧ ¬ s.workerAsleep then some (workerWait s) else none
  | .admission w => admissionStep s w i
  | .dropObserve w => workerDropStep s w i
  | .dropReturn w =>
      if i = .ok then some ((s.emit w.returnEvents).workerGoto (.dropRelease w.returned)) else none
  | .dropRelease w =>
      if i = .ok then
        some ((s.emit w.executable.releaseEvents).workerGoto (.destroy w.released))
      else none
  | .enterHandler w =>
      if i = .ok then some ((s.emit [.handle w.serial]).workerGoto (.handling w)) else none
  | .handling w => match i with
      | .ok => some (s.workerGoto (.handlerReturn w false))
      | .throws => some (s.workerGoto (.handlerReturn w true))
      | _ => none
  | .handlerReturn w thrown =>
      if i = .ok then
        some ((s.emit w.returnEvents).workerGoto (.handlerRelease w.returned thrown))
      else none
  | .handlerRelease w thrown =>
      if i = .ok then
        some ((s.emit w.executable.releaseEvents).workerGoto
          (if thrown then .catchReturn w.released else .destroy w.released))
      else none
  | .executeAny w =>
      if i = .ok then some ((s.emit [.execute w.serial]).workerGoto (.executing w)) else none
  | .executing w => executingStep s w i
  | .catchReturn w =>
      if i = .ok then some ((s.emit w.returnEvents).workerGoto (.catchRelease w.returned))
      else none
  | .catchRelease w =>
      if i = .ok then
        some ((s.emit w.executable.releaseEvents).workerGoto (.catchClear w.released))
      else none
  | .catchClear w => match i with
      | .ok => some ((s.emit [.clear s.workerId .worker]).workerGoto (.catchFlag w))
      | .clearThrows => some (s.workerGoto (.unwind w))
      | _ => none
  | .catchFlag w =>
      if i = .ok then some ({ s with hintNeedsClear := false }.workerGoto (.unwind w)) else none
  | .unwind w =>
      if i = .ok then some ((s.emit w.executable.releaseEvents).workerGoto .failing) else none
  | .destroy w =>
      if i = .ok then some ((s.emit w.executable.releaseEvents).workerGoto .park) else none
  | .failing =>
      if i = .ok then
        some { s with
          workerError := some .external
          workerReady := true
          workerIdle := true
          stop := true
          worker := .failNotify }
      else none
  | .failNotify => if i = .ok then some (s.notifyAll.workerGoto .failCancel) else none
  | .failCancel => if i = .ok then some ({ s with spinning := false }.workerGoto .exited) else none

/-! ## the system -/

/-- A step of one of the parties. -/
inductive Action
  | dispatcher (i : Input)
  | worker (i : Input)
  /-- `rclcpp::Executor::cancel()` from any thread. -/
  | cancel
  /-- The ROS context is shut down. -/
  | shutdown
  /-- A spurious wakeup of a waiting thread. -/
  | wake (t : Thread)
  deriving DecidableEq, Repr

/-- One step of the system. -/
def step (profiles : GroupId → Option ProfileBinding) (s : State) : Action → Option State
  | .dispatcher i => dispatcherStep profiles s i
  | .worker i => workerStep s i
  | .cancel => some { s with spinning := false }
  | .shutdown => some { s with contextOk := false }
  | .wake .dispatcher => some { s with dispatcherAsleep := false }
  | .wake .worker => some { s with workerAsleep := false }

/-- A state in which `spin` is called: no worker, no pending work, nothing
logged.  Every other member may hold what an earlier `spin` left there. -/
structure Init (s : State) : Prop where
  dispatcher : s.dispatcher = .entry
  worker : s.worker = .absent
  pending : s.pending = none
  serial : s.serial = 0
  log : s.log = []

/-- The states of all interleavings of one call of `spin`. -/
def Reachable (profiles : GroupId → Option ProfileBinding) (s : State) : Prop :=
  ∃ s₀ as, Init s₀ ∧ Steps.exec (step profiles) s₀ as = some s

end ScxSlam.Executor
