import ScxSlam.Executor.Spin

/-!
# ScxSlam.Executor.Ledger

What the executor is for, as one sequential protocol: a `Ledger` follows the
one job in progress and says which effect may come next.  A selection claims
a callback group; its message, if it has one, is taken, announced, checked,
published, checked again on the worker and then either handled or dropped;
the message is given back before the group is released; and the sink holds
the hint of the last published job until one final clear.

`Ledger.step` reads one event, `none` being a violation of the protocol.
The theorems below are about every accepted log; `ScxSlam.Executor.Refine`
shows that the log of every interleaving is accepted.
-/

namespace ScxSlam.Executor

/-! ## the protocol -/

/-- How far the job in progress has come. -/
inductive Stage
  | idle
  | fresh
  | created
  | accepted
  | selected
  | passed
  | condemned
  | published
  /-- Published without a message. -/
  | queued
  | admitted
  | expired
  | entered
  | dropped
  deriving DecidableEq, Repr

/-- Stages after which the next selection may come. -/
def Stage.settled : Stage → Bool
  | .idle | .created | .entered | .dropped => true
  | _ => false

/-- Stages of an announced message that is neither handled nor dropped. -/
def Stage.unresolved : Stage → Bool
  | .selected | .passed | .condemned | .published | .admitted | .expired => true
  | _ => false

/-- The job in progress and the worker's hint slot. -/
structure Ledger where
  /-- Selections so far; the job in progress is the last of them. -/
  serial : Nat := 0
  /-- The group it claimed, and whether that group is still owed a release. -/
  group : Option GroupId := none
  owed : Bool := false
  /-- Whether its message is out of the middleware. -/
  message : Bool := false
  observed : Bool := false
  reject : Bool := false
  stage : Stage := .idle
  /-- What the sink holds for the worker. -/
  slot : Option (Nat × FreshTaskHint) := none
  /-- The worker id every sink operation has used. -/
  worker : Option Nat := none
  cleared : Bool := false
  deriving DecidableEq, Repr

namespace Ledger

/-- The stage a publication leads to. -/
def launched (L : Ledger) : Stage := if L.message then .published else .queued

/-- Read one event. -/
def step (L : Ledger) : Event → Option Ledger
  | .claim k group =>
      if k = L.serial + 1 ∧ L.stage.settled ∧ L.message = false ∧ L.owed = false then
        some { L with
          serial := k
          group := group
          owed := group.isSome
          observed := false
          reject := false
          stage := .fresh }
      else none
  | .release k g =>
      if k = L.serial ∧ L.group = some g ∧ L.message = false then some { L with owed := false }
      else none
  | .create k =>
      if k = L.serial ∧ L.stage = .fresh ∧ L.owed = L.group.isSome then
        some { L with message := true, stage := .created }
      else none
  | .giveBack k =>
      if k = L.serial ∧ L.message = true then some { L with message := false } else none
  | .accept k observed reject =>
      if k = L.serial ∧ L.stage = .created ∧ L.message = true then
        some { L with observed := observed, reject := reject, stage := .accepted }
      else none
  | .select k .dispatcher =>
      if k = L.serial ∧ L.stage = .accepted ∧ L.observed = true then
        some { L with stage := .selected }
      else none
  | .select _ .worker => none
  | .check k .dispatcher result =>
      if k = L.serial ∧ (if L.observed then L.stage = .selected else L.stage = .accepted) ∧
          (result = true → L.reject = true) then
        some { L with stage := if result then .condemned else .passed }
      else none
  | .check k .worker result =>
      if k = L.serial ∧ L.stage = .published ∧ L.message = true ∧
          (result = true → L.reject = true) then
        some { L with stage := if result then .expired else .admitted }
      else none
  | .drop k t observed =>
      if k = L.serial ∧ observed = L.observed ∧
          L.stage = (match t with | .dispatcher => .condemned | .worker => .expired) then
        some { L with stage := .dropped }
      else none
  | .publish worker k hint =>
      if k = L.serial ∧ (if L.message then L.stage = .passed else L.stage = .fresh) ∧
          L.cleared = false ∧ (L.worker = none ∨ L.worker = some worker) then
        some { L with
          stage := L.launched
          slot := some (k, hint)
          worker := some worker }
      else none
  | .handle k =>
      if k = L.serial ∧ L.stage = .admitted then some { L with stage := .entered } else none
  | .execute k =>
      if k = L.serial ∧ L.stage = .queued ∧ L.message = false then
        some { L with stage := .entered }
      else none
  | .clear worker _ =>
      if L.slot.isSome = true ∧ (L.worker = none ∨ L.worker = some worker) then
        some { L with slot := none, worker := some worker, cleared := true }
      else none

/-- The ledger an accepted log leads to. -/
def read (log : List Event) : Option Ledger := Steps.exec step {} log

end Ledger

/-! ## what an accepted log says -/

/-- Operations of the sink. -/
inductive SinkOp
  | publish (worker : Nat) (serial : Nat) (hint : FreshTaskHint)
  | clear (worker : Nat)
  deriving DecidableEq, Repr

/-- The sink operation of an event. -/
def Event.sinkOp : Event → Option SinkOp
  | .publish worker k hint => some (.publish worker k hint)
  | .clear worker _ => some (.clear worker)
  | _ => none

/-- The selection an event announces to an observer. -/
def Event.selected : Event → Option Nat
  | .select k _ => some k
  | _ => none

/-- The selection whose message an event handles or drops. -/
def Event.resolved : Event → Option Nat
  | .handle k => some k
  | .drop k _ _ => some k
  | _ => none

/-- The sink operations of a log, in order. -/
def sinkOps (log : List Event) : List SinkOp := log.filterMap Event.sinkOp

/-- The publications of a log, in order. -/
def publications (log : List Event) : List (Nat × FreshTaskHint) :=
  log.filterMap fun
    | .publish _ k hint => some (k, hint)
    | _ => none

/-- Expiry checks, in order. -/
def checks (log : List Event) : List (Nat × Thread × Bool) :=
  log.filterMap fun
    | .check k t result => some (k, t, result)
    | _ => none

/-- Selections announced to an observer, in order. -/
def selections (log : List Event) : List Nat := log.filterMap Event.selected

/-- Messages handled or dropped, in order. -/
def resolutions (log : List Event) : List Nat := log.filterMap Event.resolved

end ScxSlam.Executor
