import Mathlib.Data.Nat.Basic
import ScxSlam.Lib.Newest
import ScxSlam.Lib.Word

/-!
# ScxSlam.DependentGraph.Graph

`dependent_graph::Graph`: two bounded inboxes, at most one running batch, and
the snapshot of the last completed one.  Times and identities are `uint64_t`
and are naturals here; the subtraction in `control` wraps.

Every throw of the code comes before the first assignment, so a call that
throws is an error without a new graph (`ScxSlam.DependentGraph.Atomic`).  The
one exception, `index` inside the loop of `complete`, cannot throw on a batch
`select` built.
-/

namespace ScxSlam.DependentGraph

/-! ## data -/

/-- `enum class Stream`; `unknown` is a value that names no enumerator. -/
inductive Stream
  | imu
  | camera
  | unknown (raw : Nat)
  deriving DecidableEq, Repr

/-- An index into the two-element arrays of the class. -/
inductive Lane
  | imu
  | camera
  deriving DecidableEq, Repr

/-- A two-element array. -/
structure Lanes (α : Type) where
  imu : α
  camera : α
  deriving DecidableEq, Repr

namespace Lanes

variable {α : Type}

/-- `a[i]`. -/
def get (a : Lanes α) : Lane → α
  | .imu => a.imu
  | .camera => a.camera

/-- `a[i] = v`. -/
def set (a : Lanes α) (i : Lane) (v : α) : Lanes α :=
  match i with
  | .imu => { a with imu := v }
  | .camera => { a with camera := v }

@[simp] theorem get_set (a : Lanes α) (i j : Lane) (v : α) :
    (a.set i v).get j = if j = i then v else a.get j := by
  cases i <;> cases j <;> rfl

@[simp] theorem set_set (a : Lanes α) (i : Lane) (v w : α) : (a.set i v).set i w = a.set i w := by
  cases i <;> rfl

end Lanes

structure Measurement where
  stream : Stream
  sequence : Nat
  sourceTime : Nat
  deriving DecidableEq, Repr

structure Counts where
  offered : Nat := 0
  dropped : Nat := 0
  consumed : Nat := 0
  deriving DecidableEq, Repr

structure Batch where
  id : Nat
  inputs : List Measurement
  deriving DecidableEq, Repr

structure Snapshot where
  batchId : Nat := 0
  completed : Nat := 0
  imu : Option Measurement := none
  camera : Option Measurement := none
  deriving DecidableEq, Repr

inductive Outcome
  | usable
  | stale
  | missing
  deriving DecidableEq, Repr

structure Control where
  tick : Nat
  setpoint : Nat
  release : Nat
  outcome : Outcome
  snapshot : Option Snapshot
  deriving DecidableEq, Repr

/-- `class Graph`. -/
structure Graph where
  capacity : Nat
  limit : Nat
  inbox : Lanes (List Measurement) := ⟨[], []⟩
  accounting : Lanes Counts := ⟨{}, {}⟩
  lastSequence : Lanes (Option Nat) := ⟨none, none⟩
  running : Option Batch := none
  latest : Option Snapshot := none
  nextBatch : Nat := 1
  nextTick : Nat := 1
  clockTime : Nat := 0
  deriving DecidableEq, Repr

/-! ## operations -/

/-- `index`. -/
def index : Stream → Except String Lane
  | .imu => .ok .imu
  | .camera => .ok .camera
  | .unknown _ => .error "unknown stream"

/-- The enumerator at an index. -/
def Lane.stream : Lane → Stream
  | .imu => .imu
  | .camera => .camera

/-- The oldest input of the fuller choice `select` makes: the IMU inbox first,
unless the camera's front is strictly older. -/
def pick (inbox : Lanes (List Measurement)) : Option (Measurement × Lanes (List Measurement)) :=
  match inbox.imu, inbox.camera with
  | [], [] => none
  | m :: ms, [] => some (m, { inbox with imu := ms })
  | [], c :: cs => some (c, { inbox with camera := cs })
  | m :: ms, c :: cs =>
      if c.sourceTime < m.sourceTime then some (c, { inbox with camera := cs })
      else some (m, { inbox with imu := ms })

/-- The loop of `select`, with room for `room` more inputs. -/
def fill : Nat → Lanes (List Measurement) → List Measurement × Lanes (List Measurement)
  | 0, inbox => ([], inbox)
  | room + 1, inbox => match pick inbox with
      | none => ([], inbox)
      | some (m, rest) => (m :: (fill room rest).1, (fill room rest).2)

/-- The `last` a measurement may replace, and the replacement. -/
def Snapshot.keep (s : Snapshot) (m : Measurement) : Snapshot :=
  if m.stream = .imu then { s with imu := Newest.keep Measurement.sourceTime s.imu m }
  else { s with camera := Newest.keep Measurement.sourceTime s.camera m }

/-- One turn of the loop of `complete`. -/
def consume (acc : Lanes Counts × Snapshot) (m : Measurement) :
    Except String (Lanes Counts × Snapshot) := do
  let i ← index m.stream
  let counts := acc.1.get i
  return (acc.1.set i { counts with consumed := counts.consumed + 1 }, acc.2.keep m)

namespace Graph

/-- The constructor. -/
def make (capacity limit : Nat) : Except String Graph :=
  if capacity = 0 ∨ limit = 0 then .error "zero queue/batch limit"
  else .ok { capacity := capacity, limit := limit }

def advance (g : Graph) (t : Nat) : Except String Graph :=
  if t < g.clockTime then .error "clock moved backwards" else .ok { g with clockTime := t }

def offer (g : Graph) (m : Measurement) (arrival : Nat) : Except String (Bool × Graph) := do
  let i ← index m.stream
  if m.sourceTime > arrival ∨ ∃ last ∈ g.lastSequence.get i, m.sequence ≤ last then
    throw "invalid measurement identity/time"
  let g ← g.advance arrival
  let counts := g.accounting.get i
  let g := { g with lastSequence := g.lastSequence.set i (some m.sequence) }
  if (g.inbox.get i).length = g.capacity then
    return (false, { g with
      accounting := g.accounting.set i
        { counts with offered := counts.offered + 1, dropped := counts.dropped + 1 } })
  return (true, { g with
    accounting := g.accounting.set i { counts with offered := counts.offered + 1 }
    inbox := g.inbox.set i (g.inbox.get i ++ [m]) })

def select (g : Graph) (t : Nat) : Except String (Option Batch × Graph) := do
  let g ← g.advance t
  if g.running.isSome then return (none, g)
  let (inputs, inbox) := fill g.limit g.inbox
  if inputs = [] then return (none, { g with inbox := inbox })
  let b : Batch := { id := g.nextBatch, inputs := inputs }
  return (some b, { g with inbox := inbox, nextBatch := g.nextBatch + 1, running := some b })

def complete (g : Graph) (id t : Nat) : Except String (Snapshot × Graph) := do
  let some b := g.running | throw "wrong completion owner"
  if b.id ≠ id then throw "wrong completion owner"
  let g ← g.advance t
  let s : Snapshot := { g.latest.getD {} with batchId := id, completed := t }
  let (accounting, s) ← b.inputs.foldlM consume (g.accounting, s)
  return (s, { g with accounting := accounting, latest := some s, running := none })

/-- The age of a measurement at `t`, as `uint64_t` subtraction gives it. -/
def age (t : Nat) (m : Measurement) : Nat := Word.sub 64 t m.sourceTime

def control (g : Graph) (t setpoint maxImuAge : Nat) : Except String (Control × Graph) := do
  let g ← g.advance t
  let outcome := match g.latest.bind Snapshot.imu with
    | none => .missing
    | some m => if age t m ≤ maxImuAge then .usable else .stale
  return ({
    tick := g.nextTick
    setpoint := setpoint
    release := t
    outcome := outcome
    snapshot := g.latest }, { g with nextTick := g.nextTick + 1 })

def counts (g : Graph) (s : Stream) : Except String Counts := (index s).map g.accounting.get

def pending (g : Graph) (s : Stream) : Except String Nat :=
  (index s).map fun i => (g.inbox.get i).length

def inFlight (g : Graph) (s : Stream) : Nat :=
  match g.running with
  | none => 0
  | some b => b.inputs.countP (·.stream = s)

end Graph

end ScxSlam.DependentGraph
