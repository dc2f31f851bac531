import Mathlib.Algebra.Group.Nat.Defs

/-!
# ScxSlam.Executor.Work

The data `FreshnessExecutor` moves between its two threads: the task hint,
the callback profile it is built from, the executable rclcpp selects and the
`PendingWork` handed to the worker.  Times and identifiers are `uint64_t`;
they are naturals here, with the wrap or the saturation written out where
the code can reach it.
-/

namespace ScxSlam

/-- Number of `uint64_t` values. -/
def u64 : Nat := 2 ^ 64

/-- `std::numeric_limits<uint64_t>::max()`. -/
def u64Max : Nat := u64 - 1

end ScxSlam

namespace ScxSlam.Executor

/-! ## hints and profiles -/

/-- Service class of a hint (`FRESH_CLASS_*`); the constants themselves are
not part of this repository. -/
inductive FreshClass
  | background
  | deadline
  | urgent
  | other (raw : Nat)
  deriving DecidableEq, Repr

/-- Stage of a hint: `FRESH_STAGE_UNSPECIFIED` or an application's own id. -/
inductive FreshStage
  | unspecified
  | stage (id : Nat)
  deriving DecidableEq, Repr

/-- `fresh_task_hint`: the identity and the limits of one job, as the
scheduler's per-worker slot holds them.  The defaults are those of `{}`. -/
structure FreshTaskHint where
  stageId : FreshStage := .stage 0
  classId : FreshClass := .other 0
  jobId : Nat := 0
  releaseTsNs : Nat := 0
  deadlineTsNs : Nat := 0
  staleNs : Nat := 0
  budgetNs : Nat := 0
  sliceNs : Nat := 0
  weight : Nat := 0
  flags : Nat := 0
  deriving DecidableEq, Repr

/-- `CallbackProfile`, with the defaults of the header. -/
structure CallbackProfile where
  stageId : FreshStage := .unspecified
  classId : FreshClass := .background
  relativeDeadlineNs : Nat := 0
  staleNs : Nat := 0
  budgetNs : Nat := 0
  sliceNs : Nat := 0
  weight : Nat := 0
  rejectExpired : Bool := false
  deriving DecidableEq, Repr

/-- `MessageMetadata`: what the registered extractor reads off a message. -/
structure MessageMetadata where
  jobId : Nat := 0
  releaseTsNs : Nat := 0
  deriving DecidableEq, Repr

/-- `add_saturating`. -/
def addSaturating (lhs rhs : Nat) : Nat :=
  if rhs > u64Max - lhs then u64Max else lhs + rhs

/-- The fields `make_hint` copies, around the job id and release it chose. -/
def makeHintFor (profile : CallbackProfile) (jobId release : Nat) : FreshTaskHint where
  stageId := profile.stageId
  classId := profile.classId
  jobId := jobId
  releaseTsNs := release
  deadlineTsNs :=
    if profile.relativeDeadlineNs = 0 then 0
    else addSaturating release profile.relativeDeadlineNs
  staleNs := profile.staleNs
  budgetNs := profile.budgetNs
  sliceNs := profile.sliceNs
  weight := profile.weight

/-- `make_hint` with message metadata. -/
def makeHint (profile : CallbackProfile) (metadata : MessageMetadata) : FreshTaskHint :=
  makeHintFor profile metadata.jobId metadata.releaseTsNs

/-! ## executables and handed-over work -/

/-- A callback group, by identity. -/
abbrev GroupId := Nat

/-- `rclcpp::DeliveredMessageKind`, as far as `spin` tells the kinds apart. -/
inductive DeliveredMessageKind
  | rosMessage
  | other
  deriving DecidableEq, Repr

/-- A subscription: only its delivered kind is read by `spin`. -/
structure Subscription where
  kind : DeliveredMessageKind
  deriving DecidableEq, Repr

/-- `rclcpp::AnyExecutable`.  `serial` is the number of the selection that
produced it; it is not in the code and no branch reads it. -/
structure AnyExecutable where
  serial : Nat
  callbackGroup : Option GroupId
  subscription : Option Subscription
  deriving DecidableEq, Repr

/-- `Impl::ProfileBinding`.  The extractor and the observer are opaque
callables, so the binding only says whether they are set. -/
structure ProfileBinding where
  profile : CallbackProfile := {}
  metadataExtractor : Bool := false
  observer : Bool := false
  deriving DecidableEq, Repr

/-- `Impl::PendingWork`.  A message is named by the selection that created
it; `observer` says whether the observer is callable. -/
structure PendingWork where
  executable : AnyExecutable
  hint : FreshTaskHint := {}
  message : Option Nat := none
  observer : Bool := false
  rejectExpired : Bool := false
  deriving DecidableEq, Repr

/-- The selection a piece of work belongs to. -/
def PendingWork.serial (w : PendingWork) : Nat := w.executable.serial

/-- `Impl::expired` without the clock read: a hint past its deadline, or
older than its stale window, at `now`. -/
def FreshTaskHint.expiredAt (h : FreshTaskHint) (now : Nat) : Bool :=
  (h.deadlineTsNs ≠ 0 && now > h.deadlineTsNs) ||
    (h.staleNs ≠ 0 && now > h.releaseTsNs && now - h.releaseTsNs > h.staleNs)

end ScxSlam.Executor
