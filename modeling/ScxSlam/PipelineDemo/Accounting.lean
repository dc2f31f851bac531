import ScxSlam.PipelineDemo.Network

/-!
# ScxSlam.PipelineDemo.Accounting

What the fixed-window rows of `slam_pipeline_demo` say: no unsigned difference
wraps, and each is the number it is meant to be.
-/

namespace ScxSlam.PipelineDemo

open Account

def WindowQueueStats.pending (q : WindowQueueStats) : Nat := q.offered - q.dequeued - q.evicted

/-- `inflight` of `print_window_stage`. -/
def inflight (queue : WindowQueueStats) (w : WindowStageStats) : Nat :=
  queue.dequeued - w.completed - w.droppedStale

/-- Pushed before the cutoff, and not removed before it. -/
def pendingAt (cutoff : Nat) (b : Book WorkItem) : Nat :=
  b.entries.countP fun e => insideWindow cutoff e.offered &&
    !e.takenAt.any (insideWindow cutoff) && !e.prunedAt.any (insideWindow cutoff)

/-- The window counters of a stage. -/
structure WindowAccounting (s : Net) (n : Node) : Prop where
  removed : (s.line n).stage.queue.window.dequeued + (s.line n).stage.queue.window.evicted ≤
    (s.line n).stage.queue.window.offered
  pending : (s.line n).stage.queue.window.pending = pendingAt s.metricsEndNs (s.line n).book
  inflight_le : inflight (s.line n).stage.queue.window (s.line n).stage.stats.window ≤ 1
  /-- The difference does not wrap. -/
  inflight : (s.line n).stage.queue.window.dequeued =
    (s.line n).stage.stats.window.completed + (s.line n).stage.stats.window.droppedStale +
      inflight (s.line n).stage.queue.window (s.line n).stage.stats.window
  late : (s.line n).stage.stats.window.late ≤ (s.line n).stage.stats.window.completed
  offered : n.feeders ≠ [] → (s.line n).stage.queue.window.offered ≤
    fromFeeders s.line n (·.stage.stats.window.completed)

section Line

variable {args : StageArgs} {now : Nat} {L : Line}

/-- What was removed before the cutoff was offered before it. -/
theorem Line.Sound.offered_eq (h : L.Sound args now) :
    L.stage.queue.window.offered = pendingAt args.metricsEndNs L.book +
      L.stage.queue.window.dequeued + L.stage.queue.window.evicted := by
  have hearly : ∀ t t', t ≤ t' → insideWindow args.metricsEndNs t' = true →
      insideWindow args.metricsEndNs t = true := by
    intro t t' hle hin
    simp only [insideWindow, Bool.and_eq_true, decide_eq_true_eq] at hin ⊢
    exact ⟨hin.1, hle.trans_lt hin.2⟩
  rw [h.counted.offered, h.counted.dequeued, h.counted.evicted, h.book.count_offered hearly]
  rfl

theorem Line.Sound.dequeued_le (h : L.Sound args now) :
    L.stage.stats.window.completed + L.stage.stats.window.droppedStale ≤
        L.stage.queue.window.dequeued ∧
      L.stage.queue.window.dequeued ≤
        L.stage.stats.window.completed + L.stage.stats.window.droppedStale + 1 := by
  have hone : L.stage.worker.working?.toList.length ≤ 1 := by
    cases L.stage.worker.working? <;> simp
  obtain hin | ⟨-, hin⟩ := h.inFlight
  · rw [hin]
    omega
  · exact hin

end Line

/-- **Window accounting**: in every run of the network, whoever pushes and
whatever the cutoff is. -/
theorem window_accounting {setup : Setup} {actions : List Net.Action} {s : Net}
    (h : Steps.exec (Net.step setup) (Net.initial setup) actions = some s) (n : Node) :
    WindowAccounting s n := by
  have hsound := Net.sound_of_exec h
  have hline := hsound.line n
  have hoffered : (s.line n).stage.queue.window.offered = pendingAt s.metricsEndNs (s.line n).book +
      (s.line n).stage.queue.window.dequeued + (s.line n).stage.queue.window.evicted :=
    hline.offered_eq
  obtain ⟨hle, hge⟩ := hline.dequeued_le
  constructor
  case removed => omega
  case pending =>
      unfold WindowQueueStats.pending
      omega
  case inflight_le =>
      unfold PipelineDemo.inflight
      omega
  case inflight =>
      unfold PipelineDemo.inflight
      omega
  case late => exact hline.late.window
  case offered => exact fun hn => (hsound.fed n hn).offered

/-- A deadline and a freshness window of a hundred nanoseconds for all. -/
def smallSetup : Setup where
  fd := -1
  cfg _ := {
    stageId := 1
    classId := 1
    deadlineRelNs := 100
    staleNs := 100
    budgetNs := 0
    sliceNs := 0
    weight := 0 }
  dropStale := true
  self _ := 1
  self_pos _ := Nat.one_pos

/-- Three frames; the cutoff 50 comes while the second is computed. -/
def smallRun : List Net.Action :=
  [.measure 50, .work .vis, .work .vis, .tick 10, .push .vis ⟨1, 10, 0⟩, .work .vis, .work .vis,
    .tick 10, .push .vis ⟨2, 20, 0⟩, .push .vis ⟨3, 20, 0⟩, .work .vis, .work .vis, .work .vis,
    .work .vis, .work .vis, .tick 40, .work .vis]

theorem window_accounting_smallRun :
    ∃ s, Steps.exec (Net.step smallSetup) (Net.initial smallSetup) smallRun = some s ∧
      WindowAccounting s .vis ∧ (s.line .vis).stage.queue.window = ⟨3, 2, 0⟩ ∧
      inflight (s.line .vis).stage.queue.window (s.line .vis).stage.stats.window = 1 :=
  ⟨_, rfl, @window_accounting smallSetup smallRun _ rfl .vis, rfl, rfl⟩

end ScxSlam.PipelineDemo
