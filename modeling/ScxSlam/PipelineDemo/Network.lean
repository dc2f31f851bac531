import Mathlib.Logic.Function.Basic
import ScxSlam.PipelineDemo.Ledger

/-!
# ScxSlam.PipelineDemo.Network

The five stages of `slam_pipeline_demo`, each with its queue:

```
camera → vision_fe → state_est ──────→ mapping_be
lidar  → lidar_pre → lidar_reg ────────↗
```

Any producers feed the two source queues, and every party may act at any time.
-/

namespace ScxSlam.PipelineDemo

open Account

/-! ## nodes -/

/-- The stages that have a queue. -/
inductive Node
  | vis
  | est
  | lpre
  | lreg
  | map
  deriving DecidableEq, Repr

/-- `out`. -/
def Node.next : Node → Option Node
  | .vis => some .est
  | .est => some .map
  | .lpre => some .lreg
  | .lreg => some .map
  | .map => none

/-- The stages whose `out` is this one's queue. -/
def Node.feeders : Node → List Node
  | .vis => []
  | .est => [.vis]
  | .lpre => []
  | .lreg => [.lpre]
  | .map => [.est, .lreg]

/-- What `main` gives the threads before they start. -/
structure Setup where
  fd : Int
  cfg : Node → StageCfg
  dropStale : Bool
  self : Node → Nat
  self_pos : ∀ n, 0 < self n

/-- The five stages, the clock, and `metrics_end_ns`. -/
structure Net where
  now : Nat := 0
  metricsEndNs : Nat := 0
  running : Bool := true
  line : Node → Line
  published : List Publication := []

namespace Net

variable (setup : Setup)

/-- Before the threads start. -/
def initial : Net where
  line n := {
    stage := {
      queue := {
        evictStale := setup.dropStale
        ht := { pub := some setup.fd, pidTgid := some 0, cfg := some (setup.cfg n) } } } }

/-- The arguments of a `stage_worker`. -/
def args (s : Net) (n : Node) : StageArgs where
  cfg := setup.cfg n
  hasOut := n.next.isSome
  dropStale := setup.dropStale
  self := setup.self n
  self_pos := setup.self_pos n
  metricsEndNs := s.metricsEndNs

/-- `push` on the queue of a stage. -/
def push (s : Net) (n : Node) (v : WorkItem) : Net :=
  let pushed := (s.line n).push (s.args setup n) s.now v
  { s with line := Function.update s.line n pushed.1, published := s.published ++ pushed.2 }

/-- A worker's step, and what it pushes on the next queue. -/
def work (s : Net) (n : Node) : Option Net :=
  ((s.line n).work (s.args setup n) s.now s.running).map fun (L, e) =>
    let s := { s with line := Function.update s.line n L, published := s.published ++ e.hints }
    match e.out, n.next with
    | some w, some m => s.push setup m w
    | _, _ => s

inductive Action
  | tick (d : Nat)
  /-- `metrics_end_ns.store`, before anything is pushed -/
  | measure (endNs : Nat)
  /-- a producer that is not a stage pushes on a source queue -/
  | push (n : Node) (v : WorkItem)
  /-- `running.store(false)` -/
  | halt
  | stop (n : Node)
  | work (n : Node)
  deriving DecidableEq, Repr

/-- Nothing was pushed anywhere. -/
def fresh (s : Net) : Bool :=
  ([.vis, .est, .lpre, .lreg, .map] : List Node).all fun n => (s.line n).book.entries.isEmpty

/-- One step; `none` where the action is not possible. -/
def step (s : Net) : Action → Option Net
  | .tick d => some { s with now := s.now + d }
  | .measure endNs => if s.fresh then some { s with metricsEndNs := endNs } else none
  | .push n v => if n.feeders = [] then some (s.push setup n v) else none
  | .halt => some { s with running := false }
  | .stop n => some { s with line := Function.update s.line n (s.line n).stop }
  | .work n => s.work setup n

end Net

/-! ## feeding -/

/-- A worker is about to push its item on the next queue. -/
def Line.forwarding (L : Line) : Bool :=
  match L.stage.worker with
  | .forward _ => true
  | _ => false

/-- A sum over the stages that feed a queue. -/
def fromFeeders (line : Node → Line) (m : Node) (f : Line → Nat) : Nat :=
  (m.feeders.map fun k => f (line k)).sum

/-- What a queue was offered comes from the stages that feed it: every job
that is done is pushed, or about to be.  `k` jobs are between the two. -/
structure Fed (cutoff now : Nat) (line : Node → Line) (m : Node) (k : Nat) : Prop where
  pushes : (line m).book.entries.length + fromFeeders line m (·.forwarding.toNat) + k =
    fromFeeders line m (·.stage.stats.processed)
  window : now < cutoff →
    (line m).stage.queue.window.offered + fromFeeders line m (·.forwarding.toNat) + k =
      fromFeeders line m (·.stage.stats.window.completed)
  offered : (line m).stage.queue.window.offered ≤
    fromFeeders line m (·.stage.stats.window.completed)

/-- Every stage agrees with its account, and every queue with the stages that
feed it. -/
structure Net.Sound (setup : Setup) (s : Net) : Prop where
  line : ∀ n, (s.line n).Sound (s.args setup n) s.now
  fed : ∀ m, m.feeders ≠ [] → Fed s.metricsEndNs s.now s.line m 0

/-! ## what a step of a line moves -/

section Flow

variable {args : StageArgs} {now : Nat} {L L' : Line}

/-- What the next queue can see of a stage. -/
structure SameFlow (L L' : Line) : Prop where
  processed : L'.stage.stats.processed = L.stage.stats.processed
  completed : L'.stage.stats.window.completed = L.stage.stats.window.completed
  forwarding : L'.forwarding = L.forwarding

/-- A push moves what the queue was offered, and nothing the next queue sees. -/
theorem Line.push_flow (v : WorkItem) :
    (L.push args now v).1.book.entries.length = L.book.entries.length + 1 ∧
      (L.push args now v).1.stage.queue.window.offered =
        L.stage.queue.window.offered + (insideWindow args.metricsEndNs now).toNat ∧
      SameFlow L (L.push args now v).1 := by
  refine ⟨?_, (L.stage.queue.push_counters args.metricsEndNs now v).1, rfl, rfl, ?_⟩
  · have hitems : (L.push args now v).1.book.entries.map (·.item) =
        L.book.entries.map (·.item) ++ [v] := by
      simp [Line.push]
    simpa using congrArg List.length hitems
  · unfold Line.forwarding Line.push Stage.push
    cases L.stage.worker <;> rfl

/-- The worker's step keeps the items of the account. -/
theorem Line.Sound.items_record (h : L.Sound args now) :
    (L.record args now).entries.map (·.item) = L.book.entries.map (·.item) := by
  have htake : L.stage.worker.working? = none →
      (L.book.take now).entries.map (·.item) = L.book.entries.map (·.item) := by
    intro hworking
    cases hqueued : L.book.queued with
    | nil => rw [Book.take_of_queued_nil hqueued]
    | cons x rest =>
        exact Book.items_take hqueued (Option.map_eq_none_iff.mp (h.current.trans hworking))
  unfold Line.record
  cases hworker : L.stage.worker with
  | pop =>
      dsimp only
      split
      · rfl
      · exact htake (by rw [hworker]; rfl)
  | wait woken =>
      dsimp only
      split
      · rfl
      · exact htake (by rw [hworker]; rfl)
  | popped w =>
      dsimp only
      split
      · exact Book.items_close ..
      · rfl
  | compute w => exact Book.items_close ..
  | _ => rfl

theorem Stage.offered_pop (S : Stage) :
    (S.pop args now).stage.queue.window.offered = S.queue.window.offered := by
  unfold Stage.pop
  repeat' split
  · rfl
  · rfl
  · next w rest _ =>
    rw [S.queue.take_window args.metricsEndNs now w rest]

/-- The worker's step moves nothing its own queue was offered. -/
theorem Line.Sound.work_offered {running : Bool} {e : Effect} (h : L.Sound args now)
    (hwork : L.work args now running = some (L', e)) :
    L'.book.entries.length = L.book.entries.length ∧
      L'.stage.queue.window.offered = L.stage.queue.window.offered := by
  obtain ⟨e', he', heq⟩ := Option.map_eq_some_iff.mp hwork
  cases heq
  refine ⟨by simpa using congrArg List.length h.items_record, ?_⟩
  dsimp only
  unfold Stage.work at he'
  cases hworker : L.stage.worker <;> rw [hworker] at he'
  case exited => contradiction
  case pop =>
      cases he'
      exact L.stage.offered_pop
  case wait =>
      cases he'
      exact Stage.offered_pop _
  all_goals
    cases he'
    rfl

/-- `pop` is nothing the next queue sees. -/
theorem Stage.flow_pop (S : Stage) :
    (S.pop args now).out = none ∧ (S.pop args now).stage.stats = S.stats ∧
      ∀ w, (S.pop args now).stage.worker ≠ .forward w := by
  unfold Stage.pop
  repeat' split
  all_goals exact ⟨rfl, rfl, nofun⟩

/-- The worker's step, as the next queue sees it: nothing, a job that is done,
or a push. -/
theorem Line.work_flow {running : Bool} {e : Effect}
    (hwork : L.work args now running = some (L', e)) :
    (e.out = none ∧ SameFlow L L') ∨
      (e.out = none ∧ L.forwarding = false ∧ L'.forwarding = args.hasOut ∧
        L'.stage.stats.processed = L.stage.stats.processed + 1 ∧
        L'.stage.stats.window.completed =
          L.stage.stats.window.completed + (insideWindow args.metricsEndNs now).toNat) ∨
      (∃ w, e.out = some w ∧ L.forwarding = true ∧ L'.forwarding = false ∧
        L'.stage.stats = L.stage.stats) := by
  obtain ⟨e', he', heq⟩ := Option.map_eq_some_iff.mp hwork
  cases heq
  unfold Line.forwarding
  unfold Stage.work at he'
  have hquiet : ∀ S : Stage, S.stats = L.stage.stats → (∀ w, S.worker ≠ .forward w) →
      (∀ w, L.stage.worker ≠ .forward w) →
      ∀ b p q, SameFlow L { stage := S, book := b, pushed := p, processed := q } := by
    intro S hstats hnot hnot' b p q
    have hforward : ∀ L : Line, (∀ w, L.stage.worker ≠ .forward w) → L.forwarding = false := by
      intro L hL
      unfold Line.forwarding
      split
      · next w hw => exact absurd hw (hL w)
      · rfl
    refine ⟨?_, ?_, (hforward _ hnot).trans (hforward L hnot').symm⟩
    · exact congrArg StageStats.processed hstats
    · exact congrArg (·.window.completed) hstats
  cases hworker : L.stage.worker <;> rw [hworker] at he'
  case start =>
      cases he'
      exact .inl ⟨rfl, hquiet (L.stage.register args) rfl nofun (by simp [hworker]) ..⟩
  case loop last =>
      cases he'
      refine .inl ⟨rfl, hquiet { L.stage with worker := if running then .pop else .exited last } rfl
        ?_ (by simp [hworker]) ..⟩
      cases running <;> nofun
  case pop =>
      cases he'
      obtain ⟨hout, hstats, hnot⟩ := L.stage.flow_pop
      exact .inl ⟨hout, hquiet _ hstats hnot (by simp [hworker]) ..⟩
  case wait woken =>
      cases he'
      obtain ⟨hout, hstats, hnot⟩ := @Stage.flow_pop args now
        { L.stage with queue := { L.stage.queue with waiting := false } }
      exact .inl ⟨hout, hquiet _ hstats hnot (by simp [hworker]) ..⟩
  case popped w =>
      cases he'
      refine .inl ⟨rfl, ?_, ?_, ?_⟩
      · rfl
      · rfl
      · unfold Line.forwarding Stage.begin
        rw [hworker]
        cases hdrop : isStale now w args.cfg && args.dropStale <;> simp [hdrop]
  case compute w =>
      cases he'
      obtain ⟨hprocessed, -, -, hwindow⟩ := L.stage.finishStats_counts args now w
      refine .inr (.inl ⟨rfl, rfl, ?_, hprocessed, congrArg WindowStageStats.completed hwindow⟩)
      cases hout : args.hasOut <;> simp [Stage.finish, hout]
  case forward w =>
      cases he'
      exact .inr (.inr ⟨w, rfl, rfl, rfl, rfl⟩)
  case exited => contradiction

end Flow

/-! ## what a step of the network moves -/

section Step

variable {args : StageArgs} {cutoff now : Nat} {line : Node → Line} {n m : Node} {L : Line}

/-- Replacing a line moves the sums of the one queue it feeds. -/
theorem fromFeeders_update (line : Node → Line) (n m : Node) (L : Line) (f : Line → Nat) :
    fromFeeders (Function.update line n L) m f + (if n.next = some m then f (line n) else 0) =
      fromFeeders line m f + (if n.next = some m then f L else 0) := by
  unfold fromFeeders
  cases n <;> cases m <;> simp [Node.feeders, Node.next, Function.update] <;> omega

theorem fromFeeders_update_of_flow (hflow : SameFlow (line n) L) :
    fromFeeders (Function.update line n L) m (·.forwarding.toNat) =
        fromFeeders line m (·.forwarding.toNat) ∧
      fromFeeders (Function.update line n L) m (·.stage.stats.processed) =
        fromFeeders line m (·.stage.stats.processed) ∧
      fromFeeders (Function.update line n L) m (·.stage.stats.window.completed) =
        fromFeeders line m (·.stage.stats.window.completed) := by
  have hforward := fromFeeders_update line n m L (·.forwarding.toNat)
  have hprocessed := fromFeeders_update line n m L (·.stage.stats.processed)
  have hcompleted := fromFeeders_update line n m L (·.stage.stats.window.completed)
  simp only [hflow.forwarding, hflow.processed, hflow.completed, Nat.add_right_cancel_iff] at *
  exact ⟨hforward, hprocessed, hcompleted⟩

/-- A worker's step leaves every queue's own side alone. -/
theorem own_update (hlength : L.book.entries.length = (line n).book.entries.length)
    (hoffered : L.stage.queue.window.offered = (line n).stage.queue.window.offered) (m : Node) :
    (Function.update line n L m).book.entries.length = (line m).book.entries.length ∧
      (Function.update line n L m).stage.queue.window.offered =
        (line m).stage.queue.window.offered := by
  by_cases hm : m = n
  · subst hm
    rw [Function.update_self]
    exact ⟨hlength, hoffered⟩
  · rw [Function.update_of_ne hm]
    exact ⟨rfl, rfl⟩

/-- A line that no queue can tell from the one it replaces. -/
theorem Fed.update {k : Nat} (h : Fed cutoff now line m k)
    (hlength : L.book.entries.length = (line n).book.entries.length)
    (hoffered : L.stage.queue.window.offered = (line n).stage.queue.window.offered)
    (hflow : SameFlow (line n) L) : Fed cutoff now (Function.update line n L) m k := by
  obtain ⟨hown, hown'⟩ := own_update hlength hoffered m
  obtain ⟨hforward, hprocessed, hcompleted⟩ := @fromFeeders_update_of_flow line n m L hflow
  obtain ⟨h1, h2, h3⟩ := h
  constructor
  · rwa [hown, hforward, hprocessed]
  · rwa [hown', hforward, hcompleted]
  · rwa [hown', hcompleted]

theorem toNat_insideWindow (cutoff now : Nat) :
    (insideWindow cutoff now).toNat = if now < cutoff then 1 else 0 := by
  unfold insideWindow
  by_cases h : now < cutoff
  · have hne : cutoff ≠ 0 := by omega
    simp [h, hne]
  · simp [h]

/-- A worker's step, up to its push on the next queue. -/
theorem Fed.work {e : Effect} {running : Bool} (h : Fed args.metricsEndNs now line m 0)
    (hsound : (line n).Sound args now) (hout : args.hasOut = n.next.isSome)
    (hwork : (line n).work args now running = some (L, e)) :
    Fed args.metricsEndNs now (Function.update line n L) m
      (if e.out.isSome ∧ n.next = some m then 1 else 0) := by
  obtain ⟨hlength, hoffered⟩ := hsound.work_offered hwork
  obtain ⟨hown, hown'⟩ := own_update hlength hoffered m
  have hforward := fromFeeders_update line n m L (·.forwarding.toNat)
  have hprocessed := fromFeeders_update line n m L (·.stage.stats.processed)
  have hcompleted := fromFeeders_update line n m L (·.stage.stats.window.completed)
  obtain ⟨h1, h2, h3⟩ := h
  rcases Line.work_flow hwork with ⟨hnone, hflow⟩ | ⟨hnone, hf, hf', hp, hc⟩ |
    ⟨w, hsome, hf, hf', hstats⟩
  · rw [if_neg (by simp [hnone])]
    exact Fed.update ⟨h1, h2, h3⟩ hlength hoffered hflow
  · rw [toNat_insideWindow] at hc
    rw [hf, hf', hout] at hforward
    rw [hp] at hprocessed
    rw [hc] at hcompleted
    rw [if_neg (by simp [hnone])]
    by_cases hnext : n.next = some m
    · simp only [hnext, if_true, Option.isSome_some, Bool.toNat_true, Bool.toNat_false] at *
      constructor <;> grind
    · simp only [hnext, if_false] at *
      constructor <;> grind
  · rw [hf, hf'] at hforward
    rw [hstats] at hprocessed hcompleted
    by_cases hnext : n.next = some m
    · simp only [hnext, hsome, Option.isSome_some, and_self, if_true, Bool.toNat_true,
        Bool.toNat_false] at *
      constructor <;> grind
    · simp only [hnext, and_false, if_false] at *
      constructor <;> grind

/-- A push pays one job of a queue's feeders. -/
theorem Fed.push {k : Nat} (v : WorkItem)
    (h : Fed args.metricsEndNs now line m (k + if m = n then 1 else 0)) :
    Fed args.metricsEndNs now (Function.update line n ((line n).push args now v).1) m k := by
  obtain ⟨hlength, hoffered, hflow⟩ := @Line.push_flow args now (line n) v
  obtain ⟨hforward, hprocessed, hcompleted⟩ := @fromFeeders_update_of_flow line n m _ hflow
  obtain ⟨h1, h2, h3⟩ := h
  rw [toNat_insideWindow] at hoffered
  by_cases hm : m = n
  · subst hm
    rw [if_pos rfl] at h1 h2
    constructor <;> rw [Function.update_self] <;> grind
  · rw [if_neg hm] at h1 h2
    constructor <;> rw [Function.update_of_ne hm] <;> grind

end Step

/-! ## runs -/

namespace Net

variable {setup : Setup} {s s' : Net} {n : Node}

theorem sound_initial (setup : Setup) : (initial setup).Sound setup where
  line n := {
    cfg := rfl
    evictStale := rfl
    book := Book.sound_empty _
    queue := rfl
    current := rfl
    pushed := rfl
    processed := rfl
    counted := ⟨rfl, rfl, rfl, rfl, rfl, rfl, rfl, rfl⟩
    inFlight := .inl rfl
    late := ⟨Nat.le_refl _, Nat.le_refl _, Nat.le_refl _, Nat.le_refl _⟩
    stale := nofun }
  fed m _ := by
    cases m <;> exact ⟨rfl, fun _ => rfl, Nat.le_refl _⟩

/-- Replacing one line by a sound one. -/
theorem line_update {args : Node → StageArgs} {now : Nat} {line : Node → Line} {L : Line}
    (h : ∀ n, (line n).Sound (args n) now) (hL : L.Sound (args n) now) (m : Node) :
    (Function.update line n L m).Sound (args m) now := by
  by_cases hm : m = n
  · subst hm
    rwa [Function.update_self]
  · rw [Function.update_of_ne hm]
    exact h m

theorem Sound.push (h : s.Sound setup) (v : WorkItem) (hn : n.feeders = []) :
    (s.push setup n v).Sound setup where
  line := line_update h.line ((h.line n).push v)
  fed m hm := by
    refine @Fed.push (s.args setup n) s.now s.line n m 0 v ?_
    have hne : m ≠ n := fun heq => hm (heq ▸ hn)
    rw [if_neg hne]
    exact h.fed m hm

theorem Sound.work (h : s.Sound setup) (hwork : s.work setup n = some s') : s'.Sound setup := by
  obtain ⟨⟨L, e⟩, hL, heq⟩ := Option.map_eq_some_iff.mp hwork
  have hline := line_update h.line ((h.line n).work hL)
  have hfed : ∀ m, m.feeders ≠ [] → Fed s.metricsEndNs s.now (Function.update s.line n L) m
      (if e.out.isSome ∧ n.next = some m then 1 else 0) := fun m hm =>
    @Fed.work (s.args setup n) s.now s.line n m L e s.running (h.fed m hm) (h.line n) rfl hL
  dsimp only at heq
  split at heq
  · next w m0 hout hnext =>
    cases heq
    constructor
    case line => exact @line_update m0 (s.args setup) _ _ _ hline ((hline m0).push w)
    case fed =>
        intro m hm
        refine @Fed.push (s.args setup m0) s.now (Function.update s.line n L) m0 m 0 w ?_
        have hm' : Fed (s.args setup m0).metricsEndNs s.now (Function.update s.line n L) m
          (if e.out.isSome ∧ n.next = some m then 1 else 0) := hfed m hm
        rw [hout, hnext] at hm'
        rw [Nat.zero_add]
        have hiff : (m0 = m) = (m = m0) := propext eq_comm
        simpa [hiff] using hm'
  · next hnone =>
    cases heq
    refine ⟨hline, fun m hm => ?_⟩
    have hm' := hfed m hm
    rwa [if_neg] at hm'
    rintro ⟨hsome, hnext⟩
    obtain ⟨w, hw⟩ := Option.isSome_iff_exists.mp hsome
    exact hnone w m hw hnext

theorem entries_of_fresh (hfresh : s.fresh = true) (n : Node) : (s.line n).book.entries = [] := by
  have hall := List.all_eq_true.mp hfresh n (by cases n <;> decide)
  simpa using hall

/-- A worker has no item before anything was pushed. -/
theorem Sound.working_of_fresh (h : s.Sound setup) (hfresh : s.fresh = true) (n : Node) :
    (s.line n).stage.worker.working? = none := by
  have hnil := entries_of_fresh hfresh n
  simp only [Book.entries, List.append_eq_nil_iff, Option.toList_eq_nil_iff] at hnil
  rw [← (h.line n).current, hnil.1.2]
  rfl

/-- Nothing was counted before anything was pushed. -/
theorem Sound.measure (h : s.Sound setup) (hfresh : s.fresh = true) (endNs : Nat) :
    Net.Sound setup { s with metricsEndNs := endNs } := by
  have hempty := entries_of_fresh hfresh
  have hzero : ∀ n q, (s.line n).book.count q = 0 := fun n q => by
    rw [Book.count, hempty n, List.countP_nil]
  constructor
  case line =>
      intro n
      have hn := h.line n
      obtain ⟨h1, h2, h3, h4, h5, h6, h7, h8⟩ := hn.counted
      have hworking := h.working_of_fresh hfresh n
      constructor
      case cfg => exact hn.cfg
      case evictStale => exact hn.evictStale
      case book => exact hn.book
      case queue => exact hn.queue
      case current => exact hn.current
      case pushed => exact hn.pushed
      case processed => exact hn.processed
      case counted => constructor <;> simp only [hzero] at * <;> assumption
      case inFlight =>
          left
          rw [hworking, h2, h4, h5, hzero, hzero, hzero]
          rfl
      case late => exact hn.late
      case stale => exact hn.stale
  case fed =>
      intro m hm
      have hsum : ∀ f : Line → Nat, (∀ k, f (s.line k) = 0) → fromFeeders s.line m f = 0 := by
        intro f hf
        cases m <;> simp [fromFeeders, Node.feeders, hf]
      have hprocessed := hsum (·.stage.stats.processed) fun k =>
        (h.line k).counted.processed.trans (hzero k _)
      have hcompleted := hsum (·.stage.stats.window.completed) fun k =>
        (h.line k).counted.completed.trans (hzero k _)
      have hoffered := (h.line m).counted.offered.trans (hzero m _)
      have hforward : fromFeeders s.line m (·.forwarding.toNat) = 0 := by
        have hpushes := (h.fed m hm).pushes
        omega
      have hlength : (s.line m).book.entries.length = 0 := by rw [hempty m]; rfl
      constructor
      · rw [hlength, hforward, hprocessed]
      · intro _
        exact (congrArg₂ (· + · + 0) hoffered hforward).trans hcompleted.symm
      · exact hoffered.le.trans (Nat.zero_le _)

/-- One step keeps every account. -/
theorem Sound.step {a : Action} (h : s.Sound setup) (hstep : step setup s a = some s') :
    s'.Sound setup := by
  cases a with
  | tick d =>
      cases hstep
      refine ⟨fun n => (h.line n).mono (Nat.le_add_right ..), fun m hm => ?_⟩
      obtain ⟨h1, h2, h3⟩ := h.fed m hm
      exact ⟨h1, fun hlt => h2 (Nat.lt_of_le_of_lt (Nat.le_add_right ..) hlt), h3⟩
  | measure endNs =>
      obtain ⟨hfresh, hs⟩ := Option.ite_none_right_eq_some.mp hstep
      cases hs
      exact h.measure hfresh endNs
  | push n v =>
      obtain ⟨hn, hs⟩ := Option.ite_none_right_eq_some.mp hstep
      cases hs
      exact h.push v hn
  | halt =>
      cases hstep
      exact ⟨h.line, h.fed⟩
  | stop n =>
      cases hstep
      exact ⟨line_update h.line (h.line n).stop, fun m hm =>
        (h.fed m hm).update rfl rfl ⟨rfl, rfl, rfl⟩⟩
  | work n => exact h.work hstep

/-- Every run keeps every account. -/
theorem sound_of_exec {actions : List Action}
    (h : Steps.exec (step setup) (initial setup) actions = some s) : s.Sound setup :=
  Steps.Preserved.exec (fun _ _ _ hs hstep => Sound.step hs hstep) (sound_initial setup) h

end Net

end ScxSlam.PipelineDemo
