import Mathlib.Data.List.Nodup
import Mathlib.Data.List.Perm.Basic
import Mathlib.Tactic.Common
import ScxSlam.Lib.Steps
import ScxSlam.RosPipeline.Pipeline

/-!
# ScxSlam.RosPipeline.Opportunity

Source opportunities of the ROS pipeline.  A camera message is one opportunity
for each of vision, estimator and mapping.  Along every run each stage's share
of it is in one place: resolved in the stage's counters, or still owed by a
queue or an executor on the way to the stage.  A rejection pays for every
stage downstream, because the message goes no further.
-/

namespace ScxSlam.RosPipeline

/-! ## reading the ledger -/

/-- A message is done with at a stage. -/
def Kind.resolves : Kind → Bool
  | .completed | .dropped | .upstreamDropped => true
  | .offered | .arrived | .executed => false

/-- Bumps of one counter of a stage. -/
def tally (T : Stage) (k : Kind) (l : List Entry) : Nat :=
  l.countP fun e => decide (e.stage = T) && decide (e.kind = k)

/-- How often a job has been resolved at a stage. -/
def resolvedAt (T : Stage) (x : Job) (l : List Entry) : Nat :=
  l.countP fun e => (decide (e.stage = T) && e.kind.resolves) && decide (e.job = x)

/-- How often a job has been offered to a stage. -/
def offeredAt (T : Stage) (x : Job) (l : List Entry) : Nat :=
  l.countP fun e => (decide (e.stage = T) && decide (e.kind = .offered)) && decide (e.job = x)

section Ledger

variable (T : Stage) (k : Kind) (x : Job) (l l' : List Entry)

/-- The counts of a ledger add up over its parts. -/
@[simp] theorem tally_append : tally T k (l ++ l') = tally T k l + tally T k l' :=
  List.countP_append ..

@[simp] theorem resolvedAt_append :
    resolvedAt T x (l ++ l') = resolvedAt T x l + resolvedAt T x l' :=
  List.countP_append ..

@[simp] theorem offeredAt_append :
    offeredAt T x (l ++ l') = offeredAt T x l + offeredAt T x l' :=
  List.countP_append ..

@[simp] theorem tally_nil : tally T k [] = 0 := rfl

@[simp] theorem resolvedAt_nil : resolvedAt T x [] = 0 := rfl

@[simp] theorem offeredAt_nil : offeredAt T x [] = 0 := rfl

@[simp] theorem tally_singleton (e : Entry) :
    tally T k [e] = if e.stage = T ∧ e.kind = k then 1 else 0 := by
  simp [tally, List.countP_cons]

@[simp] theorem resolvedAt_singleton (e : Entry) :
    resolvedAt T x [e] =
      if (e.stage = T ∧ e.kind.resolves = true) ∧ e.job = x then 1 else 0 := by
  simp [resolvedAt, List.countP_cons]

@[simp] theorem offeredAt_singleton (e : Entry) :
    offeredAt T x [e] = if (e.stage = T ∧ e.kind = .offered) ∧ e.job = x then 1 else 0 := by
  simp [offeredAt, List.countP_cons]

variable {l}

/-- Two kinds of entries that agree on every job are equally many. -/
theorem countP_eq_of_jobs {p q : Entry → Bool}
    (h : ∀ x, l.countP (fun e => p e && decide (e.job = x)) =
      l.countP fun e => q e && decide (e.job = x)) : l.countP p = l.countP q := by
  have hcount : ∀ (p : Entry → Bool) (x : Job), ((l.filter p).map Entry.job).count x =
      l.countP fun e => p e && decide (e.job = x) := by
    intro p x
    rw [List.count, List.countP_map, List.countP_filter]
    refine List.countP_congr fun e _ => ?_
    simp [and_comm]
  have hperm : ((l.filter p).map Entry.job).Perm ((l.filter q).map Entry.job) := by
    refine List.perm_iff_count.mpr fun x => ?_
    rw [hcount, hcount, h]
  have hlen := hperm.length_eq
  rwa [List.length_map, List.length_map, ← List.countP_eq_length_filter,
    ← List.countP_eq_length_filter] at hlen

/-- A resolution is a completion, a drop or an upstream drop. -/
theorem countP_resolves : l.countP (fun e => decide (e.stage = T) && e.kind.resolves) =
    tally T .completed l + tally T .dropped l + tally T .upstreamDropped l := by
  induction l with
  | nil => rfl
  | cons e l ih =>
      simp only [tally, List.countP_cons] at ih ⊢
      rw [ih]
      cases hk : e.kind <;> by_cases hT : e.stage = T <;> simp [hT, Kind.resolves] <;> omega

end Ledger

/-! ## what is owed -/

/-- The stages that a message owes something to before a stage selects it. -/
def Stage.line (S : Stage) : List Stage := S :: S.downstream

/-- Sum over the stages. -/
def sumStages (f : Stage → Nat) : Nat := f .imu + f .vision + f .estimator + f .mapping

/-- Only one stage's share of the sum has changed. -/
theorem sumStages_update {f g : Stage → Nat} (S : Stage) (h : ∀ R, R ≠ S → g R = f R) :
    sumStages g + f S = sumStages f + g S := by
  unfold sumStages
  cases S
  · rw [h .vision nofun, h .estimator nofun, h .mapping nofun]
    omega
  · rw [h .imu nofun, h .estimator nofun, h .mapping nofun]
    omega
  · rw [h .imu nofun, h .vision nofun, h .mapping nofun]
    omega
  · rw [h .imu nofun, h .vision nofun, h .estimator nofun]
    omega

/-- What an executor still owes to stage `T` for job `x`. -/
def StagePc.owes (S T : Stage) (x : Job) : StagePc → Nat
  | .idle => 0
  | .selected j | .decide j | .drop j | .enter j | .compute j _ _ =>
      if j = x then S.line.count T else 0
  | .resolve j todo => if j = x then todo.count T else 0
  | .publish j => if j = x then S.downstream.count T else 0

/-- What stage `S`, with its subscription, owes to stage `T` for job `x`. -/
def State.owed (s : State) (T : Stage) (x : Job) (S : Stage) : Nat :=
  (s.queue S).count x * S.line.count T + (s.pc S).owes S T x

/-- What the whole pipeline owes to stage `T` for job `x`. -/
def State.load (s : State) (T : Stage) (x : Job) : Nat := sumStages (s.owed T x)

/-- What the audit still owes to stage `T` for job `x`. -/
def AuditPc.owes (T : Stage) (x : Job) : AuditPc → Nat
  | .idle => 0
  | .offering j todo => if j = x then todo.count T else 0

/-- The external topic at the start of a stage's line. -/
def Stage.source : Stage → Source
  | .imu => .imu
  | .vision | .estimator | .mapping => .camera

/-- What the audit's subscriptions and its executor owe to stage `T`. -/
def State.auditLoad (s : State) (T : Stage) (x : Job) : Nat :=
  (s.auditQueue T.source).count x + s.audit.owes T x

/-- An arrival that is neither executed nor dropped yet. -/
def StagePc.arriving (w : Window) : StagePc → Nat
  | .decide j | .drop j | .enter j => (w.measured j.message).toNat
  | _ => 0

/-- An execution that is not completed yet. -/
def StagePc.running (w : Window) : StagePc → Nat
  | .compute j _ _ => (w.measured j.message).toNat
  | _ => 0

/-- An upstream drop that is not counted yet. -/
def StagePc.unresolved (T : Stage) : StagePc → Nat
  | .resolve _ todo => todo.count T
  | _ => 0

/-- Upstream drops of a stage that are not counted yet. -/
def State.unresolved (s : State) (T : Stage) : Nat := sumStages fun S => (s.pc S).unresolved T

/-- Drops at the stages that `T` is downstream of. -/
def dropsAbove (T : Stage) (l : List Entry) : Nat :=
  sumStages fun S => tally S .dropped l * S.downstream.count T

section Wiring

/-- A stage publishes to those behind it. -/
theorem line_output {S T : Stage} (h : S.output = some T) : T.line = S.downstream := by
  cases S <;> cases h <;> rfl

/-- A stage without an output has none behind it. -/
theorem downstream_of_no_output {S : Stage} (h : S.output = none) : S.downstream = [] := by
  cases S <;> first | rfl | cases h

/-- A source reaches each stage that it feeds once. -/
theorem count_line_subscriber (src : Source) (T : Stage) :
    src.subscriber.line.count T = if T.source = src then 1 else 0 := by
  cases src <;> cases T <;> rfl

/-- A source is audited once for each stage that it feeds. -/
theorem count_audited (src : Source) (T : Stage) :
    src.audited.count T = if T.source = src then 1 else 0 := by
  cases src <;> cases T <;> rfl

variable (s : State) (T S : Stage) (x j : Job)

/-- A delivery adds to what is owed. -/
theorem load_deliver : (s.deliver S j).load T x =
    s.load T x + if j = x then S.line.count T else 0 := by
  have hsum := sumStages_update (f := s.owed T x) (g := (s.deliver S j).owed T x) S
    fun R hR => by simp only [State.owed, State.deliver, Function.update_of_ne hR]
  have hnew : (s.deliver S j).owed T x S =
      s.owed T x S + if j = x then S.line.count T else 0 := by
    simp only [State.owed, State.deliver, Function.update_self, List.count_append,
      List.count_singleton, beq_iff_eq]
    split
    · rw [Nat.add_mul, Nat.one_mul]
      omega
    · rfl
  rw [State.load, State.load]
  omega

/-- Only the moved executor's debt changes. -/
theorem load_update {s s' : State} {pc : StagePc} (h : s'.pc = Function.update s.pc S pc)
    (hq : s'.queue = s.queue) :
    s'.load T x + (s.pc S).owes S T x = s.load T x + pc.owes S T x := by
  have hsum := sumStages_update (f := s.owed T x) (g := s'.owed T x) S
    fun R hR => by simp only [State.owed, h, hq, Function.update_of_ne hR]
  have hnew : s'.owed T x S = (s.queue S).count x * S.line.count T + pc.owes S T x := by
    simp only [State.owed, h, hq, Function.update_self]
  have hold : s.owed T x S = (s.queue S).count x * S.line.count T + (s.pc S).owes S T x := rfl
  rw [State.load, State.load]
  omega

/-- Only the stage that moves has its share changed. -/
theorem unresolved_update {s s' : State} {pc : StagePc} (h : s'.pc = Function.update s.pc S pc) :
    s'.unresolved T + (s.pc S).unresolved T = s.unresolved T + pc.unresolved T := by
  have hsum := sumStages_update (f := fun R => (s.pc R).unresolved T)
    (g := fun R => (s'.pc R).unresolved T) S
    fun R hR => by simp only [h, Function.update_of_ne hR]
  simp only [h, Function.update_self] at hsum
  simp only [State.unresolved, h]
  exact hsum

@[simp] theorem dropsAbove_nil : dropsAbove T [] = 0 := by
  simp [dropsAbove, sumStages]

@[simp] theorem dropsAbove_singleton (e : Entry) : dropsAbove T [e] =
    if e.kind = .dropped then e.stage.downstream.count T else 0 := by
  by_cases hk : e.kind = .dropped
  · cases hs : e.stage <;> simp [dropsAbove, sumStages, hs, hk]
  · simp [dropsAbove, sumStages, hk]

/-- The drops of a ledger add up over its parts. -/
theorem dropsAbove_append (l l' : List Entry) :
    dropsAbove T (l ++ l') = dropsAbove T l + dropsAbove T l' := by
  simp only [dropsAbove, sumStages, tally_append, Nat.add_mul]
  omega

end Wiring

/-! ## the books -/

/-- Counters and ledger agree, only measured jobs are counted, and what is
published is counted or still owed. -/
structure Books (w : Window) (s : State) : Prop where
  counted : ∀ T k, (s.stats T).count k = tally T k s.ledger
  measured : ∀ e ∈ s.ledger, w.measured e.job.message = true
  resolving : ∀ S j todo, s.pc S = .resolve j todo → w.measured j.message = true
  offering : ∀ j todo, s.audit = .offering j todo → w.measured j.message = true
  conserved : ∀ T x, w.measured x.message = true →
    resolvedAt T x s.ledger + s.load T x = (s.published T.source).count x
  offered : ∀ T x, w.measured x.message = true →
    offeredAt T x s.ledger + s.auditLoad T x = (s.published T.source).count x
  arrived : ∀ T, tally T .arrived s.ledger =
    tally T .executed s.ledger + tally T .dropped s.ledger + (s.pc T).arriving w
  executed : ∀ T, tally T .executed s.ledger =
    tally T .completed s.ledger + (s.pc T).running w
  upstream : ∀ T, tally T .upstreamDropped s.ledger + s.unresolved T = dropsAbove T s.ledger
  once : ∀ src, ((s.published src).map Job.uid).Nodup
  fresh : ∀ src, ∀ j ∈ s.published src, j.uid < s.nextUid

section Turns

variable {w : Window} {s s' : State} {S : Stage} {pc pc' : StagePc} {es : List Entry} {j : Job}

/-- What a step of an executor does to its flow: the entries it makes are
covered by what it holds before and after. -/
structure Flows (w : Window) (S : Stage) (pc pc' : StagePc) (es : List Entry) : Prop where
  measured : ∀ e ∈ es, w.measured e.job.message = true ∧ e.kind ≠ .offered
  resolving : ∀ j todo, pc' = .resolve j todo → w.measured j.message = true
  arrived : ∀ T, tally T .arrived es + (if S = T then pc.arriving w else 0) =
    tally T .executed es + tally T .dropped es + if S = T then pc'.arriving w else 0
  executed : ∀ T, tally T .executed es + (if S = T then pc.running w else 0) =
    tally T .completed es + if S = T then pc'.running w else 0
  upstream : ∀ T, tally T .upstreamDropped es + pc'.unresolved T =
    pc.unresolved T + dropsAbove T es

/-- A step of an executor that flows and loses no debt keeps the books. -/
theorem Books.turn (h : Books w s) (hf : Flows w S (s.pc S) pc es)
    (hload : ∀ T x, w.measured x.message = true → resolvedAt T x es + s'.load T x = s.load T x)
    (hstats : ∀ T k, (s'.stats T).count k = (s.stats T).count k + tally T k es)
    (hpc : s'.pc = Function.update s.pc S pc) (hledger : s'.ledger = s.ledger ++ es)
    (haudit : s'.audit = s.audit) (hqueue : s'.auditQueue = s.auditQueue)
    (hpublished : s'.published = s.published) (hnext : s'.nextUid = s.nextUid) :
    Books w s' := by
  have hown : ∀ (f : StagePc → Nat) (T : Stage),
      f (s'.pc T) + (if S = T then f (s.pc S) else 0) =
        f (s.pc T) + if S = T then f pc else 0 := by
    intro f T
    rw [hpc]
    by_cases hT : S = T
    · subst hT
      rw [Function.update_self, if_pos rfl, if_pos rfl, Nat.add_comm]
    · rw [Function.update_of_ne (Ne.symm hT), if_neg hT, if_neg hT]
  have hoffered : ∀ T x, offeredAt T x es = 0 := by
    intro T x
    refine List.countP_eq_zero.mpr fun e he => ?_
    simp [(hf.measured e he).2]
  constructor
  case counted =>
      intro T k
      rw [hstats, h.counted, hledger, tally_append]
  case measured =>
      intro e he
      rw [hledger] at he
      obtain he | he := List.mem_append.mp he
      · exact h.measured e he
      · exact (hf.measured e he).1
  case resolving =>
      intro R j todo hR
      rw [hpc] at hR
      by_cases hRS : R = S
      · subst hRS
        rw [Function.update_self] at hR
        exact hf.resolving j todo hR
      · rw [Function.update_of_ne hRS] at hR
        exact h.resolving R j todo hR
  case offering => rw [haudit]; exact h.offering
  case conserved =>
      intro T x hx
      have hold := h.conserved T x hx
      have hstep := hload T x hx
      rw [hledger, resolvedAt_append, hpublished]
      omega
  case offered =>
      intro T x hx
      have hold := h.offered T x hx
      rw [hledger, offeredAt_append, hoffered, hpublished, State.auditLoad, hqueue, haudit]
      exact hold
  case arrived =>
      intro T
      have hold := h.arrived T
      have hstep := hf.arrived T
      have hpcs := hown (StagePc.arriving w) T
      simp only [hledger, tally_append]
      omega
  case executed =>
      intro T
      have hold := h.executed T
      have hstep := hf.executed T
      have hpcs := hown (StagePc.running w) T
      simp only [hledger, tally_append]
      omega
  case upstream =>
      intro T
      have hold := h.upstream T
      have hstep := hf.upstream T
      have hpcs := unresolved_update T S hpc
      rw [hledger, tally_append, dropsAbove_append]
      omega
  case once => rw [hpublished]; exact h.once
  case fresh => rw [hpublished, hnext]; exact h.fresh

/-- A step that counts nothing. -/
theorem Flows.quiet (hresolving : ∀ j todo, pc' = .resolve j todo → w.measured j.message = true)
    (harriving : pc'.arriving w = pc.arriving w) (hrunning : pc'.running w = pc.running w)
    (hunresolved : ∀ T, pc'.unresolved T = pc.unresolved T) : Flows w S pc pc' [] where
  measured := nofun
  resolving := hresolving
  arrived T := by simp [harriving]
  executed T := by simp [hrunning]
  upstream T := by simp [hunresolved]

/-- A step that counts nothing and passes its debt on. -/
theorem Books.quiet (h : Books w s) (hpc : s.pc S = pc) (hf : Flows w S pc pc' [])
    (howes : ∀ T x, w.measured x.message = true → pc'.owes S T x = pc.owes S T x) :
    Books w (s.setPc S pc') := by
  refine h.turn (hpc.symm ▸ hf) ?_ (fun T k => rfl) rfl (List.append_nil _).symm rfl rfl rfl rfl
  intro T x hx
  have hload : (s.setPc S pc').load T x + (s.pc S).owes S T x =
      s.load T x + pc'.owes S T x := load_update T S x rfl rfl
  rw [hpc, howes T x hx] at hload
  rw [resolvedAt_nil]
  omega

/-- A counter function bumps one counter. -/
def Bumps (k : Kind) (f : StageStats → StageStats) : Prop :=
  ∀ stats k', (f stats).count k' = stats.count k' + if k = k' then 1 else 0

/-- An entry is counted by its stage, under its kind. -/
theorem note_stats {R : Stage} {k : Kind} {f : StageStats → StageStats} (hf : Bumps k f)
    (T : Stage) (k' : Kind) :
    ((s.note R k j f).stats T).count k' = (s.stats T).count k' + tally T k' [⟨R, k, j⟩] := by
  rw [tally_singleton]
  by_cases hT : T = R
  · subst hT
    simp only [State.note, Function.update_self, true_and]
    exact hf (s.stats T) k'
  · have hRT : ¬ R = T := fun h => hT h.symm
    simp [State.note, Function.update_of_ne hT, hRT]

/-- A step that counts a job at stage `R` and settles as much of its debt. -/
theorem Books.note {R : Stage} {k : Kind} {f : StageStats → StageStats} (h : Books w s)
    (hpc : s.pc S = pc) (hbumps : Bumps k f) (hf : Flows w S pc pc' [⟨R, k, j⟩])
    (howes : ∀ T x, w.measured x.message = true →
      resolvedAt T x [⟨R, k, j⟩] + pc'.owes S T x = pc.owes S T x) :
    Books w ((s.note R k j f).setPc S pc') := by
  refine h.turn (hpc.symm ▸ hf) ?_ (note_stats hbumps) rfl rfl rfl rfl rfl rfl
  intro T x hx
  have hload : ((s.note R k j f).setPc S pc').load T x + (s.pc S).owes S T x =
      s.load T x + pc'.owes S T x := load_update T S x rfl rfl
  have hstep := howes T x hx
  rw [hpc] at hload
  omega

/-! ## each step of an executor -/

/-- An arrival is counted as such. -/
theorem bumps_arrived :
    Bumps .arrived fun stats => { stats with arrivals := stats.arrivals + 1 } := by
  intro stats k
  cases k <;> rfl

/-- A drop is counted as such. -/
theorem bumps_dropped :
    Bumps .dropped fun stats => { stats with dropped := stats.dropped + 1 } := by
  intro stats k
  cases k <;> rfl

/-- A drop further up is counted as such. -/
theorem bumps_upstreamDropped : Bumps .upstreamDropped fun stats =>
    { stats with upstreamDropped := stats.upstreamDropped + 1 } := by
  intro stats k
  cases k <;> rfl

/-- An offer is counted as such. -/
theorem bumps_offer (m : Message) : Bumps .offered (·.offer m) := by
  intro stats k
  cases k <;> rfl

/-- The start of a callback is counted as such. -/
theorem bumps_enter (cpu : Nat) : Bumps .executed (·.enter cpu) := by
  intro stats k
  cases k <;> rfl

/-- The end of a callback is counted as such. -/
theorem bumps_leave (m : Message) (start now cpu deadlineNs staleNs : Nat) :
    Bumps .completed (·.leave m start now cpu deadlineNs staleNs) := by
  intro stats k
  cases k <;> rfl

/-- A job that is not measured is not the one in question. -/
theorem ne_of_not_measured {x : Job} (hm : ¬ w.measured j.message = true)
    (hx : w.measured x.message = true) : j ≠ x := by
  intro heq
  rw [heq] at hm
  exact hm hx

/-- Selecting a message moves a debt from the queue to the executor. -/
theorem books_select {rest : List Job} (h : Books w s) (hpc : s.pc S = .idle)
    (hq : s.queue S = j :: rest) :
    Books w { s.setPc S (.selected j) with queue := Function.update s.queue S rest } := by
  have hflows : Flows w S (s.pc S) (.selected j) [] := by
    rw [hpc]
    exact .quiet (fun _ _ heq => by cases heq) rfl rfl fun _ => rfl
  refine h.turn hflows ?_ (fun T k => rfl) rfl (List.append_nil _).symm rfl rfl rfl rfl
  intro T x _
  let s' : State := { s.setPc S (.selected j) with queue := Function.update s.queue S rest }
  have hsum : sumStages (s'.owed T x) + s.owed T x S = sumStages (s.owed T x) + s'.owed T x S :=
    sumStages_update S fun R hR => by
      simp only [s', State.owed, State.setPc, Function.update_of_ne hR]
  have hnew : s'.owed T x S =
      rest.count x * S.line.count T + if j = x then S.line.count T else 0 := by
    simp only [s', State.owed, State.setPc, Function.update_self, StagePc.owes]
  have hold : s.owed T x S =
      rest.count x * S.line.count T + if j = x then S.line.count T else 0 := by
    rw [State.owed, hq, hpc, List.count_cons, StagePc.owes]
    by_cases hx : j = x
    · simp [hx, Nat.add_mul]
    · simp [hx]
  show resolvedAt T x [] + sumStages (s'.owed T x) = sumStages (s.owed T x)
  rw [resolvedAt_nil]
  omega

/-- A selected message is announced, and counted if it is measured. -/
theorem books_announce (h : Books w s) (hpc : s.pc S = .selected j) :
    Books w (State.setPc (if w.measured j.message then
      s.note S .arrived j fun stats => { stats with arrivals := stats.arrivals + 1 } else s) S
      (.decide j)) := by
  split
  · next hm =>
    refine h.note hpc bumps_arrived ⟨?_, ?_, ?_, ?_, ?_⟩ ?_
    · simp [hm]
    · intro _ _ heq
      cases heq
    · intro T
      by_cases hT : S = T <;> simp [StagePc.arriving, hm, hT]
    · intro T
      simp [StagePc.running]
    · intro T
      simp [StagePc.unresolved]
    · intro T x _
      simp [Kind.resolves, StagePc.owes]
  · next hm =>
    refine h.quiet hpc (.quiet ?_ ?_ rfl fun _ => rfl) fun T x _ => rfl
    · intro _ _ heq
      cases heq
    · simp [StagePc.arriving, hm]

/-- The verdict about a message is no entry. -/
theorem books_decide (h : Books w s) (hpc : s.pc S = .decide j) (b : Bool) :
    Books w (s.setPc S (if b then .drop j else .enter j)) := by
  cases b <;> refine h.quiet hpc (.quiet ?_ rfl rfl fun _ => rfl) fun T x _ => rfl
  · intro _ _ heq
    cases heq
  · intro _ _ heq
    cases heq

/-- A measured message is dropped, and the stages behind are told. -/
theorem books_drop (h : Books w s) (hpc : s.pc S = .drop j) (hm : w.measured j.message = true) :
    Books w ((s.note S .dropped j fun stats =>
      { stats with dropped := stats.dropped + 1 }).setPc S (.resolve j S.downstream)) := by
  refine h.note hpc bumps_dropped ⟨?_, ?_, ?_, ?_, ?_⟩ ?_
  · simp [hm]
  · intro j' _ heq
    cases heq
    exact hm
  · intro T
    by_cases hT : S = T <;> simp [StagePc.arriving, hm, hT]
  · intro T
    simp [StagePc.running]
  · intro T
    simp [StagePc.unresolved]
  · intro T x _
    by_cases hx : j = x
    · simp [Kind.resolves, StagePc.owes, hx, Stage.line, List.count_cons]
      omega
    · simp [StagePc.owes, hx]

/-- An executor forgets a job that owes nothing any more. -/
theorem books_done (h : Books w s) (hpc : s.pc S = pc) (harriving : pc.arriving w = 0)
    (hrunning : pc.running w = 0) (hunresolved : ∀ T, pc.unresolved T = 0)
    (howes : ∀ T x, w.measured x.message = true → pc.owes S T x = 0) :
    Books w (s.setPc S .idle) := by
  refine h.quiet hpc (.quiet ?_ harriving.symm hrunning.symm fun T => (hunresolved T).symm)
    fun T x hx => (howes T x hx).symm
  intro _ _ heq
  cases heq

/-- A message outside the window is dropped without an entry. -/
theorem books_drop_unmeasured (h : Books w s) (hpc : s.pc S = .drop j)
    (hm : ¬ w.measured j.message = true) : Books w (s.setPc S .idle) := by
  refine books_done h hpc ?_ rfl (fun _ => rfl) fun T x hx => ?_
  · simp [StagePc.arriving, hm]
  · simp [StagePc.owes, ne_of_not_measured hm hx]

/-- Each turn of the observer's loop resolves the job at one more stage. -/
theorem books_resolve {R : Stage} {todo : List Stage} (h : Books w s)
    (hpc : s.pc S = .resolve j (R :: todo)) :
    Books w ((s.note R .upstreamDropped j fun stats =>
      { stats with upstreamDropped := stats.upstreamDropped + 1 }).setPc S (.resolve j todo)) := by
  have hm : w.measured j.message = true := h.resolving S j _ hpc
  refine h.note hpc bumps_upstreamDropped ⟨?_, ?_, ?_, ?_, ?_⟩ ?_
  · simp [hm]
  · intro j' _ heq
    cases heq
    exact hm
  · intro T
    simp [StagePc.arriving]
  · intro T
    simp [StagePc.running]
  · intro T
    simp only [tally_singleton, and_true, StagePc.unresolved, dropsAbove_singleton, List.count_cons,
      beq_iff_eq, reduceCtorEq, if_false]
    omega
  · intro T x _
    by_cases hx : j = x
    · simp [Kind.resolves, StagePc.owes, hx, List.count_cons]
      omega
    · simp [StagePc.owes, hx]

/-- The first measured job of a stage is no entry. -/
theorem books_anchor (h : Books w s) (S : Stage) (j : Job) : Books w (s.anchor S j) := by
  unfold State.anchor
  split
  · exact ⟨h.counted, h.measured, h.resolving, h.offering, h.conserved, h.offered, h.arrived,
      h.executed, h.upstream, h.once, h.fresh⟩
  · exact h

/-- Noting the first job moves no stage. -/
theorem anchor_pc (s : State) (S : Stage) (j : Job) : (s.anchor S j).pc = s.pc := by
  unfold State.anchor
  split <;> rfl

/-- A callback begins, and is counted if its message is measured. -/
theorem books_enter (h : Books w s) (hpc : s.pc S = .enter j) (start cpu : Nat) :
    Books w (State.setPc (if w.measured j.message then
      (s.anchor S j).note S .executed j (·.enter cpu) else s) S (.compute j start cpu)) := by
  split
  · next hm =>
    have hpc' : (s.anchor S j).pc S = .enter j := by rw [anchor_pc, hpc]
    refine (books_anchor h S j).note hpc' (bumps_enter cpu) ⟨?_, ?_, ?_, ?_, ?_⟩ ?_
    · simp [hm]
    · intro _ _ heq
      cases heq
    · intro T
      by_cases hT : S = T <;> simp [StagePc.arriving, hm, hT]
    · intro T
      by_cases hT : S = T <;> simp [StagePc.running, hm, hT]
    · intro T
      simp [StagePc.unresolved]
    · intro T x _
      simp [Kind.resolves, StagePc.owes]
  · next hm =>
    refine h.quiet hpc (.quiet ?_ ?_ ?_ fun _ => rfl) fun T x _ => rfl
    · intro _ _ heq
      cases heq
    · simp [StagePc.arriving, hm]
    · simp [StagePc.running, hm]

/-- What follows a completed callback owes the stages downstream. -/
theorem owes_after (S T : Stage) (x : Job) :
    (if S.output.isSome then StagePc.publish j else .idle).owes S T x =
      if j = x then S.downstream.count T else 0 := by
  cases ho : S.output with
  | none => simp [StagePc.owes, downstream_of_no_output ho]
  | some O => rfl

/-- A callback ends, and is counted if its message is measured. -/
theorem books_complete {start cpuStart : Nat} {f : StageStats → StageStats} (h : Books w s)
    (hpc : s.pc S = .compute j start cpuStart) (hf : Bumps .completed f) :
    Books w (State.setPc (if w.measured j.message then s.note S .completed j f else s) S
      (if S.output.isSome then .publish j else .idle)) := by
  have hafter : ∀ P : StagePc → Prop, P (.publish j) → P .idle →
      P (if S.output.isSome then .publish j else .idle) := by
    intro P hp hi
    split <;> assumption
  split
  · next hm =>
    refine h.note hpc hf ⟨?_, ?_, ?_, ?_, ?_⟩ ?_
    · simp [hm]
    · refine hafter (fun pc => ∀ i todo, pc = .resolve i todo → w.measured i.message = true)
        ?_ ?_
      · intro _ _ heq
        cases heq
      · intro _ _ heq
        cases heq
    · intro T
      refine hafter (fun pc => _ = _ + if S = T then pc.arriving w else 0) ?_ ?_ <;>
        simp [StagePc.arriving]
    · intro T
      refine hafter (fun pc => _ = _ + if S = T then pc.running w else 0) ?_ ?_ <;>
        simp [StagePc.running, hm]
    · intro T
      refine hafter (fun pc => _ + pc.unresolved T = _) ?_ ?_ <;> simp [StagePc.unresolved]
    · intro T x _
      rw [owes_after]
      by_cases hx : j = x
      · simp [Kind.resolves, StagePc.owes, hx, Stage.line, List.count_cons]
        omega
      · simp [StagePc.owes, hx]
  · next hm =>
    refine h.quiet hpc (.quiet ?_ ?_ ?_ fun T => ?_) fun T x hx => ?_
    · refine hafter (fun pc => ∀ i todo, pc = .resolve i todo → w.measured i.message = true)
        ?_ ?_
      · intro _ _ heq
        cases heq
      · intro _ _ heq
        cases heq
    · refine hafter (fun pc => pc.arriving w = _) ?_ ?_ <;> simp [StagePc.arriving]
    · refine hafter (fun pc => pc.running w = _) ?_ ?_ <;> simp [StagePc.running, hm]
    · refine hafter (fun pc => pc.unresolved T = _) ?_ ?_ <;> simp [StagePc.unresolved]
    · rw [owes_after]
      simp [StagePc.owes, ne_of_not_measured hm hx]

/-- Publishing moves a debt to the next stage's queue. -/
theorem books_publish {O : Stage} (h : Books w s) (hpc : s.pc S = .publish j)
    (ho : S.output = some O) : Books w ((s.deliver O j).setPc S .idle) := by
  have hflows : Flows w S (s.pc S) .idle [] := by
    rw [hpc]
    exact .quiet (fun _ _ heq => by cases heq) rfl rfl fun _ => rfl
  refine h.turn hflows ?_ (fun T k => rfl) rfl (List.append_nil _).symm rfl rfl rfl rfl
  intro T x _
  have hsent := load_deliver s T O x j
  have hdone : ((s.deliver O j).setPc S .idle).load T x + (s.pc S).owes S T x =
      (s.deliver O j).load T x + StagePc.idle.owes S T x :=
    load_update (s := s.deliver O j) T S x rfl rfl
  rw [line_output ho] at hsent
  rw [hpc] at hdone
  simp only [StagePc.owes] at hdone
  rw [resolvedAt_nil]
  omega

/-- Every step of an executor. -/
theorem books_stage {rejected : Bool} {cpu : Nat} (h : Books w s)
    (hs : s.stageStep w S rejected cpu = some s') : Books w s' := by
  cases hpc : s.pc S with
  | idle =>
      rw [State.stageStep, hpc] at hs
      cases hq : s.queue S with
      | nil => simp [hq] at hs
      | cons j rest =>
          simp only [hq, Option.some.injEq] at hs
          exact hs ▸ books_select h hpc hq
  | selected j =>
      rw [State.stageStep, hpc] at hs
      cases hs
      exact books_announce h hpc
  | decide j =>
      rw [State.stageStep, hpc] at hs
      cases hs
      exact books_decide h hpc _
  | drop j =>
      rw [State.stageStep, hpc] at hs
      dsimp only at hs
      split at hs <;> next hm =>
        cases hs
        first | exact books_drop h hpc hm | exact books_drop_unmeasured h hpc hm
  | resolve j todo =>
      rw [State.stageStep, hpc] at hs
      cases todo with
      | nil =>
          cases hs
          refine books_done h hpc rfl rfl (fun _ => rfl) fun T x _ => ?_
          simp [StagePc.owes]
      | cons R todo =>
          cases hs
          exact books_resolve h hpc
  | enter j =>
      rw [State.stageStep, hpc] at hs
      cases hs
      exact books_enter h hpc _ _
  | compute j start cpuStart =>
      rw [State.stageStep, hpc] at hs
      cases hs
      exact books_complete h hpc (bumps_leave _ _ _ _ _ _)
  | publish j =>
      rw [State.stageStep, hpc] at hs
      cases ho : S.output with
      | none => simp [ho] at hs
      | some O =>
          simp only [ho, Option.some.injEq] at hs
          exact hs ▸ books_publish h hpc ho

/-! ## the audit and the sources -/

/-- The audit takes a message from its queue. -/
theorem books_auditTake {src : Source} (h : Books w s) (hs : s.auditTake w src = some s') :
    Books w s' := by
  unfold State.auditTake at hs
  split at hs
  · next j rest haudit hq =>
    cases hs
    refine { h with offering := ?_, offered := ?_ }
    · intro j' todo heq
      dsimp only at heq
      split at heq
      · next hm =>
        cases heq
        exact hm
      · cases heq
    · intro T x hx
      have hold := h.offered T x hx
      have hnow : AuditPc.owes T x (if w.measured j.message then .offering j src.audited
          else .idle) = if j = x then src.audited.count T else 0 := by
        split
        · rfl
        · next hm => simp [AuditPc.owes, ne_of_not_measured hm hx]
      rw [State.auditLoad, haudit] at hold
      rw [State.auditLoad]
      dsimp only
      rw [hnow, count_audited]
      by_cases hsrc : T.source = src
      · rw [hsrc, hq, List.count_cons] at hold
        rw [hsrc, Function.update_self]
        simp only [AuditPc.owes, beq_iff_eq, if_true] at hold ⊢
        omega
      · rw [Function.update_of_ne hsrc, if_neg hsrc]
        simpa [AuditPc.owes] using hold
  · cases hs

/-- One more stage is offered the message. -/
theorem books_offer {R : Stage} {todo : List Stage} (h : Books w s)
    (haudit : s.audit = .offering j (R :: todo)) :
    Books w { s.note R .offered j (·.offer j.message) with audit := .offering j todo } := by
  have hm : w.measured j.message = true := h.offering j _ haudit
  let e : Entry := ⟨R, .offered, j⟩
  constructor
  case counted =>
      intro T k
      show _ = tally T k (s.ledger ++ [e])
      rw [tally_append, ← h.counted T k]
      exact note_stats (bumps_offer j.message) T k
  case measured =>
      intro e' he
      obtain he | he := List.mem_append.mp he
      · exact h.measured e' he
      · rw [List.mem_singleton.mp he]
        exact hm
  case resolving => exact h.resolving
  case offering =>
      intro j' todo' heq
      cases heq
      exact hm
  case conserved =>
      intro T x hx
      show resolvedAt T x (s.ledger ++ [e]) + s.load T x = (s.published T.source).count x
      simpa [e, Kind.resolves] using h.conserved T x hx
  case offered =>
      intro T x hx
      have hold := h.offered T x hx
      rw [State.auditLoad, haudit, AuditPc.owes, List.count_cons] at hold
      show offeredAt T x (s.ledger ++ [e]) + ((s.auditQueue T.source).count x +
        if j = x then todo.count T else 0) = (s.published T.source).count x
      rw [offeredAt_append, offeredAt_singleton]
      by_cases hx : j = x
      · simp only [e, hx, if_true, and_true, beq_iff_eq] at hold ⊢
        omega
      · simp only [e, hx, if_false, and_false] at hold ⊢
        exact hold
  case arrived =>
      intro T
      show tally T .arrived (s.ledger ++ [e]) = tally T .executed (s.ledger ++ [e]) +
        tally T .dropped (s.ledger ++ [e]) + (s.pc T).arriving w
      simpa [e] using h.arrived T
  case executed =>
      intro T
      show tally T .executed (s.ledger ++ [e]) =
        tally T .completed (s.ledger ++ [e]) + (s.pc T).running w
      simpa [e] using h.executed T
  case upstream =>
      intro T
      show tally T .upstreamDropped (s.ledger ++ [e]) + s.unresolved T =
        dropsAbove T (s.ledger ++ [e])
      rw [dropsAbove_append]
      simpa [e] using h.upstream T
  case once => exact h.once
  case fresh => exact h.fresh

/-- The audit notes an offer for one stage. -/
theorem books_audit (h : Books w s) (hs : s.auditStep = some s') : Books w s' := by
  unfold State.auditStep at hs
  split at hs
  · cases hs
  · next j haudit =>
    cases hs
    refine { h with offering := ?_, offered := ?_ }
    · intro j' todo heq
      cases heq
    · intro T x hx
      have hold := h.offered T x hx
      rw [State.auditLoad, haudit] at hold
      simpa [State.auditLoad, AuditPc.owes] using hold
  · next j R todo haudit =>
    cases hs
    exact books_offer h haudit

/-- A source publishes to its stages and to the audit. -/
theorem books_source (h : Books w s) (src : Source) (m : Message) :
    Books w (s.publish src m) := by
  have hcount : ∀ (T : Stage) (x : Job), ((s.publish src m).published T.source).count x =
      (s.published T.source).count x +
        if (⟨s.nextUid, m⟩ : Job) = x then (if T.source = src then 1 else 0) else 0 := by
    intro T x
    show (Function.update s.published src _ T.source).count x = _
    by_cases hsrc : T.source = src
    · rw [hsrc, Function.update_self, List.count_append, List.count_singleton]
      simp
    · rw [Function.update_of_ne hsrc]
      simp [hsrc]
  constructor
  case counted => exact h.counted
  case measured => exact h.measured
  case resolving => exact h.resolving
  case offering => exact h.offering
  case conserved =>
      intro T x hx
      have hold := h.conserved T x hx
      have hload := load_deliver s T src.subscriber x ⟨s.nextUid, m⟩
      rw [count_line_subscriber] at hload
      rw [hcount]
      show resolvedAt T x s.ledger + (s.deliver src.subscriber ⟨s.nextUid, m⟩).load T x = _
      omega
  case offered =>
      intro T x hx
      have hold := h.offered T x hx
      rw [State.auditLoad] at hold
      rw [hcount, State.auditLoad]
      show offeredAt T x s.ledger +
        ((Function.update s.auditQueue src _ T.source).count x + s.audit.owes T x) = _
      by_cases hsrc : T.source = src
      · rw [hsrc] at hold ⊢
        rw [Function.update_self, List.count_append, List.count_singleton]
        simp only [beq_iff_eq, if_true]
        omega
      · rw [Function.update_of_ne hsrc]
        simpa [hsrc] using hold
  case arrived => exact h.arrived
  case executed => exact h.executed
  case upstream => exact h.upstream
  case once =>
      intro src'
      show ((Function.update s.published src _ src').map Job.uid).Nodup
      by_cases hsrc : src' = src
      · subst hsrc
        rw [Function.update_self, List.map_append]
        refine List.nodup_append.mpr ⟨h.once src', by simp, ?_⟩
        intro a ha b hb heq
        obtain ⟨j, hj, rfl⟩ := List.mem_map.mp ha
        have hlt := h.fresh src' j hj
        have hnew : b = s.nextUid := by simpa using hb
        omega
      · rw [Function.update_of_ne hsrc]
        exact h.once src'
  case fresh =>
      intro src' j hj
      show j.uid < s.nextUid + 1
      have hmem : j ∈ Function.update s.published src
          (s.published src ++ [⟨s.nextUid, m⟩]) src' := hj
      by_cases hsrc : src' = src
      · subst hsrc
        rw [Function.update_self] at hmem
        obtain hmem | hmem := List.mem_append.mp hmem
        · exact Nat.lt_succ_of_lt (h.fresh src' j hmem)
        · rw [List.mem_singleton.mp hmem]
          exact Nat.lt_succ_self _
      · rw [Function.update_of_ne hsrc] at hmem
        exact Nat.lt_succ_of_lt (h.fresh src' j hmem)

/-- Every step of every party keeps the books. -/
theorem step_books (w : Window) : Steps.Preserved (step w) (Books w) := by
  intro s a s' h hs
  cases a with
  | tick d =>
      cases hs
      exact { h with }
  | publish src m => cases hs; exact books_source h src m
  | auditTake src => exact books_auditTake h hs
  | audit => exact books_audit h hs
  | stage S rejected cpu => exact books_stage h hs

end Turns

/-! ## source opportunities -/

/-- The states the parties can get into. -/
def Reachable (w : Window) (s : State) : Prop :=
  ∃ as, Steps.exec (step w) {} as = some s

/-- Nothing has been noted yet. -/
theorem initial_books (w : Window) : Books w {} where
  counted T k := by cases k <;> rfl
  measured := nofun
  resolving _ _ _ heq := by cases heq
  offering _ _ heq := by cases heq
  conserved T x _ := by simp [State.load, sumStages, State.owed, StagePc.owes]
  offered T x _ := by simp [State.auditLoad, AuditPc.owes]
  arrived T := rfl
  executed T := rfl
  upstream T := by simp [State.unresolved, sumStages, StagePc.unresolved]
  once _ := List.nodup_nil
  fresh := nofun

/-- The books balance in every reachable state. -/
theorem Reachable.books {w : Window} {s : State} (h : Reachable w s) : Books w s := by
  obtain ⟨as, hrun⟩ := h
  exact (step_books w).exec (initial_books w) hrun

/-- All published messages have been consumed. -/
structure Consumed (s : State) : Prop where
  queue : ∀ S, s.queue S = []
  pc : ∀ S, s.pc S = .idle
  auditQueue : ∀ src, s.auditQueue src = []
  audit : s.audit = .idle

/-- A stage's opportunities are all resolved. -/
structure Settled (stats : StageStats) : Prop where
  offered : stats.offered = stats.completed + stats.dropped + stats.upstreamDropped
  arrivals : stats.arrivals = stats.executed + stats.dropped
  executed : stats.executed = stats.completed

/-- Each measured opportunity is resolved at most once at each stage, and all
of them once everything is consumed. -/
structure Accounted (w : Window) (s : State) : Prop where
  /-- The counters count the entries of the ledger. -/
  counted : ∀ T k, (s.stats T).count k = tally T k s.ledger
  once : ∀ T j, w.measured j.message = true → resolvedAt T j s.ledger ≤ 1
  unmeasured : ∀ j, w.measured j.message = false → ∀ e ∈ s.ledger, e.job ≠ j
  settled : Consumed s → ∀ T, Settled (s.stats T)
  estimator : Consumed s → (s.stats .estimator).upstreamDropped = (s.stats .vision).dropped
  mapping : Consumed s → (s.stats .mapping).upstreamDropped =
    (s.stats .vision).dropped + (s.stats .estimator).dropped

section Opportunities

variable {w : Window} {s : State}

/-- The published messages of a topic are different jobs. -/
theorem Books.count_published_le (h : Books w s) (src : Source) (x : Job) :
    (s.published src).count x ≤ 1 :=
  List.nodup_iff_count.mp (List.Nodup.of_map Job.uid (h.once src)) x

/-- No stage holds a job any more. -/
theorem Consumed.load_eq_zero (h : Consumed s) (T : Stage) (x : Job) : s.load T x = 0 := by
  simp [State.load, sumStages, State.owed, h.queue, h.pc, StagePc.owes]

/-- The audit holds no job any more. -/
theorem Consumed.auditLoad_eq_zero (h : Consumed s) (T : Stage) (x : Job) :
    s.auditLoad T x = 0 := by
  simp [State.auditLoad, h.auditQueue, h.audit, AuditPc.owes]

/-- Once everything is consumed, every offer is resolved. -/
theorem Books.resolved_eq_offered (h : Books w s) (hc : Consumed s) (T : Stage) :
    tally T .offered s.ledger = tally T .completed s.ledger + tally T .dropped s.ledger +
      tally T .upstreamDropped s.ledger := by
  rw [← countP_resolves, tally]
  refine (countP_eq_of_jobs fun x => ?_).symm
  show resolvedAt T x s.ledger = offeredAt T x s.ledger
  by_cases hx : w.measured x.message = true
  · have hresolved := h.conserved T x hx
    have hoffered := h.offered T x hx
    rw [hc.load_eq_zero] at hresolved
    rw [hc.auditLoad_eq_zero] at hoffered
    omega
  · have hnone : ∀ p : Entry → Bool,
        s.ledger.countP (fun e => p e && decide (e.job = x)) = 0 := by
      intro p
      refine List.countP_eq_zero.mpr fun e he => ?_
      have hne : e.job ≠ x := by
        intro heq
        exact hx (heq ▸ h.measured e he)
      simp [hne]
    exact (hnone _).trans (hnone _).symm

/-- **Source opportunities**: in every reachable state each measured job is
resolved at most once at each stage and no other job is counted; and when
everything is consumed the counters of every stage balance. -/
theorem opportunities_resolved_once (h : Reachable w s) : Accounted w s := by
  have hb := h.books
  constructor
  case counted => exact hb.counted
  case once =>
      intro T j hj
      have hcount := hb.conserved T j hj
      have hle := hb.count_published_le T.source j
      omega
  case unmeasured =>
      intro j hj e he heq
      have hm := hb.measured e he
      rw [heq, hj] at hm
      cases hm
  case settled =>
      intro hc T
      have harrived := hb.arrived T
      have hexecuted := hb.executed T
      have hoffered := hb.resolved_eq_offered hc T
      rw [hc.pc] at harrived hexecuted
      simp only [← hb.counted] at harrived hexecuted hoffered
      exact ⟨hoffered, harrived, hexecuted⟩
  case estimator =>
      intro hc
      have hup := hb.upstream .estimator
      simp only [State.unresolved, dropsAbove, sumStages, hc.pc, ← hb.counted] at hup
      simpa [StagePc.unresolved, Stage.downstream, StageStats.count] using hup
  case mapping =>
      intro hc
      have hup := hb.upstream .mapping
      simp only [State.unresolved, dropsAbove, sumStages, hc.pc, ← hb.counted] at hup
      simpa [StagePc.unresolved, Stage.downstream, StageStats.count] using hup

end Opportunities

/-- A window of a second after a second of warm-up. -/
def tourWindow : Window where
  sourceStartNs := 5
  warmupS := 1
  durationS := 1

/-- A camera message `ms` milliseconds after the source's start. -/
def frame (id ms : Nat) : Message where
  jobId := id
  sourceTsNs := 5 + ms * 1000000
  releaseTsNs := ms * 1000000

/-- Of four frames the third is in the warm-up; vision rejects the second, and
the estimator the fourth and the third. -/
def tour : List Action :=
  [.publish .camera (frame 1 1100), .publish .camera (frame 2 1200),
    .publish .camera (frame 3 900), .publish .camera (frame 4 1300)] ++
  [.auditTake .camera, .audit, .audit, .audit, .audit, .auditTake .camera, .audit, .audit,
    .audit, .audit, .auditTake .camera, .auditTake .camera, .audit, .audit, .audit, .audit] ++
  List.replicate 6 (.stage .vision false 0) ++ List.replicate 7 (.stage .vision true 0) ++
  List.replicate 12 (.stage .vision false 0) ++ List.replicate 6 (.stage .estimator false 0) ++
  List.replicate 10 (.stage .estimator true 0) ++ List.replicate 5 (.stage .mapping false 0)

/-- Where the tour leads. -/
def tourEnd : State := (Steps.exec (step tourWindow) {} tour).getD {}

/-- The end of the tour is a reachable state. -/
theorem tourEnd_reachable : Reachable tourWindow tourEnd := by
  have hsome : (Steps.exec (step tourWindow) {} tour).isSome = true := by decide +kernel
  obtain ⟨s, hs⟩ := Option.isSome_iff_exists.mp hsome
  exact ⟨tour, by rw [tourEnd, hs]; rfl⟩

/-- A tour of three jobs, two of which are dropped. -/
theorem opportunities_resolved_once_tour :
    (tourEnd.stats .mapping).count .upstreamDropped =
      tally .mapping .upstreamDropped tourEnd.ledger ∧
    (tourEnd.stats .mapping).upstreamDropped =
      (tourEnd.stats .vision).dropped + (tourEnd.stats .estimator).dropped := by
  have hacc := opportunities_resolved_once tourEnd_reachable
  have hconsumed : Consumed tourEnd := by
    constructor
    case queue => intro S; cases S <;> decide +kernel
    case pc => intro S; cases S <;> decide +kernel
    case auditQueue => intro src; cases src <;> decide +kernel
    case audit => decide +kernel
  exact ⟨hacc.counted .mapping .upstreamDropped, hacc.mapping hconsumed⟩

end ScxSlam.RosPipeline
