import Mathlib.Tactic.Common
import ScxSlam.Lib.Steps
import ScxSlam.RosPipeline.Snapshot

/-!
# ScxSlam.RosPipeline.Callback

One stage of `slam_pipeline` with everything that touches its `StageStats`: the
callback's thread in `account_job`, the audit and the observers, and `main`,
which takes snapshots at any time.  Every clock reading and every section under
the mutex is a step of its own.

A snapshot charges a callback in flight with what the clock of its thread
reads.  The callback itself reads that clock before it takes the mutex again,
so a snapshot between the two can charge more than the callback will.
-/

namespace ScxSlam.RosPipeline

open Steps

/-! ## data -/

/-- A call of `account_job`. -/
structure JobCall where
  message : Message
  workUs : Nat
  deadlineNs : Nat
  staleNs : Nat
  measured : Bool
  deriving DecidableEq, Repr

/-- Where the thread is in `account_job`. -/
inductive JobPc
  | idle
  /-- `start` has been read -/
  | started (c : JobCall) (start : Nat)
  /-- at the first critical section -/
  | entering (c : JobCall) (start cpuStart : Nat)
  /-- at `busy_work_us` -/
  | entered (c : JobCall) (start cpuStart : Nat)
  /-- in its loop -/
  | spinning (c : JobCall) (start cpuStart busyStart : Nat)
  /-- behind it -/
  | worked (c : JobCall) (start cpuStart : Nat)
  /-- `cpu_ns` is known -/
  | charged (c : JobCall) (start cpuNs : Nat)
  /-- at the second critical section -/
  | leaving (c : JobCall) (start cpuNs now : Nat)
  deriving DecidableEq, Repr

/-- What the audit and the observers do to the counters. -/
inductive Other
  | offer (m : Message)
  | arrive
  | drop
  | upstreamDrop
  deriving DecidableEq, Repr

def Other.apply (stats : StageStats) : Other → StageStats
  | .offer m => stats.offer m
  | .arrive => { stats with arrivals := stats.arrivals + 1 }
  | .drop => { stats with dropped := stats.dropped + 1 }
  | .upstreamDrop => { stats with upstreamDropped := stats.upstreamDropped + 1 }

/-- The stage, the two clocks and the snapshots so far. -/
structure Watch where
  now : Nat
  cpu : Nat
  stats : StageStats := {}
  pc : JobPc := .idle
  snapshots : List StageSnapshot := []
  deriving DecidableEq, Repr

/-! ## steps -/

inductive WatchAction
  /-- both clocks go on; the thread's may stand still -/
  | tick (wall cpu : Nat)
  | call (c : JobCall)
  | job
  | other (o : Other)
  | snapshot
  deriving DecidableEq, Repr

namespace Watch

variable (s : Watch)

/-- The next statement of `account_job`. -/
def jobStep : Option Watch :=
  match s.pc with
  | .idle => none
  | .started c start => some { s with pc := .entering c start s.cpu }
  | .entering c start cpuStart => some { s with
      stats := if c.measured then s.stats.enter cpuStart else s.stats
      pc := .entered c start cpuStart }
  | .entered c start cpuStart => some { s with pc := .spinning c start cpuStart s.cpu }
  | .spinning c start cpuStart busyStart =>
      if Word.sub 64 s.cpu busyStart < Word.mul 64 c.workUs 1000 then some s
      else some { s with pc := .worked c start cpuStart }
  | .worked c start cpuStart => some { s with pc := .charged c start (Word.sub 64 s.cpu cpuStart) }
  | .charged c start cpuNs =>
      if c.measured then some { s with pc := .leaving c start cpuNs s.now }
      else some { s with pc := .idle }
  | .leaving c start cpuNs now => some { s with
      stats := s.stats.leave c.message start now cpuNs c.deadlineNs c.staleNs
      pc := .idle }

/-- One step; `none` where the action is not possible. -/
def step (s : Watch) : WatchAction → Option Watch
  | .tick wall cpu =>
      if s.cpu + cpu < Word.size 64 then some { s with now := s.now + wall, cpu := s.cpu + cpu }
      else none
  | .call c => if s.pc = .idle then some { s with pc := .started c s.now } else none
  | .job => s.jobStep
  | .other o => some { s with stats := o.apply s.stats }
  | .snapshot => some { s with snapshots := s.snapshots ++ [s.stats.snapshot s.cpu] }

/-- Before the first message. -/
structure Init (s : Watch) : Prop where
  clock : s.cpu < Word.size 64
  stats : s.stats = {}
  pc : s.pc = .idle
  snapshots : s.snapshots = []

end Watch

/-! ## what is charged -/

/-- A measured callback is between its critical sections. -/
def JobPc.inFlight : JobPc → Bool
  | .idle | .started _ _ | .entering _ _ _ => false
  | .entered c _ _ | .spinning c _ _ _ | .worked c _ _ | .charged c _ _ | .leaving c _ _ _ =>
      c.measured

/-- The reading its CPU time counts from. -/
def JobPc.cpuStart? : JobPc → Option Nat
  | .entering _ _ cpuStart | .entered _ _ cpuStart | .spinning _ _ cpuStart _
  | .worked _ _ cpuStart => some cpuStart
  | _ => none

/-- The CPU time a measured callback has settled on. -/
def JobPc.settled? : JobPc → Option Nat
  | .charged c _ cpuNs => if c.measured then some cpuNs else none
  | .leaving _ _ cpuNs _ => some cpuNs
  | _ => none

namespace Watch

variable (s : Watch)

/-- What a snapshot would report. -/
def live : Nat := s.stats.cpuNs + if s.stats.active then s.cpu - s.stats.activeCpuStart else 0

/-- What the stage will be charged at least, whatever happens next. -/
def charge : Nat :=
  match s.pc.settled? with
  | some cpuNs => s.stats.cpuNs + cpuNs
  | none => s.live

/-- A snapshot does not see the clock go on behind a callback that has settled. -/
def Fair (s : Watch) (a : WatchAction) : Prop :=
  a = .snapshot → ∀ cpuNs, s.pc.settled? = some cpuNs → s.cpu ≤ s.stats.activeCpuStart + cpuNs

instance (a : WatchAction) : Decidable (Fair s a) :=
  inferInstanceAs (Decidable (_ → ∀ cpuNs ∈ s.pc.settled?, _))

end Watch

/-! ## what the snapshots have to satisfy -/

/-- The counters of an earlier snapshot and of a later one. -/
structure StageSnapshot.CountersLe (x y : StageSnapshot) : Prop where
  executed : x.executed ≤ y.executed
  completed : x.completed ≤ y.completed
  late : x.late ≤ y.late
  stale : x.stale ≤ y.stale

theorem StageSnapshot.CountersLe.refl (x : StageSnapshot) : x.CountersLe x :=
  ⟨le_rfl, le_rfl, le_rfl, le_rfl⟩

theorem StageSnapshot.CountersLe.trans {x y z : StageSnapshot} (hxy : x.CountersLe y)
    (hyz : y.CountersLe z) : x.CountersLe z where
  executed := hxy.executed.trans hyz.executed
  completed := hxy.completed.trans hyz.completed
  late := hxy.late.trans hyz.late
  stale := hxy.stale.trans hyz.stale

/-- At most one callback of a snapshot is in flight. -/
def StageSnapshot.OneInFlight (x : StageSnapshot) : Prop :=
  x.completed ≤ x.executed ∧ x.executed ≤ x.completed + 1

namespace Watch

/-- The snapshots so far are monotone, and none reports more CPU time than the
stage has been charged whenever no callback is in flight. -/
structure Monotone (s : Watch) : Prop where
  counters : s.snapshots.Pairwise StageSnapshot.CountersLe
  oneInFlight : ∀ x ∈ s.snapshots, x.OneInFlight
  cpu : s.snapshots.Pairwise fun x y => x.cpuNs ≤ y.cpuNs
  charged : s.stats.active = false → ∀ x ∈ s.snapshots, x.cpuNs ≤ s.stats.cpuNs

/-! ## the callback and its stage -/

/-- What the program counter says about the stage. -/
structure Sound (s : Watch) : Prop where
  clock : s.cpu < Word.size 64
  active : s.stats.active = s.pc.inFlight
  executed : s.stats.executed = s.stats.completed + s.pc.inFlight.toNat
  cpuStart : ∀ b, s.pc.cpuStart? = some b →
    b ≤ s.cpu ∧ (s.pc.inFlight = true → s.stats.activeCpuStart = b)
  settled : ∀ cpuNs, s.pc.settled? = some cpuNs →
    s.pc.inFlight = true ∧ s.stats.activeCpuStart + cpuNs ≤ s.cpu

/-- What a step does to whatever a snapshot reads. -/
structure Advances (s s' : Watch) : Prop where
  sound : Sound s'
  counters : (s.stats.snapshot s.cpu).CountersLe (s'.stats.snapshot s'.cpu)
  charge : s.charge ≤ s'.charge
  snapshots : s'.snapshots = s.snapshots

variable {s s' : Watch}

/-- Before the first job all is settled. -/
theorem Init.sound (h : Init s) : Sound s where
  clock := h.clock
  active := by rw [h.stats, h.pc]; rfl
  executed := by rw [h.stats, h.pc]; rfl
  cpuStart b hb := by rw [h.pc] at hb; exact nomatch hb
  settled c hc := by rw [h.pc] at hc; exact nomatch hc

/-- A callback in flight that has not settled still has its first reading. -/
theorem Sound.activeCpuStart_le (hs : Sound s) (hflight : s.pc.inFlight = true) :
    s.stats.activeCpuStart ≤ s.cpu := by
  obtain ⟨_, hactive, _, hstart, hsettled⟩ := hs
  cases hpc : s.pc <;> simp_all [JobPc.inFlight, JobPc.cpuStart?, JobPc.settled?] <;> omega

/-- A job that has settled is charged once more. -/
theorem charge_of_settled {cpuNs : Nat} (h : s.pc.settled? = some cpuNs) :
    s.charge = s.stats.cpuNs + cpuNs := by
  simp only [charge, h]

/-- A job that has not settled is charged what it has used. -/
theorem charge_of_not_settled (h : s.pc.settled? = none) : s.charge = s.live := by
  simp only [charge, h]

/-- Settling never charges more than the clock reads. -/
theorem Sound.charge_le_live (hs : Sound s) : s.charge ≤ s.live := by
  cases hsettled : s.pc.settled? with
  | none => rw [charge_of_not_settled hsettled]
  | some cpuNs =>
      obtain ⟨hflight, hle⟩ := hs.settled cpuNs hsettled
      rw [charge_of_settled hsettled, live, hs.active, hflight, if_pos rfl]
      omega

/-- Where the clock has not gone on behind a settled callback, the two agree. -/
theorem Sound.live_le_charge (hs : Sound s)
    (hclock : ∀ cpuNs, s.pc.settled? = some cpuNs → s.cpu ≤ s.stats.activeCpuStart + cpuNs) :
    s.live ≤ s.charge := by
  cases hsettled : s.pc.settled? with
  | none => rw [charge_of_not_settled hsettled]
  | some cpuNs =>
      have hle := hclock cpuNs hsettled
      rw [charge_of_settled hsettled, live, hs.active, (hs.settled cpuNs hsettled).1, if_pos rfl]
      omega

/-- Where no callback is in flight the stage has been charged everything. -/
theorem Sound.charge_of_inactive (hs : Sound s) (hactive : s.stats.active = false) :
    s.charge = s.stats.cpuNs := by
  have hnone : s.pc.settled? = none := by
    refine Option.eq_none_iff_forall_ne_some.mpr fun cpuNs hsettled => ?_
    have hflight := (hs.settled cpuNs hsettled).1
    rw [← hs.active, hactive] at hflight
    exact nomatch hflight
  rw [charge_of_not_settled hnone, live, hactive]
  rfl

/-- A snapshot reports what the clock of the thread reads. -/
theorem Sound.snapshot_cpuNs (hs : Sound s) : (s.stats.snapshot s.cpu).cpuNs = s.live := by
  simp only [StageStats.snapshot, live]
  by_cases hactive : s.stats.active = true
  · have hle : s.stats.activeCpuStart ≤ s.cpu := hs.activeCpuStart_le (hs.active ▸ hactive)
    rw [if_pos hactive, if_pos hactive, Word.sub_of_le hle hs.clock]
  · rw [if_neg hactive, if_neg hactive]

/-! ## steps of the callback -/

theorem Advances.refl (hs : Sound s) : Advances s s := ⟨hs, .refl _, le_rfl, rfl⟩

/-- A step that leaves the counters, the clock and the settled time alone. -/
theorem Advances.of_pc {pc : JobPc} (hs : Sound s) (hflight : pc.inFlight = s.pc.inFlight)
    (hsettled : pc.settled? = s.pc.settled?)
    (hstart : ∀ b, pc.cpuStart? = some b →
      b ≤ s.cpu ∧ (s.pc.inFlight = true → s.stats.activeCpuStart = b)) :
    Advances s { s with pc := pc } where
  sound := {
    clock := hs.clock
    active := hs.active.trans hflight.symm
    executed := by rw [hflight]; exact hs.executed
    cpuStart := fun b hb => by rw [hflight]; exact hstart b hb
    settled := fun c hc => by rw [hflight]; exact hs.settled c (hsettled ▸ hc) }
  counters := .refl _
  charge := by
    simp only [Watch.charge, hsettled, live]
    exact le_rfl
  snapshots := rfl

/-- The first critical section. -/
theorem Sound.advances_enter {c : JobCall} {start cpuStart : Nat} (hs : Sound s)
    (hpc : s.pc = .entering c start cpuStart) (hmeasured : c.measured = true) :
    Advances s { s with stats := s.stats.enter cpuStart, pc := .entered c start cpuStart } := by
  have hstart : cpuStart ≤ s.cpu := (hs.cpuStart cpuStart (by rw [hpc]; rfl)).1
  have hinactive : s.stats.active = false := by rw [hs.active, hpc]; rfl
  have hexecuted : s.stats.executed = s.stats.completed := by
    rw [hs.executed, hpc]
    rfl
  refine ⟨⟨hs.clock, hmeasured.symm, ?_, ?_, nofun⟩, ⟨?_, le_rfl, le_rfl, le_rfl⟩, ?_, rfl⟩
  · simp only [StageStats.enter, JobPc.inFlight, hmeasured, hexecuted, Bool.toNat_true]
  · rintro b ⟨⟩
    exact ⟨hstart, fun _ => rfl⟩
  · exact Nat.le_succ _
  · rw [hs.charge_of_inactive hinactive]
    exact Nat.le_add_right _ _

/-- The last reading of the thread's clock. -/
theorem Sound.advances_settle {c : JobCall} {start cpuStart : Nat} (hs : Sound s)
    (hpc : s.pc = .worked c start cpuStart) :
    Advances s { s with pc := .charged c start (Word.sub 64 s.cpu cpuStart) } := by
  obtain ⟨hle, hsame⟩ := hs.cpuStart cpuStart (by rw [hpc]; rfl)
  have hcpu : Word.sub 64 s.cpu cpuStart = s.cpu - cpuStart := Word.sub_of_le hle hs.clock
  rw [hcpu]
  by_cases hmeasured : c.measured = true
  · have hflight : s.pc.inFlight = true := by rw [hpc]; exact hmeasured
    have hactive : s.stats.active = true := hs.active.trans hflight
    have hstart : s.stats.activeCpuStart = cpuStart := hsame hflight
    have hsettled : (JobPc.charged c start (s.cpu - cpuStart)).settled? =
        some (s.cpu - cpuStart) := if_pos hmeasured
    refine ⟨⟨hs.clock, hactive.trans hmeasured.symm, ?_, nofun, ?_⟩, .refl _, ?_, rfl⟩
    · rw [hs.executed, hpc]
      rfl
    · intro cpuNs hcpuNs
      obtain rfl : s.cpu - cpuStart = cpuNs := Option.some.inj (hsettled.symm.trans hcpuNs)
      refine ⟨hmeasured, ?_⟩
      show s.stats.activeCpuStart + (s.cpu - cpuStart) ≤ s.cpu
      omega
    · refine (hs.charge_le_live.trans_eq ?_).trans_eq (charge_of_settled hsettled).symm
      show s.live = s.stats.cpuNs + (s.cpu - cpuStart)
      rw [live, hactive, if_pos rfl, hstart]
  · refine .of_pc hs (by rw [hpc]; rfl) ?_ nofun
    rw [hpc]
    exact if_neg hmeasured

/-- The second critical section. -/
theorem Sound.advances_leave {c : JobCall} {start cpuNs now : Nat} (hs : Sound s)
    (hpc : s.pc = .leaving c start cpuNs now) :
    Advances s { s with
      stats := s.stats.leave c.message start now cpuNs c.deadlineNs c.staleNs, pc := .idle } := by
  have hsettled : s.pc.settled? = some cpuNs := by rw [hpc]; rfl
  have hflight : s.pc.inFlight = true := (hs.settled cpuNs hsettled).1
  have hexecuted : s.stats.executed = s.stats.completed + 1 := by
    rw [hs.executed, hflight]
    rfl
  refine ⟨⟨hs.clock, rfl, hexecuted, nofun, nofun⟩, ⟨le_rfl, ?_, ?_, ?_⟩, ?_, rfl⟩
  · exact Nat.le_succ _
  · exact Nat.le_add_right _ _
  · exact Nat.le_add_right _ _
  · rw [charge_of_settled hsettled]
    exact le_rfl

/-- A step of the callback takes no counter back. -/
theorem Sound.advances_job (hs : Sound s) (h : s.jobStep = some s') : Advances s s' := by
  unfold jobStep at h
  split at h
  next => exact nomatch h
  next c start hpc =>
      obtain rfl := Option.some.inj h
      refine .of_pc hs (by rw [hpc]; rfl) (by rw [hpc]; rfl) ?_
      rintro b ⟨⟩
      exact ⟨le_rfl, fun hflight => by rw [hpc] at hflight; exact nomatch hflight⟩
  next c start cpuStart hpc =>
      obtain rfl := Option.some.inj h
      by_cases hmeasured : c.measured = true
      · rw [if_pos hmeasured]
        exact hs.advances_enter hpc hmeasured
      · rw [if_neg hmeasured]
        refine .of_pc hs (by rw [hpc]; exact Bool.eq_false_iff.mpr hmeasured) (by rw [hpc]; rfl) ?_
        rintro b ⟨⟩
        refine ⟨(hs.cpuStart cpuStart (by rw [hpc]; rfl)).1, fun hflight => ?_⟩
        rw [hpc] at hflight
        exact nomatch hflight
  next c start cpuStart hpc =>
      obtain rfl := Option.some.inj h
      refine .of_pc hs (by rw [hpc]; rfl) (by rw [hpc]; rfl) fun b hb => ?_
      exact hs.cpuStart b (by rw [hpc]; exact hb)
  next c start cpuStart busyStart hpc =>
      split at h
      · obtain rfl := Option.some.inj h
        exact .refl hs
      · obtain rfl := Option.some.inj h
        refine .of_pc hs (by rw [hpc]; rfl) (by rw [hpc]; rfl) fun b hb => ?_
        exact hs.cpuStart b (by rw [hpc]; exact hb)
  next c start cpuStart hpc =>
      obtain rfl := Option.some.inj h
      exact hs.advances_settle hpc
  next c start cpuNs hpc =>
      split at h
      next hmeasured =>
          obtain rfl := Option.some.inj h
          refine .of_pc hs (by rw [hpc]; rfl) ?_ nofun
          rw [hpc]
          exact (if_pos hmeasured).symm
      next hmeasured =>
          obtain rfl := Option.some.inj h
          refine .of_pc hs (by rw [hpc]; exact (Bool.eq_false_iff.mpr hmeasured).symm) ?_ nofun
          rw [hpc]
          exact (if_neg hmeasured).symm
  next c start cpuNs now hpc =>
      obtain rfl := Option.some.inj h
      exact hs.advances_leave hpc

/-! ## steps of the others -/

/-- Time takes no counter back. -/
theorem Sound.advances_tick {wall cpu : Nat} (hs : Sound s)
    (hclock : s.cpu + cpu < Word.size 64) :
    Advances s { s with now := s.now + wall, cpu := s.cpu + cpu } := by
  refine ⟨⟨hclock, hs.active, hs.executed, fun b hb => ?_, fun c hc => ?_⟩,
    ⟨le_rfl, le_rfl, le_rfl, le_rfl⟩, ?_, rfl⟩
  · exact ⟨(hs.cpuStart b hb).1.trans (Nat.le_add_right _ _), (hs.cpuStart b hb).2⟩
  · exact ⟨(hs.settled c hc).1, (hs.settled c hc).2.trans (Nat.le_add_right _ _)⟩
  · cases hsettled : s.pc.settled? with
    | some c => simp only [Watch.charge, hsettled, le_refl]
    | none =>
        simp only [Watch.charge, hsettled, live]
        split <;> omega

/-- Nothing else under the mutex takes a counter back. -/
theorem Sound.advances_other (o : Other) (hs : Sound s) :
    Advances s { s with stats := o.apply s.stats } := by
  cases o <;> exact ⟨⟨hs.clock, hs.active, hs.executed, hs.cpuStart, hs.settled⟩,
    ⟨le_rfl, le_rfl, le_rfl, le_rfl⟩, le_rfl, rfl⟩

/-- Every step but a snapshot advances the stage. -/
theorem Sound.advances {a : WatchAction} (hs : Sound s) (ha : a ≠ .snapshot)
    (h : step s a = some s') : Advances s s' := by
  cases a with
  | tick wall cpu =>
      simp only [step, Option.ite_none_right_eq_some, Option.some.injEq] at h
      obtain ⟨hclock, rfl⟩ := h
      exact hs.advances_tick hclock
  | call c =>
      simp only [step, Option.ite_none_right_eq_some, Option.some.injEq] at h
      obtain ⟨hpc, rfl⟩ := h
      exact .of_pc hs (by rw [hpc]; rfl) (by rw [hpc]; rfl) nofun
  | job => exact hs.advances_job h
  | other o =>
      obtain rfl := Option.some.inj h
      exact hs.advances_other o
  | snapshot => exact absurd rfl ha

/-! ## snapshots -/

/-- The counters of the snapshots so far. -/
structure Recorded (s : Watch) : Prop where
  sound : Sound s
  le : ∀ x ∈ s.snapshots, x.CountersLe (s.stats.snapshot s.cpu)
  counters : s.snapshots.Pairwise StageSnapshot.CountersLe
  oneInFlight : ∀ x ∈ s.snapshots, x.OneInFlight

/-- No snapshot so far reports more than the stage will be charged. -/
structure Covered (s : Watch) : Prop where
  le : ∀ x ∈ s.snapshots, x.cpuNs ≤ s.charge
  cpu : s.snapshots.Pairwise fun x y => x.cpuNs ≤ y.cpuNs

/-- At most one job is in flight. -/
theorem Sound.oneInFlight (hs : Sound s) : (s.stats.snapshot s.cpu).OneInFlight := by
  have hle := s.pc.inFlight.toNat_le
  have hexecuted := hs.executed
  constructor
  · show s.stats.completed ≤ s.stats.executed
    omega
  · show s.stats.executed ≤ s.stats.completed + 1
    omega

/-- Every step keeps the stage sound. -/
theorem preserved_sound : Preserved step Sound := by
  intro s a s' hs h
  by_cases ha : a = .snapshot
  · subst ha
    obtain rfl := Option.some.inj h
    exact ⟨hs.clock, hs.active, hs.executed, hs.cpuStart, hs.settled⟩
  · exact (hs.advances ha h).sound

/-- Every step keeps the record of the snapshots. -/
theorem preserved_recorded : Preserved step Recorded := by
  intro s a s' ⟨hs, hle, hcounters, hflight⟩ h
  have hs' : Sound s' := preserved_sound s a s' hs h
  by_cases ha : a = .snapshot
  · subst ha
    obtain rfl := Option.some.inj h
    refine ⟨hs', ?_, ?_, ?_⟩
    · intro x hx
      rcases List.mem_append.mp hx with hx | hx
      · exact hle x hx
      · rw [List.mem_singleton.mp hx]
        exact .refl _
    · refine List.pairwise_append.mpr ⟨hcounters, List.pairwise_singleton _ _, ?_⟩
      intro x hx y hy
      rw [List.mem_singleton.mp hy]
      exact hle x hx
    · intro x hx
      rcases List.mem_append.mp hx with hx | hx
      · exact hflight x hx
      · rw [List.mem_singleton.mp hx]
        exact hs.oneInFlight
  · obtain ⟨-, hadvance, -, hsnapshots⟩ := hs.advances ha h
    refine ⟨hs', ?_, hsnapshots ▸ hcounters, hsnapshots ▸ hflight⟩
    rw [hsnapshots]
    exact fun x hx => (hle x hx).trans hadvance

/-- A fair step keeps the snapshots covered. -/
theorem Covered.step {a : WatchAction} (hs : Sound s) (hc : Covered s) (hfair : Fair s a)
    (h : step s a = some s') : Covered s' := by
  obtain ⟨hle, hcpu⟩ := hc
  by_cases ha : a = .snapshot
  · subst ha
    obtain rfl := Option.some.inj h
    have hlive : (s.stats.snapshot s.cpu).cpuNs = s.live := hs.snapshot_cpuNs
    refine ⟨?_, ?_⟩
    · intro x hx
      show x.cpuNs ≤ s.charge
      rcases List.mem_append.mp hx with hx | hx
      · exact hle x hx
      · rw [List.mem_singleton.mp hx, hlive]
        exact hs.live_le_charge (hfair rfl)
    · refine List.pairwise_append.mpr ⟨hcpu, List.pairwise_singleton _ _, ?_⟩
      intro x hx y hy
      rw [List.mem_singleton.mp hy, hlive]
      exact (hle x hx).trans hs.charge_le_live
  · obtain ⟨-, -, hcharge, hsnapshots⟩ := hs.advances ha h
    refine ⟨?_, hsnapshots ▸ hcpu⟩
    rw [hsnapshots]
    exact fun x hx => (hle x hx).trans hcharge

/-! ## a snapshot that charges too much -/

/-- The callback in flight has settled, and a snapshot reports more than that. -/
structure Overdrawn (s : Watch) : Prop where
  sound : Sound s
  settled : s.pc.settled? ≠ none
  more : ∃ x ∈ s.snapshots, s.charge < x.cpuNs

/-- What the stage has been charged covers its snapshots. -/
def Charged (s : Watch) : Prop :=
  s.stats.active = false → ∀ x ∈ s.snapshots, x.cpuNs ≤ s.stats.cpuNs

/-- The stage stays overdrawn while its charge is the same. -/
theorem Overdrawn.of_same (ho : Overdrawn s) (hs' : Sound s')
    (hsettled : s'.pc.settled? = s.pc.settled?) (hcpu : s'.stats.cpuNs = s.stats.cpuNs)
    (hsnapshots : s.snapshots ⊆ s'.snapshots) : Overdrawn s' := by
  obtain ⟨x, hx, hmore⟩ := ho.more
  obtain ⟨cpuNs, hsome⟩ := Option.ne_none_iff_exists'.mp ho.settled
  rw [charge_of_settled hsome] at hmore
  have hsome' : s'.pc.settled? = some cpuNs := hsettled.trans hsome
  refine ⟨hs', ?_, x, hsnapshots hx, ?_⟩
  · rw [hsome']
    exact Option.some_ne_none _
  · rw [charge_of_settled hsome', hcpu]
    exact hmore

/-- An unfair snapshot reports too much. -/
theorem Overdrawn.of_not_fair {a : WatchAction} (hs : Sound s) (hfair : ¬ Fair s a)
    (h : step s a = some s') : Overdrawn s' := by
  have hs' : Sound s' := preserved_sound s a s' hs h
  unfold Fair at hfair
  push Not at hfair
  obtain ⟨rfl, cpuNs, hsettled, hclock⟩ := hfair
  obtain rfl := Option.some.inj h
  refine ⟨hs', ?_, ?_⟩
  · show s.pc.settled? ≠ none
    rw [hsettled]
    exact Option.some_ne_none _
  · refine ⟨s.stats.snapshot s.cpu, List.mem_append_right _ (List.mem_singleton_self _), ?_⟩
    show s.charge < _
    rw [hs.snapshot_cpuNs, charge_of_settled hsettled, live, hs.active,
      (hs.settled cpuNs hsettled).1, if_pos rfl]
    omega

/-- The stage stays overdrawn, or is charged less than it has reported. -/
theorem Overdrawn.job (ho : Overdrawn s) (h : s.jobStep = some s') :
    Overdrawn s' ∨ ¬ Charged s' := by
  have hs' : Sound s' := (ho.sound.advances_job h).sound
  obtain ⟨cpuNs, hsome⟩ := Option.ne_none_iff_exists'.mp ho.settled
  cases hpc : s.pc with
  | idle | started | entering | entered | spinning | worked =>
      rw [hpc] at hsome
      exact nomatch hsome
  | charged c start cpu =>
      have hmeasured : c.measured = true := by
        have hflight := (ho.sound.settled cpuNs hsome).1
        rwa [hpc] at hflight
      simp only [jobStep, hpc, hmeasured, if_true, Option.some.injEq] at h
      subst h
      refine .inl (ho.of_same hs' ?_ rfl fun _ => id)
      rw [hpc]
      exact (if_pos hmeasured).symm
  | leaving c start cpu now =>
      simp only [jobStep, hpc, Option.some.injEq] at h
      subst h
      -- the callback leaves with less than what was reported
      obtain ⟨x, hx, hmore⟩ := ho.more
      have hcpu : s.pc.settled? = some cpu := by rw [hpc]; rfl
      rw [charge_of_settled hcpu] at hmore
      exact .inr fun hcharged => absurd hmore (Nat.not_lt.mpr (hcharged rfl x hx))

/-- It stays too much until the callback leaves, and then the stage is short. -/
theorem Overdrawn.step {a : WatchAction} (ho : Overdrawn s) (h : step s a = some s') :
    Overdrawn s' ∨ ¬ Charged s' := by
  have hs' : Sound s' := preserved_sound s a s' ho.sound h
  cases a with
  | tick wall cpu =>
      simp only [Watch.step, Option.ite_none_right_eq_some, Option.some.injEq] at h
      obtain ⟨-, rfl⟩ := h
      exact .inl (ho.of_same hs' rfl rfl fun _ => id)
  | call c =>
      simp only [Watch.step, Option.ite_none_right_eq_some, Option.some.injEq] at h
      obtain ⟨hpc, -⟩ := h
      exact absurd (by rw [hpc]; rfl) ho.settled
  | job => exact ho.job h
  | other o =>
      obtain rfl := Option.some.inj h
      exact .inl (ho.of_same hs' rfl (by cases o <;> rfl) fun _ => id)
  | snapshot =>
      obtain rfl := Option.some.inj h
      exact .inl (ho.of_same hs' rfl rfl (List.subset_append_left _ _))

/-- Once the callback has left, some state of the run is short. -/
theorem Overdrawn.exec {as : List WatchAction} (ho : Overdrawn s)
    (h : exec Watch.step s as = some s') (hactive : s'.stats.active = false) :
    ∃ bs t, bs <+: as ∧ exec Watch.step s bs = some t ∧ ¬ Charged t := by
  induction as generalizing s with
  | nil =>
      obtain rfl := Option.some.inj h
      obtain ⟨cpuNs, hsome⟩ := Option.ne_none_iff_exists'.mp ho.settled
      have hflight := (ho.sound.settled cpuNs hsome).1
      rw [← ho.sound.active, hactive] at hflight
      exact nomatch hflight
  | cons a as ih =>
      rw [exec_cons] at h
      obtain ⟨s₁, h₁, h₂⟩ := Option.bind_eq_some_iff.mp h
      rcases ho.step h₁ with ho₁ | hshort
      · obtain ⟨bs, t, hbs, ht, hshort⟩ := ih ho₁ h₂
        refine ⟨a :: bs, t, List.cons_prefix_cons.mpr ⟨rfl, hbs⟩, ?_, hshort⟩
        rw [exec_cons, h₁]
        exact ht
      · exact ⟨[a], s₁, ⟨as, rfl⟩, (exec_singleton s a).trans h₁, hshort⟩

/-- A run that ends without a callback in flight and is charged all along has
no unfair snapshot. -/
theorem Sound.fair_of_charged {as : List WatchAction} (hs : Sound s)
    (h : exec Watch.step s as = some s') (hactive : s'.stats.active = false)
    (hcharged : ∀ bs t, bs <+: as → exec Watch.step s bs = some t → Charged t) :
    Along Watch.step Fair s as := by
  induction as generalizing s with
  | nil => trivial
  | cons a as ih =>
      rw [exec_cons] at h
      obtain ⟨s₁, h₁, h₂⟩ := Option.bind_eq_some_iff.mp h
      have hrest : ∀ bs t, bs <+: as → exec Watch.step s₁ bs = some t → Charged t := by
        intro bs t hbs ht
        refine hcharged (a :: bs) t (List.cons_prefix_cons.mpr ⟨rfl, hbs⟩) ?_
        rw [exec_cons, h₁]
        exact ht
      have hfair : Fair s a := by
        by_contra hfair
        obtain ⟨bs, t, hbs, ht, hshort⟩ := (Overdrawn.of_not_fair hs hfair h₁).exec h₂ hactive
        exact hshort (hrest bs t hbs ht)
      refine ⟨hfair, ?_⟩
      rw [h₁]
      exact ih (preserved_sound s a s₁ hs h₁) h₂ hrest

/-! ## whole runs -/

/-- No snapshot has been taken yet. -/
theorem Init.recorded (h : Init s) : Recorded s where
  sound := h.sound
  le x hx := by rw [h.snapshots] at hx; exact nomatch hx
  counters := by rw [h.snapshots]; exact .nil
  oneInFlight x hx := by rw [h.snapshots] at hx; exact nomatch hx

/-- No snapshot has been taken yet. -/
theorem Init.covered (h : Init s) : Covered s where
  le x hx := by rw [h.snapshots] at hx; exact nomatch hx
  cpu := by rw [h.snapshots]; exact .nil

/-- What is covered is charged once the callback has left. -/
theorem Covered.monotone (hc : Covered s) (hr : Recorded s) : Monotone s where
  counters := hr.counters
  oneInFlight := hr.oneInFlight
  cpu := hc.cpu
  charged hactive x hx := (hc.le x hx).trans_eq (hr.sound.charge_of_inactive hactive)

/-- The counters of the snapshots are monotone in every run. -/
theorem exec_recorded {as : List WatchAction} (hinit : Init s)
    (h : exec Watch.step s as = some s') : Recorded s' :=
  preserved_recorded.exec hinit.recorded h

/-- The snapshots are monotone in every state of a run. -/
def MonotoneAlong (s : Watch) (as : List WatchAction) : Prop :=
  ∀ bs t, bs <+: as → exec Watch.step s bs = some t → Monotone t

/-- The snapshots of a run are monotone all along it if none sees the clock go
on behind a settled callback, and, where the run ends without a callback in
flight, only then. -/
theorem snapshots_monotone_iff {as : List WatchAction} (hinit : Init s)
    (hrun : exec Watch.step s as = some s') :
    (Along Watch.step Fair s as → MonotoneAlong s as) ∧
      (s'.stats.active = false → MonotoneAlong s as → Along Watch.step Fair s as) := by
  constructor
  · rintro hfair bs t ⟨cs, rfl⟩ ht
    have hcovered : Sound t ∧ Covered t := by
      refine @Along.exec _ _ Watch.step (fun s => Sound s ∧ Covered s) Fair s t bs
        hfair.left_of_append ?_ ⟨hinit.sound, hinit.covered⟩ ht
      intro s a s' ⟨hs, hc⟩ hfair h
      exact ⟨preserved_sound s a s' hs h, hc.step hs hfair h⟩
    exact hcovered.2.monotone (exec_recorded hinit ht)
  · intro hactive hmonotone
    exact hinit.sound.fair_of_charged hrun hactive fun bs t hbs ht =>
      (hmonotone bs t hbs ht).charged

/-! ## two runs -/

/-- A callback without work. -/
def quickCall : JobCall where
  message := { jobId := 1, sourceTsNs := 0, releaseTsNs := 10 }
  workUs := 0
  deadlineNs := 5000000
  staleNs := 10000000
  measured := true

/-- It reads the clock five nanoseconds on; then the clock goes on so far. -/
def quickRun (behind : Nat) : List WatchAction :=
  [.call quickCall, .job, .job, .snapshot, .job, .job, .tick 20 5, .job,
    .tick 10 behind, .snapshot, .job, .job, .snapshot]

/-- The snapshots of that run. -/
def quickCpuNs (behind : Nat) : Option (List Nat) :=
  (exec Watch.step { now := 100, cpu := 7 } (quickRun behind)).map (·.snapshots.map (·.cpuNs))

example : quickCpuNs 0 = some [0, 5, 5] := by decide

/-- A short run with two snapshots. -/
theorem snapshots_monotone_iff_quickRun : MonotoneAlong { now := 100, cpu := 7 } (quickRun 0) := by
  have hinit : Init { now := 100, cpu := 7 } := ⟨by decide, rfl, rfl, rfl⟩
  obtain ⟨s', hrun⟩ := Option.isSome_iff_exists.mp
    (by decide : (exec Watch.step { now := 100, cpu := 7 } (quickRun 0)).isSome = true)
  exact (snapshots_monotone_iff hinit hrun).1 (by decide)

/-- The clock went on: the snapshot in between reports more than the last one. -/
theorem snapshots_monotone_refuted :
    ¬ ∀ (s s' : Watch) (as : List WatchAction), Init s → exec Watch.step s as = some s' →
      Monotone s' := by
  intro h
  have hcpu : quickCpuNs 3 = some [0, 8, 5] := by decide
  obtain ⟨s', hrun, hs'⟩ := Option.map_eq_some_iff.mp hcpu
  have hinit : Init { now := 100, cpu := 7 } := ⟨by decide, rfl, rfl, rfl⟩
  have hsorted : (s'.snapshots.map (·.cpuNs)).Pairwise (· ≤ ·) :=
    List.pairwise_map.mpr (h _ s' _ hinit hrun).cpu
  rw [hs'] at hsorted
  exact absurd hsorted (by decide)

end Watch

end ScxSlam.RosPipeline
