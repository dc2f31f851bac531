import ScxSlam.Lib.Fair
import ScxSlam.Workload.Remaining
import ScxSlam.Workload.Traces

/-!
# ScxSlam.Workload.Fairness

Every fair run of `dependent_workload` reaches the `break` of its loop.

What is left to do behind the window is a number that no step makes larger, so
it stays in the end.  From then on no thread has a job, and a pass of the loop
that finds nothing to do in any worker nor in the graph leaves.
-/

namespace ScxSlam.Workload

open DependentGraph

variable {o : Options} {s s' : State} {r : Role}

/-! ## a pass of the loop that finds nothing to do -/

/-- The workers still to be asked for a result. -/
def Pc.uncollected : Pc → List Role
  | .collect todo => todo
  | _ => []

/-- The workers still to be handed a job. -/
def Pc.undispatched (o : Options) : Pc → List Role
  | .dispatch todo => todo
  | .exit => []
  | _ => o.workers

/-- The estimator has had its turn. -/
def Pc.estimated : Pc → Bool
  | .dispatch _ | .exit => true
  | _ => false

/-- What the pass has found so far. -/
structure Seen (o : Options) (s : State) : Prop where
  results : ∀ r ∈ o.workers, r ∉ s.pc.uncollected → (s.worker r).result = none
  selected : s.pc.estimated = true →
    (s.worker .estimator).pending = true ∨ ∀ i, s.session.graph.inbox.get i = []
  handed : ∀ r ∈ o.workers, r ∉ s.pc.undispatched o →
    (s.worker r).busy = true ∨ (s.worker r).queue = []

/-- A pass begins behind the test. -/
theorem Seen.start (hpc : s.pc = .collect o.workers) : Seen o s := by
  constructor <;> rw [hpc]
  case results => exact fun r hr hnot => absurd hr hnot
  case selected => exact nofun
  case handed => exact fun r hr hnot => absurd hr hnot

/-- The pass goes on. -/
theorem Seen.coast (h : Seen o s) (hcoast : Coast o s s') (hexit : s.pc ≠ .exit) : Seen o s' := by
  obtain ⟨hresults, hselected, hhanded⟩ := h
  have hinbox := hcoast.keeps.2.2
  have hnotyet : ∀ q ∈ o.workers, q ∉ o.workers →
      (s.worker q).busy = true ∨ (s.worker q).queue = [] := fun q hq hnot => absurd hq hnot
  cases hcoast with
  | @collect r todo hpc hnone =>
      rw [hpc] at hresults
      refine ⟨?_, nofun, hnotyet⟩
      intro q hq hnot
      by_cases hqr : q = r
      · rw [hqr]
        exact hnone
      · exact hresults q hq (List.not_mem_cons_of_ne_of_not_mem hqr hnot)
  | collected hpc | clock hpc | hogs hpc | imu hpc | camera hpc | control hpc =>
      rw [hpc] at hresults
      exact ⟨hresults, nofun, hnotyet⟩
  | busy hpc hpending =>
      rw [hpc] at hresults
      exact ⟨hresults, fun _ => .inl hpending, hnotyet⟩
  | nothing hpc hempty _ =>
      rw [hpc] at hresults
      refine ⟨hresults, fun _ => .inr ?_, hnotyet⟩
      intro i
      rw [hinbox]
      exact hempty i
  | @dispatch r todo hpc hidle =>
      rw [hpc] at hresults hselected hhanded
      refine ⟨hresults, hselected, ?_⟩
      intro q hq hnot
      by_cases hqr : q = r
      · rw [hqr]
        exact hidle
      · exact hhanded q hq (List.not_mem_cons_of_ne_of_not_mem hqr hnot)
  | dispatched hpc =>
      rw [hpc] at hresults hselected hhanded
      exact ⟨hresults, hselected, hhanded⟩
  | again hpc _ | leave hpc => exact absurd hpc hexit

/-- A thread that cannot take a step has no job. -/
theorem Worker.still {κ : Type} {W : Worker κ} {now : Nat}
    (h : ∀ cpu, W.advance now cpu = none) : W.thread = .waiting ∧ W.slot = none := by
  cases hthread : W.thread with
  | waiting =>
      have hnone := h 0
      simp only [Worker.advance, hthread, Option.map_eq_none_iff] at hnone
      exact ⟨rfl, hnone⟩
  | taken job =>
      have hnone := h 0
      simp [Worker.advance, hthread] at hnone
  | compute job start =>
      have hnone := h job.work
      simp [Worker.advance, hthread] at hnone
  | measured result =>
      have hnone := h 0
      simp [Worker.advance, hthread] at hnone

/-- **Exit**: behind a pass that has found nothing to do, with no job in a
thread, the test lets `main` leave. -/
theorem Seen.leaves (h : Seen o s) (hacc : Account s) (hpc : s.pc = .exit)
    (hbehind : s.finish ≤ s.t)
    (hstill : ∀ r, (s.worker r).thread = .waiting ∧ (s.worker r).slot = none) :
    (s.exitStep o).pc = .done := by
  obtain ⟨hresults, hselected, hhanded⟩ := h
  rw [hpc] at hresults hselected hhanded
  have hidle : ∀ r ∈ o.workers, (s.worker r).busy = false := by
    intro r hr
    have hresult := hresults r hr List.not_mem_nil
    have hnone : (s.worker r).outstanding = [] := by
      simp [Worker.outstanding, hstill r, hresult, Activity.job?]
    have hone := (hacc.sound r).one
    rw [hnone] at hone
    cases hbusy : (s.worker r).busy with
    | false => rfl
    | true =>
        rw [hbusy] at hone
        cases hone
  have hpending : ∀ r ∈ o.workers, (s.worker r).pending = false := by
    intro r hr
    obtain hbusy | hqueue := hhanded r hr List.not_mem_nil
    · rw [hidle r hr] at hbusy
      cases hbusy
    · simp [Worker.pending, hidle r hr, hqueue]
  have hdrained : ∀ i : Lane, s.drained i.stream = true := by
    intro i
    obtain hbusy | hempty := hselected rfl
    · rw [hpending .estimator (by simp [Options.workers])] at hbusy
      cases hbusy
    · have hzero : ((s.session.graph.inbox.get i).length == 0) = true := by simp [hempty i]
      unfold State.drained Graph.pending
      rw [index_stream]
      exact hzero
  have hnobody : (o.workers.any fun r => (s.worker r).pending) = false :=
    List.any_eq_false.mpr fun r hr => by simp [hpending r hr]
  simp only [State.exitStep]
  rw [if_pos ⟨hbehind, hnobody, hdrained .imu, hdrained .camera⟩]
  rfl

/-! ## runs -/

section Runs

variable {ρ : Fair.Run (step o)} {N n m : Nat}

/-- The dispatcher can go on until it is behind the `break`. -/
theorem main_goes_on (h : Going o s) (hdone : s.pc ≠ .done) :
    (step o s .main).isSome = true := by
  rw [step]
  cases hpc : s.pc
  case done => exact absurd hpc hdone
  case failed what => exact absurd hpc (h.lawful.alive what)
  all_goals
    rw [State.mainStep, hpc]
    rfl

theorem run_going (h : Going o (ρ.state 0)) (n : Nat) : Going o (ρ.state n) :=
  Fair.Run.always (step_going o) h (Nat.zero_le n)

/-- The releases and the place in the loop are the dispatcher's. -/
theorem step_ahead {a : Action} (h : Going o s) (hs : step o s a = some s') (hpc : s.pc ≠ .exit) :
    s'.releases o + s'.pc.ahead ≤ s.releases o + s.pc.ahead ∧
      (a = .main → s'.releases o + s'.pc.ahead < s.releases o + s.pc.ahead) := by
  cases a with
  | tick d =>
      rw [step] at hs
      split at hs <;> cases hs
      exact ⟨Nat.le_refl _, by simp⟩
  | thread r cpu =>
      rw [step] at hs
      obtain ⟨W, -, rfl⟩ := Option.map_eq_some_iff.mp hs
      exact ⟨Nat.le_refl _, by simp⟩
  | main =>
      have hlt := main_ahead h hs hpc
      exact ⟨Nat.le_of_lt hlt, fun _ => hlt⟩

/-- Only the dispatcher moves itself. -/
theorem step_pc {a : Action} (hs : step o s a = some s') (ha : a ≠ .main) : s'.pc = s.pc := by
  cases a with
  | tick d =>
      rw [step] at hs
      split at hs <;> cases hs
      rfl
  | thread r cpu =>
      rw [step] at hs
      obtain ⟨W, -, rfl⟩ := Option.map_eq_some_iff.mp hs
      rfl
  | main => exact absurd rfl ha

/-- The dispatcher gets to its test. -/
theorem main_progress (o : Options) : Fair.Progress (step o) (· = .main) (Going o)
    (fun s => s.pc = .exit ∨ s.pc = .done) (fun s => s.releases o + s.pc.ahead) where
  stable := step_going o
  enabled _ h hnot := ⟨.main, rfl, main_goes_on h fun hdone => hnot (.inr hdone)⟩
  keeps _ _ _ h hnot hs := (step_ahead h hs fun hexit => hnot (.inl hexit)).1
  falls _ _ _ h hnot hmain hs := (step_ahead h hs fun hexit => hnot (.inl hexit)).2 hmain

/-- **Test**: the dispatcher of a fair run always comes to the test before the
`break` again. -/
theorem run_exit (h : ∀ n, Going o (ρ.state n)) (hmain : ρ.WeaklyFair (· = .main))
    (hnever : ∀ n, (ρ.state n).pc ≠ .done) (n : Nat) :
    ∃ m, n ≤ m ∧ (ρ.state m).pc = .exit ∧ ρ.action m = .main := by
  obtain ⟨m, hm, hpc⟩ := (main_progress o).reaches hmain (h n)
  have htaken : ∃ k, m ≤ k ∧ ρ.action k = .main :=
    hmain m fun k _ => ⟨.main, rfl, main_goes_on (h k) (hnever k)⟩
  obtain ⟨k, hk, hthere, htaken⟩ := Fair.Run.at_next (ρ := ρ) (P := fun s : State => s.pc = .exit)
    (K := fun k => ρ.action k = .main)
    (fun k _ hthere hother => (step_pc (ρ.next k) hother).trans hthere) htaken
    (hpc.resolve_right (hnever m))
  exact ⟨k, Nat.le_trans hm hk, hthere, htaken⟩

/-- The clock the loop has read is old or new. -/
theorem Turn.times (h : Turn o s s') (hsafe : ¬Fails s) :
    s'.now = s.now ∧ s'.finish = s.finish ∧ (s'.t = s.t ∨ s'.t = s.now) := by
  cases h with
  | clock => exact ⟨rfl, rfl, .inr rfl⟩
  | hogs =>
      obtain ⟨pool, hpool⟩ := hogs_pool o.hogs s
      rw [hpool]
      exact ⟨rfl, rfl, .inl rfl⟩
  | fail hfails => exact absurd hfails hsafe
  | _ => exact ⟨rfl, rfl, .inl rfl⟩

/-- A step takes neither the clock nor what the loop has read of it back
before the end of the window. -/
theorem step_times {a : Action} (h : Going o s) (hs : step o s a = some s') :
    s'.finish = s.finish ∧ s.now ≤ s'.now ∧ (s'.t = s.t ∨ s'.t = s.now) := by
  cases a with
  | tick d =>
      rw [step] at hs
      split at hs <;> cases hs
      exact ⟨rfl, Nat.le_add_right _ _, .inl rfl⟩
  | thread r cpu =>
      rw [step] at hs
      obtain ⟨W, -, rfl⟩ := Option.map_eq_some_iff.mp hs
      exact ⟨rfl, Nat.le_refl _, .inl rfl⟩
  | main =>
      obtain ⟨hnow, hfinish, ht⟩ := (main_turn hs).times (h.lawful.safe h.account)
      exact ⟨hfinish, Nat.le_of_eq hnow.symm, ht⟩

/-- The first loop, and the clock reading behind it. -/
def Pc.collecting : Pc → Bool
  | .collect _ | .complete .. | .clock => true
  | _ => false

/-- The first loop ends in a clock reading. -/
theorem main_collecting (hs : s.mainStep o = some s') (halive : ∀ what, s'.pc ≠ .failed what)
    (hcollecting : s.pc.collecting = true) : s'.pc.collecting = true ∨ s'.t = s.now := by
  cases hpc : s.pc <;> rw [State.mainStep, hpc] at hs <;> cases hs
  case collect todo =>
      left
      cases todo with
      | nil => rfl
      | cons r todo =>
          simp only [State.collectStep]
          split <;> rfl
  case complete r c todo =>
      obtain hnext | ⟨what, hfailed⟩ := complete_pc s c todo
      · left
        rw [hnext]
        rfl
      · exact absurd hfailed (halive what)
  case clock => exact .inr rfl
  all_goals
    rw [hpc] at hcollecting
    cases hcollecting

/-- The window is over, and the loop has seen it or is about to. -/
structure Late (s : State) : Prop where
  now : s.finish ≤ s.now
  seen : s.pc.collecting = true ∨ s.finish ≤ s.t

theorem step_late {a : Action} (h : Going o s) (hlate : Late s) (hs : step o s a = some s') :
    Late s' := by
  obtain ⟨hfinish, hnow, ht⟩ := step_times h hs
  refine ⟨hfinish ▸ Nat.le_trans hlate.now hnow, ?_⟩
  obtain hcollecting | hbehind := hlate.seen
  · by_cases ha : a = .main
    · subst ha
      obtain hagain | hread :=
        main_collecting hs (step_going o s .main s' h hs).lawful.alive hcollecting
      · exact .inl hagain
      · right
        rw [hfinish, hread]
        exact hlate.now
    · rw [step_pc hs ha]
      exact .inl hcollecting
  · right
    rw [hfinish]
    obtain ht | ht := ht
    · rwa [ht]
    · rw [ht]
      exact hlate.now

/-- The test does not lead out of the loop, and the next pass begins. -/
theorem exit_again (hs : step o s .main = some s') (hexit : s.pc = .exit) (hdone : s'.pc ≠ .done) :
    s'.pc = .collect o.workers := by
  rw [step, State.mainStep, hexit] at hs
  cases hs
  simp only [State.exitStep] at hdone ⊢
  split at hdone
  · exact absurd rfl hdone
  · next hstay => rw [if_neg hstay, State.goto]

/-- **Window**: the loop of a fair run sees that the window is over. -/
theorem run_behind (h : ∀ n, Going o (ρ.state n)) (hmain : ρ.WeaklyFair (· = .main))
    (hnever : ∀ n, (ρ.state n).pc ≠ .done) (hclock : ∃ n, (ρ.state n).finish ≤ (ρ.state n).now) :
    ∃ N, ∀ m, N ≤ m → Late (ρ.state m) ∧ (ρ.state m).finish ≤ (ρ.state m).t := by
  obtain ⟨n, hnow⟩ := hclock
  have hover : ∀ m, n ≤ m → (ρ.state m).finish ≤ (ρ.state m).now := by
    refine fun m => Fair.Run.always_from (P := fun s : State => s.finish ≤ s.now) ?_ hnow
    intro m _ hlate
    obtain ⟨hfinish, hle, -⟩ := step_times (h m) (ρ.next m)
    rw [hfinish]
    exact Nat.le_trans hlate hle
  -- behind the test the loop collects and reads the clock, before the next test
  obtain ⟨k, hk, hexit, htaken⟩ := run_exit h hmain hnever n
  have hpc := exit_again (htaken ▸ ρ.next k) hexit (hnever _)
  have hlate : ∀ m, k + 1 ≤ m → Late (ρ.state m) := by
    refine fun m => Fair.Run.always_from (P := Late)
      (fun m _ hlate => step_late (h m) hlate (ρ.next m)) ?_
    refine ⟨hover _ (Nat.le_succ_of_le hk), .inl ?_⟩
    rw [hpc]
    rfl
  obtain ⟨N, hN, hagain, -⟩ := run_exit h hmain hnever (k + 1)
  have hseen : (ρ.state N).finish ≤ (ρ.state N).t := by
    obtain hcollecting | hbehind := (hlate N hN).seen
    · rw [hagain] at hcollecting
      cases hcollecting
    · exact hbehind
  refine ⟨N, fun m hm => ⟨hlate m (Nat.le_trans hN hm), ?_⟩⟩
  refine Fair.Run.always_from (P := fun s : State => s.finish ≤ s.t) ?_ hseen hm
  intro m hm hbehind
  obtain ⟨hfinish, -, ht⟩ := step_times (h m) (ρ.next m)
  rw [hfinish]
  obtain ht | ht := ht
  · rwa [ht]
  · rw [ht]
    exact (hlate m (Nat.le_trans hN hm)).now

/-- A step that gets nothing done. -/
def Idles (ρ : Fair.Run (step o)) (m : Nat) : Prop :=
  (∃ d, ρ.action m = .tick d ∧ ρ.state (m + 1) = { ρ.state m with now := (ρ.state m).now + d }) ∨
    ρ.action m = .main ∧ Coast o (ρ.state m) (ρ.state (m + 1))

/-- **Rest**: behind the window nothing gets done any more in the end. -/
theorem run_idles (h : ∀ n, Going o (ρ.state n))
    (hbehind : ∀ m, N ≤ m → (ρ.state m).finish ≤ (ρ.state m).t) :
    ∃ M, N ≤ M ∧ ∀ m, M ≤ m → Idles ρ m := by
  have hstep := fun m (hm : N ≤ m) => step_remaining (h m) (hbehind m hm) (ρ.next m)
  have hmono : ∀ m, N ≤ m → (ρ.state (m + 1)).remaining o ≤ (ρ.state m).remaining o := by
    intro m hm
    obtain hlt | ⟨d, -, heq⟩ | ⟨-, hcoast⟩ := hstep m hm
    · exact Nat.le_of_lt hlt
    · rw [heq]
      exact Nat.le_refl _
    · exact Nat.le_of_eq hcoast.keeps.1
  obtain ⟨M, hM, hsame⟩ := Fair.Run.settles (μ := fun s : State => s.remaining o) hmono
  refine ⟨M, hM, fun m hm => ?_⟩
  obtain hlt | hidles := hstep m (Nat.le_trans hM hm)
  · exact absurd (hsame m hm) (Nat.ne_of_lt hlt)
  · exact hidles

/-- The workers stay as they are. -/
theorem idles_pool {M : Nat} (hidles : ∀ m, M ≤ m → Idles ρ m) (hm : M ≤ m) :
    (ρ.state m).pool = (ρ.state M).pool := by
  refine Fair.Run.always_from (P := fun s : State => s.pool = (ρ.state M).pool) ?_ rfl hm
  intro m hm hpool
  obtain ⟨d, -, heq⟩ | ⟨-, hcoast⟩ := hidles m hm
  · rw [heq]
    exact hpool
  · exact hcoast.keeps.2.1.trans hpool

/-- A fair thread that takes no step has no job. -/
theorem idles_still {M : Nat} (hidles : ∀ m, M ≤ m → Idles ρ m)
    (hthreads : ∀ r, ρ.WeaklyFair fun a => ∃ cpu, a = .thread r cpu) (r : Role) (hm : M ≤ m) :
    ((ρ.state m).worker r).thread = .waiting ∧ ((ρ.state m).worker r).slot = none := by
  obtain ⟨k, hk, hstuck⟩ : ∃ k, M ≤ k ∧ ∀ cpu, step o (ρ.state k) (.thread r cpu) = none := by
    by_contra hnot
    simp only [not_exists, not_and, not_forall] at hnot
    obtain ⟨k, hk, cpu, htaken⟩ := hthreads r M fun m hm => by
      obtain ⟨cpu, hcan⟩ := hnot m hm
      exact ⟨.thread r cpu, ⟨cpu, rfl⟩, Option.isSome_iff_ne_none.mpr hcan⟩
    obtain ⟨d, htick, -⟩ | ⟨hmain, -⟩ := hidles k hk
    · rw [htaken] at htick
      cases htick
    · rw [htaken] at hmain
      cases hmain
  have hstill := Worker.still (W := (ρ.state k).worker r) fun cpu => by
    simpa only [step, Option.map_eq_none_iff] using hstuck cpu
  have hworker : (ρ.state m).worker r = (ρ.state k).worker r := by
    rw [State.worker, State.worker, idles_pool hidles hm, idles_pool hidles hk]
  rw [hworker]
  exact hstill

/-- **Drain**: every run in which the dispatcher and the threads are not kept
from going on, and the clock passes the end of the window, leaves the loop. -/
theorem fair_run_drains (hreachable : Reachable o (ρ.state 0)) (hmain : ρ.WeaklyFair (· = .main))
    (hthreads : ∀ r, ρ.WeaklyFair fun a => ∃ cpu, a = .thread r cpu)
    (hclock : ∃ n, (ρ.state n).finish ≤ (ρ.state n).now) : ∃ n, (ρ.state n).pc = .done := by
  by_contra hnot
  have hnever : ∀ n, (ρ.state n).pc ≠ .done := fun n hdone => hnot ⟨n, hdone⟩
  have h : ∀ n, Going o (ρ.state n) := run_going hreachable.going
  obtain ⟨N, hbehind⟩ := run_behind h hmain hnever hclock
  obtain ⟨M, hM, hidles⟩ := run_idles h fun m hm => (hbehind m hm).2
  -- a whole pass that finds nothing to do, from one test to the next
  obtain ⟨k, hk, hexit, htaken⟩ := run_exit h hmain hnever M
  have hstart : Seen o (ρ.state (k + 1)) :=
    Seen.start (exit_again (htaken ▸ ρ.next k) hexit (hnever _))
  obtain ⟨m, hm, hseen, hagain, hleaves⟩ := Fair.Run.at_next (ρ := ρ) (P := Seen o)
    (K := fun m => (ρ.state m).pc = .exit ∧ ρ.action m = .main) (by
      intro m hm hseen hpass
      obtain ⟨d, -, heq⟩ | ⟨hmoves, hcoast⟩ := hidles m (by omega)
      · rw [heq]
        exact ⟨hseen.results, hseen.selected, hseen.handed⟩
      · exact hseen.coast hcoast fun hpc => hpass ⟨hpc, hmoves⟩)
    (run_exit h hmain hnever (k + 1)) hstart
  have hdone := hseen.leaves (h m).account hagain (hbehind m (by omega)).2
    fun r => idles_still hidles hthreads r (by omega)
  have hnext := ρ.next m
  rw [hleaves, step, State.mainStep, hagain] at hnext
  exact hnever (m + 1) (Option.some.inj hnext ▸ hdone)

/-- Time may stand still. -/
theorem step_tick_zero (hlimit : s.now < clockLimit) : step o s (.tick 0) = some s :=
  if_pos hlimit

/-- A run to the `break` that then lets the time stand still is fair: neither
the dispatcher nor a thread has anything to do. -/
theorem fair_of_idle {s₀ : State} {as : List Action} (has : Steps.exec (step o) s₀ as = some s)
    (hlimit : s.now < clockLimit) (hdone : s.pc = .done)
    (hstill : ∀ r, (s.worker r).thread = .waiting ∧ (s.worker r).slot = none) :
    ∃ ρ : Fair.Run (step o), ρ.state 0 = s₀ ∧ ρ.state as.length = s ∧
      ρ.WeaklyFair (· = .main) ∧ ∀ r, ρ.WeaklyFair fun a => ∃ cpu, a = .thread r cpu := by
  obtain ⟨ρ, hstart, hend⟩ := Fair.exists_run has (step_tick_zero hlimit)
  refine ⟨ρ, hstart, (hend _ (Nat.le_refl _)).1, ?_, ?_⟩
  · intro n hcan
    obtain ⟨a, rfl, hsome⟩ := hcan (max n as.length) (Nat.le_max_left _ _)
    rw [(hend _ (Nat.le_max_right _ _)).1, step, State.mainStep, hdone] at hsome
    cases hsome
  · intro r n hcan
    obtain ⟨a, ⟨cpu, rfl⟩, hsome⟩ := hcan (max n as.length) (Nat.le_max_left _ _)
    rw [(hend _ (Nat.le_max_right _ _)).1, step, Worker.advance, (hstill r).1,
      (hstill r).2] at hsome
    cases hsome

theorem fair_run_drains_tour : ∃ ρ : Fair.Run (step tourOptions),
    ρ.state 0 = State.initial tourOptions 0 ∧ ∃ n, (ρ.state n).pc = .done := by
  obtain ⟨as, has⟩ := drive_exec tourOptions 1700 (State.initial tourOptions 0)
  have hstill : ∀ r, (tourEnd.worker r).thread = .waiting ∧ (tourEnd.worker r).slot = none := by
    have hall : ∀ r ∈ [Role.imu, .camera, .estimator, .control, .mapping, .hog0, .hog1],
        (tourEnd.worker r).thread = .waiting ∧ (tourEnd.worker r).slot = none := by
      decide +kernel
    intro r
    exact hall r (by cases r <;> simp)
  obtain ⟨ρ, hstart, hend, hmain, hthreads⟩ :=
    fair_of_idle has tourEnd_reachable.lawful.2.limit (by decide +kernel) hstill
  refine ⟨ρ, hstart, fair_run_drains ⟨0, [], by decide, congrArg some hstart.symm⟩ hmain hthreads
    ⟨as.length, ?_⟩⟩
  rw [hend]
  decide +kernel

end Runs

end ScxSlam.Workload
