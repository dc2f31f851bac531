import Mathlib.Algebra.BigOperators.Group.Finset.Sigma
import Mathlib.Algebra.Order.BigOperators.Group.Finset
import Mathlib.Algebra.BigOperators.Ring.Finset
import Mathlib.Algebra.Order.Field.Rat
import Mathlib.Data.Nat.Cast.Order.Field
import Mathlib.Algebra.BigOperators.Finsupp.Basic
import Mathlib.Data.Fintype.Basic
import Mathlib.Order.Interval.Finset.Nat
import Mathlib.Tactic.Linarith

/-!
# ScxSlam.Lib.Edf

Earliest deadline first on one processor.

A processor serves jobs that are released at known times.  It is work
conserving and always serves a pending job that is due first; what a job still
needs is all that is kept of it.  `Ahead` says that the work due by any time
fits into what is left until then.  A step keeps it when no window of time
asks for more than its length, and it leaves no unfinished job behind its
deadline.

Periodic tasks whose jobs are due when the next one is released ask for no more
than that as long as their utilization is at most one.
-/

namespace Edf

variable {ι : Type*}

/-! ## jobs -/

/-- When each job is released, when it is due, and what it may need. -/
structure Jobs (ι : Type*) where
  all : Finset ι
  release : ι → Nat
  deadline : ι → Nat
  cost : ι → Nat
  release_le : ∀ i ∈ all, release i ≤ deadline i

namespace Jobs

variable (J : Jobs ι)

/-- What the jobs need that lie within a window. -/
def demand (lo hi : Nat) : Nat :=
  ∑ i ∈ J.all with lo ≤ J.release i ∧ J.deadline i ≤ hi, J.cost i

/-- No window is asked for more than its length. -/
def Feasible : Prop := ∀ lo hi, lo ≤ hi → J.demand lo hi ≤ hi - lo

end Jobs

/-! ## the processor -/

/-- The clock, and what each job still needs: nothing once it has ended. -/
structure Config (ι : Type*) where
  now : Nat
  left : ι → Option Nat

namespace Config

variable (J : Jobs ι) (c : Config ι)

/-- A job that has been released and has not ended. -/
def Pending (i : ι) : Prop := i ∈ J.all ∧ J.release i ≤ c.now ∧ c.left i ≠ none

/-- No job is released inside the next `d`. -/
def Quiet (d : Nat) : Prop := ∀ i ∈ J.all, J.release i ≤ c.now ∨ c.now + d ≤ J.release i

/-- What is still needed by the jobs due by `t`. -/
def backlog (t : Nat) : Nat := ∑ i ∈ J.all with J.deadline i ≤ t, (c.left i).getD 0

end Config

open Config

/-- A step of the processor. -/
inductive Step [DecidableEq ι] (J : Jobs ι) (c : Config ι) : Config ι → Prop
  /-- a pending job that is due first is served for `d` -/
  | serve (i : ι) (d n : Nat) (hi : c.Pending J i)
      (hfirst : ∀ k, c.Pending J k → J.deadline i ≤ J.deadline k)
      (hleft : c.left i = some (n + d)) (hquiet : c.Quiet J d) :
      Step J c ⟨c.now + d, Function.update c.left i (some n)⟩
  /-- nothing is pending -/
  | idle (d : Nat) (hnone : ∀ i, ¬c.Pending J i) (hquiet : c.Quiet J d) :
      Step J c ⟨c.now + d, c.left⟩
  | finish (i : ι) (hi : c.Pending J i) : Step J c ⟨c.now, Function.update c.left i none⟩

/-- The work due by any time fits into what is left until then. -/
structure Ahead (J : Jobs ι) (c : Config ι) : Prop where
  cost : ∀ i ∈ J.all, (c.left i).getD 0 ≤ J.cost i
  due : ∀ i ∈ J.all, c.left i ≠ none → c.now ≤ J.deadline i
  backlog : ∀ t, c.now ≤ t → c.backlog J t ≤ t - c.now

section Ahead

variable {J : Jobs ι} {c c' : Config ι} {i k : ι} {d n t : Nat}

/-- Before the first release. -/
theorem ahead_initial (hf : J.Feasible) (hearly : ∀ i ∈ J.all, c.now ≤ J.release i)
    (hcost : ∀ i ∈ J.all, c.left i = some (J.cost i)) : Ahead J c := by
  constructor
  case cost =>
      intro i hi
      rw [hcost i hi, Option.getD_some]
  case due => exact fun i hi _ => (hearly i hi).trans (J.release_le i hi)
  case backlog =>
      intro t ht
      have heq : c.backlog J t = J.demand c.now t := by
        unfold Config.backlog Jobs.demand
        refine Finset.sum_congr ?_ fun i hi => ?_
        · ext i
          simp only [Finset.mem_filter]
          exact ⟨fun h => ⟨h.1, hearly i h.1, h.2⟩, fun h => ⟨h.1, h.2.2⟩⟩
        · rw [hcost i (Finset.mem_filter.mp hi).1, Option.getD_some]
      rw [heq]
      exact hf c.now t ht

/-- Where no job due by `t` is pending, only jobs to be released are due by then. -/
theorem Ahead.backlog_le_demand (h : Ahead J c) (hquiet : c.Quiet J d)
    (hnone : ∀ i, c.Pending J i → t < J.deadline i) :
    c.backlog J t ≤ J.demand (c.now + d) t := by
  have hzero : ∀ i ∈ J.all, J.deadline i ≤ t → ¬c.now + d ≤ J.release i →
      (c.left i).getD 0 = 0 := by
    intro i hi hdue hlater
    have hreleased : J.release i ≤ c.now := (hquiet i hi).resolve_right hlater
    by_cases hended : c.left i = none
    · rw [hended, Option.getD_none]
    · have := hnone i ⟨hi, hreleased, hended⟩
      omega
  calc c.backlog J t
      = ∑ i ∈ J.all with c.now + d ≤ J.release i ∧ J.deadline i ≤ t, (c.left i).getD 0 := by
        unfold Config.backlog
        refine (Finset.sum_subset ?_ ?_).symm
        · exact Finset.monotone_filter_right _ fun i _ hi => hi.2
        · intro i hi hout
          obtain ⟨hall, hdue⟩ := Finset.mem_filter.mp hi
          refine hzero i hall hdue fun hlater => hout ?_
          exact Finset.mem_filter.mpr ⟨hall, hlater, hdue⟩
    _ ≤ J.demand (c.now + d) t :=
        Finset.sum_le_sum fun i hi => h.cost i (Finset.mem_filter.mp hi).1

/-- No deadline falls into a quiet interval before those of the pending jobs. -/
theorem due_of_quiet (hquiet : c.Quiet J d)
    (hpending : ∀ k, c.Pending J k → c.now + d ≤ J.deadline k) :
    ∀ k ∈ J.all, c.left k ≠ none → c.now + d ≤ J.deadline k := by
  intro k hk hleft
  obtain hreleased | hlater := hquiet k hk
  · exact hpending k ⟨hk, hreleased, hleft⟩
  · exact hlater.trans (J.release_le k hk)

variable [DecidableEq ι]

/-- What one job has got is what the work due is less. -/
theorem backlog_serve (hi : i ∈ J.all) (hleft : c.left i = some (n + d))
    (hdue : J.deadline i ≤ t) :
    Config.backlog J ⟨c.now + d, Function.update c.left i (some n)⟩ t + d = c.backlog J t := by
  have hmem : i ∈ J.all.filter fun i => J.deadline i ≤ t := Finset.mem_filter.mpr ⟨hi, hdue⟩
  unfold Config.backlog
  rw [← Finset.add_sum_erase _ _ hmem, ← Finset.add_sum_erase _ _ hmem]
  dsimp only
  rw [Function.update_self, hleft, Option.getD_some, Option.getD_some]
  have hrest : ∀ k ∈ (J.all.filter fun i => J.deadline i ≤ t).erase i,
      (Function.update c.left i (some n) k).getD 0 = (c.left k).getD 0 := by
    intro k hk
    rw [Function.update_of_ne (Finset.ne_of_mem_erase hk)]
  rw [Finset.sum_congr rfl hrest]
  omega

/-- A job that gets less than it needs, or ends, asks for less. -/
theorem getD_update_le {v : Option Nat} (hv : v.getD 0 ≤ (c.left i).getD 0) (k : ι) :
    (Function.update c.left i v k).getD 0 ≤ (c.left k).getD 0 := by
  by_cases hk : k = i
  · subst hk
    rwa [Function.update_self]
  · rw [Function.update_of_ne hk]

/-- Serving a job adds to no backlog. -/
theorem backlog_update_le {v : Option Nat} (hv : v.getD 0 ≤ (c.left i).getD 0) (now t : Nat) :
    Config.backlog J ⟨now, Function.update c.left i v⟩ t ≤ c.backlog J t :=
  Finset.sum_le_sum fun k _ => getD_update_le hv k

/-- **Optimality**: where every window has room for its demand, no job that a
processor serves by deadline is unfinished behind its own. -/
theorem Ahead.step (hf : J.Feasible) (h : Ahead J c) (hs : Step J c c') : Ahead J c' := by
  cases hs with
  | serve i d n hi hfirst hleft hquiet =>
      have hle : (some n).getD 0 ≤ (c.left i).getD 0 := by
        rw [hleft, Option.getD_some, Option.getD_some]
        omega
      -- what is left of the served job is part of what is due with it
      have hroom : c.now + d ≤ J.deadline i := by
        have hdue := h.due i hi.1 hi.2.2
        have hback := h.backlog (J.deadline i) hdue
        have hsum := backlog_serve (J := J) (n := n) (d := d) hi.1 hleft le_rfl
        omega
      constructor
      case cost => exact fun k hk => (getD_update_le hle k).trans (h.cost k hk)
      case due =>
          intro k hk hk'
          refine due_of_quiet hquiet (fun k hk => hroom.trans (hfirst k hk)) k hk ?_
          by_cases hki : k = i
          · subst hki
            exact hi.2.2
          · dsimp only at hk'
            rwa [Function.update_of_ne hki] at hk'
      case backlog =>
          intro t ht
          dsimp only at ht ⊢
          by_cases hdue : J.deadline i ≤ t
          · have hsum := backlog_serve (J := J) (n := n) (d := d) hi.1 hleft hdue
            have hback := h.backlog t (by omega)
            omega
          · have hback := h.backlog_le_demand (t := t) hquiet fun k hk => by
              have := hfirst k hk
              omega
            have hdemand := hf (c.now + d) t ht
            have := backlog_update_le (J := J) hle (c.now + d) t
            omega
  | idle d hnone hquiet =>
      constructor
      case cost => exact h.cost
      case due => exact due_of_quiet hquiet fun k hk => absurd hk (hnone k)
      case backlog =>
          intro t ht
          dsimp only at ht ⊢
          have hback := h.backlog_le_demand (t := t) hquiet fun k hk => absurd hk (hnone k)
          exact hback.trans (hf (c.now + d) t ht)
  | finish i hi =>
      have hle : (none : Option Nat).getD 0 ≤ (c.left i).getD 0 := Nat.zero_le _
      constructor
      case cost => exact fun k hk => (getD_update_le hle k).trans (h.cost k hk)
      case due =>
          intro k hk hk'
          dsimp only at hk' ⊢
          by_cases hki : k = i
          · subst hki
            exact absurd (Function.update_self ..) hk'
          · rw [Function.update_of_ne hki] at hk'
            exact h.due k hk hk'
      case backlog => exact fun t ht => (backlog_update_le hle c.now t).trans (h.backlog t ht)

end Ahead

/-! ## periodic tasks -/

/-- Periodic tasks that start together, each job due when the next is released. -/
structure Tasks (τ : Type*) where
  period : τ → Nat
  budget : τ → Nat
  count : τ → Nat
  period_pos : ∀ t, 0 < period t

namespace Tasks

variable {τ : Type*} (T : Tasks τ) (epoch : Nat)

/-- Their jobs, numbered from zero. -/
def jobs [Fintype τ] : Jobs ((_ : τ) × Nat) where
  all := Finset.univ.sigma fun t => Finset.range (T.count t)
  release i := epoch + i.2 * T.period i.1
  deadline i := epoch + i.2 * T.period i.1 + T.period i.1
  cost i := T.budget i.1
  release_le := fun _ _ => Nat.le_add_right _ _

/-- The share of the processor they ask for. -/
def utilization [Fintype τ] : ℚ := ∑ t, (T.budget t : ℚ) / T.period t

variable {T}

/-- As many jobs of a task lie within a window as its period goes into it. -/
theorem card_within_le (t : τ) (lo hi : Nat) :
    ((Finset.range (T.count t)).filter fun j =>
      lo ≤ epoch + j * T.period t ∧ epoch + j * T.period t + T.period t ≤ hi).card ≤
        (hi - lo) / T.period t := by
  generalize hS : (Finset.range (T.count t)).filter (fun j =>
    lo ≤ epoch + j * T.period t ∧ epoch + j * T.period t + T.period t ≤ hi) = S
  by_cases hne : S.Nonempty
  · -- they follow the first of them, and the last one has to end in time
    obtain ⟨a, ha, hmin⟩ := S.exists_minimal hne
    have hsub : S ⊆ Finset.Ico a (a + (hi - lo) / T.period t) := by
      intro j hj
      have haj : a ≤ j := by
        by_contra hlt
        exact absurd (hmin hj (by omega)) (by omega)
      rw [← hS] at ha hj
      obtain ⟨-, hlo, -⟩ := Finset.mem_filter.mp ha
      obtain ⟨-, -, hhi⟩ := Finset.mem_filter.mp hj
      have hfit : (j - a + 1) * T.period t ≤ hi - lo := by
        obtain ⟨e, rfl⟩ := Nat.exists_eq_add_of_le haj
        rw [Nat.add_mul] at hhi
        rw [Nat.add_sub_cancel_left, Nat.add_mul, Nat.one_mul]
        omega
      have hcount := (Nat.le_div_iff_mul_le (T.period_pos t)).mpr hfit
      rw [Finset.mem_Ico]
      omega
    refine (Finset.card_le_card hsub).trans ?_
    rw [Nat.card_Ico, Nat.add_sub_cancel_left]
  · rw [Finset.not_nonempty_iff_eq_empty.mp hne, Finset.card_empty]
    exact Nat.zero_le _

variable [Fintype τ]

/-- The demand of periodic tasks, job by job. -/
theorem demand_eq (lo hi : Nat) : (T.jobs epoch).demand lo hi =
    ∑ t, ∑ _j ∈ (Finset.range (T.count t)).filter (fun j =>
      lo ≤ epoch + j * T.period t ∧ epoch + j * T.period t + T.period t ≤ hi), T.budget t := by
  unfold Jobs.demand
  rw [Finset.sum_filter]
  refine (Finset.sum_sigma ..).trans (Finset.sum_congr rfl fun t _ => ?_)
  exact (Finset.sum_filter ..).symm

/-- The demand of periodic tasks is no more than their whole periods ask for. -/
theorem demand_le (lo hi : Nat) :
    (T.jobs epoch).demand lo hi ≤ ∑ t, T.budget t * ((hi - lo) / T.period t) := by
  rw [demand_eq]
  refine Finset.sum_le_sum fun t _ => ?_
  rw [Finset.sum_const, nsmul_eq_mul, Nat.cast_id, Nat.mul_comm]
  exact Nat.mul_le_mul_left _ (card_within_le epoch t lo hi)

/-- **Schedulability**: periodic tasks of a utilization of at most one leave
room for the demand of every window. -/
theorem feasible_of_utilization_le_one (h : T.utilization ≤ 1) :
    (T.jobs epoch).Feasible := by
  intro lo hi _
  refine (demand_le epoch lo hi).trans ?_
  have hterm : ∀ t, ((T.budget t * ((hi - lo) / T.period t) : Nat) : ℚ) ≤
      (T.budget t : ℚ) / T.period t * (hi - lo : Nat) := by
    intro t
    rw [Nat.cast_mul, div_mul_eq_mul_div, mul_div_assoc]
    exact mul_le_mul_of_nonneg_left Nat.cast_div_le (Nat.cast_nonneg _)
  have hsum : ((∑ t, T.budget t * ((hi - lo) / T.period t) : Nat) : ℚ) ≤ (hi - lo : Nat) := by
    rw [Nat.cast_sum]
    calc ∑ t, ((T.budget t * ((hi - lo) / T.period t) : Nat) : ℚ)
        ≤ ∑ t, (T.budget t : ℚ) / T.period t * (hi - lo : Nat) :=
          Finset.sum_le_sum fun t _ => hterm t
      _ = T.utilization * (hi - lo : Nat) := by rw [utilization, Finset.sum_mul]
      _ ≤ 1 * (hi - lo : Nat) := mul_le_mul_of_nonneg_right h (Nat.cast_nonneg _)
      _ = (hi - lo : Nat) := one_mul _
  exact_mod_cast hsum

end Tasks

end Edf
