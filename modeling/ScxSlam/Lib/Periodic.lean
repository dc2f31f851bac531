import Mathlib.Algebra.Order.Group.Nat

/-!
# ScxSlam.Lib.Periodic

What a periodic task takes of a processor that serves it before all others.

`taken T C x` is what a task of period `T` that needs `C` of every period has
got by `x` at the least: `C` in every period that is over, and all of the one
that has begun until it has got `C` there.
-/

namespace Periodic

variable {T C x y d m : Nat}

/-- The share of a task that is served first. -/
def taken (T C x : Nat) : Nat := x / T * C + min (x % T) C

/-- `x` cut into whole periods and the rest. -/
theorem taken_eq {q r : Nat} (hr : r < T) : taken T C (q * T + r) = q * C + min r C := by
  have hT : 0 < T := Nat.zero_lt_of_lt hr
  unfold taken
  rw [Nat.add_comm (q * T), Nat.add_mul_div_right r q hT, Nat.add_mul_mod_self_right,
    Nat.div_eq_of_lt hr, Nat.mod_eq_of_lt hr, Nat.zero_add]

/-- Nothing is taken of nothing. -/
@[simp] theorem taken_zero : taken T C 0 = 0 := by
  simp [taken]

/-- Each whole period takes the budget. -/
theorem taken_mul (hT : 0 < T) : taken T C (m * T) = m * C := by
  have := taken_eq (C := C) (q := m) hT
  simpa using this

/-- One more unit takes at most one more. -/
theorem taken_succ (hT : 0 < T) (hC : C ≤ T) :
    taken T C x ≤ taken T C (x + 1) ∧ taken T C (x + 1) ≤ taken T C x + 1 := by
  have hr := Nat.mod_lt x hT
  have hx : x = x / T * T + x % T := by
    rw [Nat.mul_comm]
    exact (Nat.div_add_mod x T).symm
  generalize x / T = q at hx
  generalize x % T = r at hx hr
  subst hx
  by_cases hlast : r + 1 < T
  · rw [Nat.add_assoc, taken_eq hr, taken_eq hlast]
    omega
  · -- a period is over, and the task has got all of its share
    have hend : q * T + r + 1 = (q + 1) * T := by
      rw [Nat.add_mul, Nat.one_mul]
      omega
    rw [hend, taken_eq hr, taken_mul hT, Nat.add_mul, Nat.one_mul]
    omega

/-- A stretch takes at most its own length. -/
theorem taken_add (hT : 0 < T) (hC : C ≤ T) :
    taken T C x ≤ taken T C (x + d) ∧ taken T C (x + d) ≤ taken T C x + d := by
  induction d with
  | zero => exact ⟨Nat.le_refl _, Nat.le_refl _⟩
  | succ d ih =>
      obtain ⟨hle, hge⟩ := taken_succ (x := x + d) hT hC
      rw [← Nat.add_assoc]
      omega

/-- More time never takes less. -/
theorem taken_mono (hT : 0 < T) (hC : C ≤ T) (h : x ≤ y) : taken T C x ≤ taken T C y := by
  obtain ⟨d, rfl⟩ := Nat.exists_eq_add_of_le h
  exact (taken_add hT hC).1

/-- No more than time has passed. -/
theorem taken_le_add (hT : 0 < T) (hC : C ≤ T) (h : y ≤ x + d) :
    taken T C y ≤ taken T C x + d :=
  (taken_mono hT hC h).trans (taken_add hT hC).2

/-- Within `m` periods at most `m` budgets are taken. -/
theorem taken_le_mul (hT : 0 < T) (hC : C ≤ T) (h : x ≤ m * T) : taken T C x ≤ m * C := by
  rw [← taken_mul (m := m) (C := C) hT]
  exact taken_mono hT hC h

end Periodic
