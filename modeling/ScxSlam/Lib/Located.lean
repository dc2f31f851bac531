import Mathlib.Logic.Function.Basic

/-!
# ScxSlam.Lib.Located

Tables that are keyed by where a thing is, for things whose places are used
again: when such a table says the same as one that is keyed by the things
themselves.
-/

namespace ScxSlam.Located

variable {α κ β : Type} [DecidableEq α]

/-- Nothing is in two places. -/
def Apart (owner : α → Option κ) : Prop :=
  ∀ a a' k, owner a = some k → owner a' = some k → a = a'

/-- The table by place, read with a default, has the value of everything that
has one. -/
def Reflects (owner : α → Option κ) (table : α → Option β) (d : β) (spec : κ → Option β) : Prop :=
  ∀ a k v, owner a = some k → spec k = some v → (table a).getD d = v

variable {owner : α → Option κ} {table : α → Option β} {d : β} {spec : κ → Option β} {a : α} {k : κ}

/-- Freeing an address keeps the owners apart. -/
theorem Apart.free (h : Apart owner) (a : α) : Apart (Function.update owner a none) := by
  intro b b' k' hb hb'
  rw [Function.update_apply] at hb hb'
  split at hb
  · contradiction
  · split at hb'
    · contradiction
    · exact h b b' k' hb hb'

/-- A new owner at one address keeps the owners apart. -/
theorem Apart.alloc (h : Apart owner) (hk : ∀ b, owner b ≠ some k) :
    Apart (Function.update owner a (some k)) := by
  intro b b' k' hb hb'
  rw [Function.update_apply] at hb hb'
  split at hb <;> split at hb'
  · next hba hba' => exact hba.trans hba'.symm
  · cases hb
    exact absurd hb' (hk b')
  · cases hb'
    exact absurd hb (hk b)
  · exact h b b' k' hb hb'

/-- Freeing an address changes no lookup. -/
theorem Reflects.free (h : Reflects owner table d spec) (a : α) :
    Reflects (Function.update owner a none) table d spec := by
  intro b k' v hb hv
  rw [Function.update_apply] at hb
  split at hb
  · contradiction
  · exact h b k' v hb hv

/-- A place may be used again, for a thing that has no value yet. -/
theorem Reflects.alloc (h : Reflects owner table d spec) (hk : spec k = none) :
    Reflects (Function.update owner a (some k)) table d spec := by
  intro b k' v hb hv
  rw [Function.update_apply] at hb
  split at hb
  · cases hb
    rw [hk] at hv
    contradiction
  · exact h b k' v hb hv

variable [DecidableEq κ]

/-- What is said of one place is said of one thing. -/
theorem Reflects.set {x y : Option β} (h : Reflects owner table d spec) (hapart : Apart owner)
    (ha : owner a = some k) (hxy : ∀ v, y = some v → x.getD d = v) :
    Reflects owner (Function.update table a x) d (Function.update spec k y) := by
  intro b k' v hb hv
  by_cases hba : b = a
  · subst hba
    cases Option.some.inj (ha.symm.trans hb)
    rw [Function.update_self] at hv ⊢
    exact hxy v hv
  · have hk : k' ≠ k := by
      rintro rfl
      exact hba (hapart b a k' hb ha)
    rw [Function.update_of_ne hk] at hv
    rw [Function.update_of_ne hba]
    exact h b k' v hb hv

/-- The default needs no entry, but bears no other. -/
theorem Reflects.plain_iff (h : Reflects owner table d spec) (hapart : Apart owner)
    (ha : owner a = some k) :
    Reflects owner table d (Function.update spec k (some d)) ↔ (table a).getD d = d := by
  constructor
  · exact fun hnew => hnew a k d ha (Function.update_self ..)
  · intro hd
    have hset := h.set hapart ha (x := table a) (y := some d)
      fun v hv => hd.trans (Option.some.inj hv)
    rwa [Function.update_eq_self] at hset

end ScxSlam.Located
