import Mathlib.Data.List.Induction
import Mathlib.Order.Lattice

/-!
# ScxSlam.Lib.Newest

The element of greatest key in a list, the last one among equals, as a
single pass that replaces what it holds by every element that is not older.
-/

namespace Newest

variable {α β : Type*} [LinearOrder β] (key : α → β)

/-- Replace `last` unless it is strictly newer. -/
def keep (last : Option α) (x : α) : Option α :=
  match last with
  | none => some x
  | some y => if key y ≤ key x then some x else some y

/-- The newest element of a list. -/
def newest (l : List α) : Option α := l.foldl (keep key) none

/-- `x` is in `l`, nothing in `l` is newer, and everything after it is older. -/
def IsNewest (l : List α) (x : α) : Prop :=
  ∃ pre post, l = pre ++ x :: post ∧ (∀ y ∈ pre, key y ≤ key x) ∧ ∀ y ∈ post, key y < key x

variable {key} {l l' : List α} {x y : α}

@[simp] theorem newest_nil : newest key ([] : List α) = none := rfl

/-- The last element is kept, or the newest so far. -/
theorem newest_concat : newest key (l ++ [x]) = keep key (newest key l) x := by
  rw [newest, List.foldl_append]
  rfl

/-- A pass may be resumed. -/
theorem newest_append : newest key (l ++ l') = l'.foldl (keep key) (newest key l) :=
  List.foldl_append

/-- One of the two is kept. -/
theorem keep_isSome (last : Option α) : (keep key last x).isSome = true := by
  cases last with
  | none => rfl
  | some y =>
      simp only [keep]
      split <;> rfl

/-- A pass over something leaves something. -/
theorem foldl_keep_isSome (last : Option α) (h : l ≠ []) :
    (l.foldl (keep key) last).isSome = true := by
  induction l using List.reverseRecOn with
  | nil => contradiction
  | append_singleton l x _ =>
      rw [List.foldl_append]
      exact keep_isSome _

/-- A pass leaves what it began with, or an element. -/
theorem mem_foldl_keep {last : Option α} (h : y ∈ l.foldl (keep key) last) :
    y ∈ last ∨ y ∈ l := by
  induction l using List.reverseRecOn with
  | nil => exact .inl h
  | append_singleton l x ih =>
      rw [List.foldl_append, List.foldl_cons, List.foldl_nil] at h
      have hkeep : y ∈ l.foldl (keep key) last ∨ y = x := by
        unfold keep at h
        split at h
        · cases h
          exact .inr rfl
        · next z hz =>
          split at h
          · cases h
            exact .inr rfl
          · cases h
            exact .inl hz
      obtain hmem | rfl := hkeep
      · exact (ih hmem).imp id (List.mem_append_left _)
      · exact .inr (List.mem_append_right _ List.mem_cons_self)

/-- Only the empty list has no newest element. -/
theorem newest_eq_none : newest key l = none ↔ l = [] := by
  constructor
  · intro h
    induction l using List.reverseRecOn with
    | nil => rfl
    | append_singleton l x _ =>
        rw [newest_concat] at h
        have hsome := @keep_isSome _ _ _ key x (newest key l)
        rw [h] at hsome
        contradiction
  · rintro rfl
    rfl

/-- The newest element is one of the list. -/
theorem IsNewest.mem (h : IsNewest key l x) : x ∈ l := by
  obtain ⟨pre, post, rfl, -, -⟩ := h
  simp

/-- No element has a later key. -/
theorem IsNewest.le (h : IsNewest key l x) (hy : y ∈ l) : key y ≤ key x := by
  obtain ⟨pre, post, rfl, hpre, hpost⟩ := h
  obtain hy | hy := List.mem_append.mp hy
  · exact hpre y hy
  · obtain rfl | hy := List.mem_cons.mp hy
    · exact le_rfl
    · exact (hpost y hy).le

/-- What the pass holds is the newest element so far. -/
theorem isNewest_newest (h : newest key l = some x) : IsNewest key l x := by
  induction l using List.reverseRecOn generalizing x with
  | nil => contradiction
  | append_singleton l z ih =>
      rw [newest_concat] at h
      cases hl : newest key l with
      | none =>
          rw [hl] at h
          cases h
          rw [newest_eq_none.mp hl]
          exact ⟨[], [], rfl, nofun, nofun⟩
      | some y =>
          have hy := ih hl
          rw [hl] at h
          simp only [keep] at h
          split at h
          · next hle =>
            cases h
            refine ⟨l, [], rfl, fun a ha => (hy.le ha).trans hle, nofun⟩
          · next hlt =>
            cases h
            obtain ⟨pre, post, rfl, hpre, hpost⟩ := hy
            refine ⟨pre, post ++ [z], by simp, hpre, ?_⟩
            intro a ha
            obtain ha | ha := List.mem_append.mp ha
            · exact hpost a ha
            · rw [List.mem_singleton.mp ha]
              exact not_le.mp hlt

/-- Reading on never moves back. -/
theorem newest_mono (h : newest key l = some x) (h' : newest key (l ++ l') = some y) :
    key x ≤ key y :=
  (isNewest_newest h').le (List.mem_append_left _ (isNewest_newest h).mem)

end Newest
