import Mathlib.Data.List.Sort

/-!
# ScxSlam.Lib.Stable

Stable sorting by a key.  The sorted list is made of the elements of each key
in the order in which they came, so it does not depend on how those of
different keys were interleaved.
-/

namespace Stable

variable {α κ : Type*} [LinearOrder κ] {key : α → κ} {l l' : List α}

/-- `sort(key=key)`. -/
def sort (key : α → κ) (l : List α) : List α := l.insertionSort (key · ≤ key ·)

/-- Sorting loses nothing. -/
theorem perm_sort (key : α → κ) (l : List α) : (sort key l).Perm l := List.perm_insertionSort _ l

/-- Sorting adds nothing. -/
theorem mem_sort {a : α} : a ∈ sort key l ↔ a ∈ l := (perm_sort key l).mem_iff

/-- The keys are in order. -/
theorem pairwise_sort (key : α → κ) (l : List α) : (sort key l).Pairwise (key · ≤ key ·) := by
  have : Std.Total (α := α) (key · ≤ key ·) := ⟨fun a b => le_total (key a) (key b)⟩
  have : IsTrans α (key · ≤ key ·) := ⟨fun a b c => le_trans (a := key a)⟩
  exact List.pairwise_insertionSort _ l

/-- An element goes in front of those of its key, and between those of others. -/
theorem filter_orderedInsert (a : α) (l : List α) (k : κ) :
    (l.orderedInsert (key · ≤ key ·) a).filter (key · = k) =
      (a :: l).filter (key · = k) := by
  induction l with
  | nil => rfl
  | cons b l ih =>
      rw [List.orderedInsert]
      split
      · rfl
      · next hlt =>
        rw [List.filter_cons, ih, List.filter_cons, List.filter_cons (x := a),
          List.filter_cons (x := b)]
        by_cases ha : key a = k
        · have hb : key b ≠ k := fun hb => hlt (by rw [ha, hb])
          simp [ha, hb]
        · simp [ha]

/-- **Stability**: those of one key keep their order. -/
theorem filter_sort (l : List α) (k : κ) :
    (sort key l).filter (key · = k) = l.filter (key · = k) := by
  induction l with
  | nil => rfl
  | cons a l ih =>
      rw [sort, List.insertionSort_cons, filter_orderedInsert, List.filter_cons, List.filter_cons]
      rw [sort] at ih
      rw [ih]

/-- Sorted lists that agree on each key are equal. -/
theorem eq_of_filter (h : l.Pairwise (key · ≤ key ·)) (h' : l'.Pairwise (key · ≤ key ·))
    (hfilter : ∀ k, l.filter (key · = k) = l'.filter (key · = k)) : l = l' := by
  have hmem : ∀ {a}, a ∈ l ↔ a ∈ l' := by
    intro a
    have := congrArg (a ∈ ·) (hfilter (key a))
    simpa using this
  induction l generalizing l' with
  | nil =>
      cases l' with
      | nil => rfl
      | cons b l' => exact absurd (hmem.mpr List.mem_cons_self) (by simp)
  | cons a l ih =>
      cases l' with
      | nil => exact absurd (hmem.mp List.mem_cons_self) (by simp)
      | cons b l' =>
          have hle : ∀ c ∈ a :: l, key a ≤ key c := by
            rintro c hc
            obtain rfl | hc := List.mem_cons.mp hc
            · exact le_refl _
            · exact (List.pairwise_cons.mp h).1 c hc
          have hle' : ∀ c ∈ b :: l', key b ≤ key c := by
            rintro c hc
            obtain rfl | hc := List.mem_cons.mp hc
            · exact le_refl _
            · exact (List.pairwise_cons.mp h').1 c hc
          have hkey : key a = key b :=
            le_antisymm (hle b (hmem.mpr List.mem_cons_self)) (hle' a (hmem.mp List.mem_cons_self))
          have hhead := hfilter (key a)
          rw [List.filter_cons_of_pos (by simp), List.filter_cons_of_pos (by simp [hkey])] at hhead
          obtain ⟨rfl, -⟩ := List.cons.inj hhead
          have htail : ∀ k, l.filter (key · = k) = l'.filter (key · = k) := by
            intro k
            have := hfilter k
            by_cases hk : key a = k
            · rw [List.filter_cons_of_pos (by simp [hk]),
                List.filter_cons_of_pos (by simp [hk])] at this
              exact (List.cons.inj this).2
            · rwa [List.filter_cons_of_neg (by simp [hk]),
                List.filter_cons_of_neg (by simp [hk])] at this
          congr 1
          refine ih (List.pairwise_cons.mp h).2 (List.pairwise_cons.mp h').2 htail ?_
          intro c
          have := congrArg (c ∈ ·) (htail (key c))
          simpa using this

/-- Lists agree on each key if they do on those that they have. -/
theorem filter_eq_of_mem
    (h : ∀ a ∈ l ++ l', l.filter (key · = key a) = l'.filter (key · = key a)) (k : κ) :
    l.filter (key · = k) = l'.filter (key · = k) := by
  by_cases hk : ∃ a ∈ l ++ l', key a = k
  · obtain ⟨a, ha, rfl⟩ := hk
    exact h a ha
  · simp only [List.mem_append, not_exists, not_and] at hk
    rw [List.filter_eq_nil_iff.mpr fun a ha => by simpa using hk a (.inl ha),
      List.filter_eq_nil_iff.mpr fun a ha => by simpa using hk a (.inr ha)]

/-- **Interleaving**: only the order within each key counts. -/
theorem sort_eq_of_filter (h : ∀ k, l.filter (key · = k) = l'.filter (key · = k)) :
    sort key l = sort key l' :=
  eq_of_filter (pairwise_sort key l) (pairwise_sort key l') fun k => by
    rw [filter_sort, filter_sort, h k]

end Stable
