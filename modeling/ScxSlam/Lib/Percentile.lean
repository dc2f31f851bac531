import Mathlib.Data.List.Sort

/-!
# ScxSlam.Lib.Percentile

Nearest ranks.  The value at rank `r` of a list is the one that at least `r`
entries do not exceed, while fewer than `r` entries do not exceed any smaller
one.  There is one such value at most, a reordering keeps it, and it is what
stands at index `r - 1` of the sorted list, however often it occurs.
-/

namespace Percentile

variable {α : Type*} [LinearOrder α] {l l' : List α} {u v : α} {r : Nat}

/-- `v` is the value at rank `r` of `l`. -/
structure AtRank (l : List α) (r : Nat) (v : α) : Prop where
  mem : v ∈ l
  enough : r ≤ l.countP (· ≤ v)
  fewer : ∀ u ∈ l, u < v → l.countP (· ≤ u) < r

/-- There is one value at a rank. -/
theorem AtRank.unique (hu : AtRank l r u) (hv : AtRank l r v) : u = v := by
  obtain hlt | heq | hlt := lt_trichotomy u v
  · have hfewer := hv.fewer u hu.mem hlt
    have henough := hu.enough
    omega
  · exact heq
  · have hfewer := hu.fewer v hv.mem hlt
    have henough := hv.enough
    omega

/-- The order of the values does not matter. -/
theorem AtRank.perm (h : AtRank l r v) (hperm : l.Perm l') : AtRank l' r v := by
  constructor
  · exact hperm.mem_iff.mp h.mem
  · rw [← hperm.countP_eq]
    exact h.enough
  · intro u hu hlt
    rw [← hperm.countP_eq]
    exact h.fewer u (hperm.mem_iff.mpr hu) hlt

/-- What stands at an index of a sorted list has the next rank. -/
theorem atRank_of_sorted (hsorted : l.Pairwise (· ≤ ·)) {i : Nat} (hi : i < l.length) :
    AtRank l (i + 1) l[i] := by
  have hle := List.pairwise_iff_getElem.mp hsorted
  constructor
  · exact List.getElem_mem hi
  · -- the entries up to the index are not above it
    have hbelow : (l.take (i + 1)).countP (· ≤ l[i]) = (l.take (i + 1)).length := by
      refine List.countP_eq_length.mpr fun x hx => ?_
      obtain ⟨j, hj, rfl⟩ := List.mem_take_iff_getElem.mp hx
      have hji : j ≤ i := by omega
      obtain rfl | hji := Nat.eq_or_lt_of_le hji
      · exact decide_eq_true le_rfl
      · exact decide_eq_true (hle j i (by omega) hi hji)
    have hprefix := (List.take_prefix (i + 1) l).countP_le (p := (· ≤ l[i]))
    rw [hbelow, List.length_take] at hprefix
    omega
  · -- and from the index on, none is below it
    intro u _ hlt
    have habove : (l.drop i).countP (· ≤ u) = 0 := by
      refine List.countP_eq_zero.mpr fun x hx => ?_
      obtain ⟨j, hj, rfl⟩ := List.mem_drop_iff_getElem.mp hx
      obtain rfl | hj0 := Nat.eq_zero_or_pos j
      · simpa using hlt
      · have hge := hle i (i + j) hi (by omega) (by omega)
        simpa using lt_of_lt_of_le hlt hge
    have hsplit : l.countP (· ≤ u) = (l.take i).countP (· ≤ u) + (l.drop i).countP (· ≤ u) := by
      rw [← List.countP_append, List.take_append_drop]
    have hlen := (l.take i).countP_le_length (p := (· ≤ u))
    rw [List.length_take] at hlen
    omega

/-- The value at a rank, read off the sorted list. -/
theorem atRank_insertionSort {i : Nat} (hi : i < l.length) (d : α) :
    AtRank l (i + 1) ((l.insertionSort (· ≤ ·)).getD i d) := by
  have hsorted : i < (l.insertionSort (· ≤ ·)).length := by
    rw [List.length_insertionSort]
    exact hi
  rw [List.getD_eq_getElem?_getD, List.getElem?_eq_getElem hsorted, Option.getD_some]
  exact (atRank_of_sorted (List.pairwise_insertionSort _ l) hsorted).perm
    (List.perm_insertionSort _ l)

/-! ## percentages -/

/-- `v` is the nearest-rank `p`-th percentile of `l`: `p` percent of the
entries do not exceed it, which no smaller entry has. -/
structure Nearest (p : Nat) (l : List α) (v : α) : Prop where
  mem : v ∈ l
  enough : p * l.length ≤ 100 * l.countP (· ≤ v)
  fewer : ∀ u ∈ l, u < v → 100 * l.countP (· ≤ u) < p * l.length

/-- The rank of a percentile is the percentage, rounded up. -/
theorem AtRank.nearest {p : Nat} (h : AtRank l r v) (hlow : p * l.length ≤ 100 * r)
    (hhigh : 100 * r < p * l.length + 100) : Nearest p l v := by
  constructor
  · exact h.mem
  · have henough := h.enough
    omega
  · intro u hu hlt
    have hfewer := h.fewer u hu hlt
    omega

end Percentile
