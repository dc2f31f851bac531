import Mathlib.Algebra.Ring.Int.Defs
import Mathlib.Order.Lattice
import Mathlib.Order.Defs.LinearOrder
import Mathlib.Order.MinMax
import Mathlib.Data.List.Basic

/-!
# ScxSlam.Lib.Tiling

Tagged half-open spans that follow each other without a gap.

A list of spans tiles `[a, b)` when the first starts at `a`, each starts where
the one before it ends, and the last ends at `b`.  Clipping a tiling to one of
its parts tiles the part, and so does cutting every span of one tiling by
another.  `sweep` is the usual way to compute the latter: both lists are read
once, from left to right.
-/

namespace ScxSlam.Tiling

variable {α β γ : Type}

/-- `[lo, hi)` with a tag. -/
@[ext] structure Span (α β : Type) where
  lo : α
  hi : α
  tag : β
  deriving DecidableEq, Repr

section Order

variable [LinearOrder α] {a b c t : α} {l l' : List (Span α β)} {r : List (Span α γ)}

/-- The common part of two spans. -/
def Span.meet (s : Span α β) (s' : Span α γ) : Option (Span α (β × γ)) :=
  if max s.lo s'.lo < min s.hi s'.hi then
    some { lo := max s.lo s'.lo, hi := min s.hi s'.hi, tag := (s.tag, s'.tag) }
  else none

/-- `l` tiles `[a, b)`. -/
def Tiles : α → List (Span α β) → α → Prop
  | a, [], b => a = b
  | a, s :: l, b => s.lo = a ∧ s.lo ≤ s.hi ∧ Tiles s.hi l b

@[simp] theorem tiles_nil : Tiles a ([] : List (Span α β)) b ↔ a = b := Iff.rfl

@[simp] theorem tiles_cons {s : Span α β} :
    Tiles a (s :: l) b ↔ s.lo = a ∧ s.lo ≤ s.hi ∧ Tiles s.hi l b := Iff.rfl

/-! ## meets -/

/-- Two spans meet between the later start and the earlier end. -/
theorem Span.meet_eq_some {s : Span α β} {s' : Span α γ} {m : Span α (β × γ)} :
    s.meet s' = some m ↔ m.lo = max s.lo s'.lo ∧ m.hi = min s.hi s'.hi ∧ m.tag = (s.tag, s'.tag) ∧
      m.lo < m.hi := by
  unfold Span.meet
  split
  · next h =>
    constructor
    · intro heq
      cases heq
      exact ⟨rfl, rfl, rfl, h⟩
    · rintro ⟨hlo, hhi, htag, -⟩
      exact congrArg some (Span.ext hlo.symm hhi.symm htag.symm)
  · next h =>
    constructor
    · nofun
    · rintro ⟨hlo, hhi, -, hlt⟩
      exact absurd (hlo ▸ hhi ▸ hlt) h

/-- Spans meet within both of them. -/
theorem Span.meet_le {s : Span α β} {s' : Span α γ} {m : Span α (β × γ)} (h : s.meet s' = some m) :
    (s.lo ≤ m.lo ∧ m.hi ≤ s.hi) ∧ s'.lo ≤ m.lo ∧ m.hi ≤ s'.hi := by
  obtain ⟨hlo, hhi, -, -⟩ := Span.meet_eq_some.mp h
  rw [hlo, hhi]
  exact ⟨⟨le_max_left .., min_le_left ..⟩, le_max_right .., min_le_right ..⟩

/-- Spans that do not overlap do not meet. -/
theorem Span.meet_eq_none {s : Span α β} {s' : Span α γ} (h : s.hi ≤ s'.lo ∨ s'.hi ≤ s.lo) :
    s.meet s' = none := by
  refine if_neg fun hlt => ?_
  obtain h | h := h
  · exact absurd (lt_of_le_of_lt (le_max_right ..) (lt_of_lt_of_le hlt (min_le_left ..))) h.not_gt
  · exact absurd (lt_of_le_of_lt (le_max_left ..) (lt_of_lt_of_le hlt (min_le_right ..))) h.not_gt

/-! ## tilings -/

/-- A tiling does not go back. -/
theorem Tiles.le (h : Tiles a l b) : a ≤ b := by
  induction l generalizing a with
  | nil => exact le_of_eq h
  | cons s l ih =>
      obtain ⟨rfl, hle, h⟩ := h
      exact hle.trans (ih h)

/-- Two tilings in a row. -/
theorem Tiles.append (h : Tiles a l b) (h' : Tiles b l' c) : Tiles a (l ++ l') c := by
  induction l generalizing a with
  | nil =>
      cases h
      exact h'
  | cons s l ih =>
      obtain ⟨hlo, hle, h⟩ := h
      exact ⟨hlo, hle, ih h⟩

/-- A tiling and one more span. -/
theorem Tiles.concat {s : Span α β} (h : Tiles a l s.lo) (hle : s.lo ≤ s.hi) :
    Tiles a (l ++ [s]) s.hi :=
  h.append ⟨rfl, hle, rfl⟩

/-- Every span is within the tiling. -/
theorem Tiles.mem (h : Tiles a l b) {s : Span α β} (hs : s ∈ l) :
    a ≤ s.lo ∧ s.lo ≤ s.hi ∧ s.hi ≤ b := by
  induction l generalizing a with
  | nil => contradiction
  | cons s' l ih =>
      obtain ⟨rfl, hle, h⟩ := h
      obtain rfl | hs := List.mem_cons.mp hs
      · exact ⟨le_rfl, hle, h.le⟩
      · obtain ⟨h1, h2, h3⟩ := ih h hs
        exact ⟨hle.trans h1, h2, h3⟩

/-- The spans of a tiling are ordered and disjoint. -/
theorem Tiles.pairwise (h : Tiles a l b) : l.Pairwise (fun s s' => s.hi ≤ s'.lo) := by
  induction l generalizing a with
  | nil => exact .nil
  | cons s l ih =>
      obtain ⟨-, -, h⟩ := h
      exact List.pairwise_cons.mpr ⟨fun s' hs' => (h.mem hs').1, ih h⟩

/-- Spans start in their order. -/
theorem Tiles.pairwise_lo (h : Tiles a l b) : l.Pairwise (fun s s' => s.lo ≤ s'.lo) :=
  h.pairwise.imp_of_mem fun hs _ hle => (h.mem hs).2.1.trans hle

/-- A tiling covers its interval exactly. -/
theorem Tiles.cover (h : Tiles a l b) : (a ≤ t ∧ t < b) ↔ ∃ s ∈ l, s.lo ≤ t ∧ t < s.hi := by
  induction l generalizing a with
  | nil =>
      cases h
      simp
  | cons s l ih =>
      obtain ⟨rfl, hle, h⟩ := h
      have hend := h.le
      simp only [List.mem_cons, exists_eq_or_imp, ← ih h]
      constructor
      · rintro ⟨hlo, hhi⟩
        obtain hlt | hge := lt_or_ge t s.hi
        · exact .inl ⟨hlo, hlt⟩
        · exact .inr ⟨hge, hhi⟩
      · rintro (⟨hlo, hhi⟩ | ⟨hlo, hhi⟩)
        · exact ⟨hlo, hhi.trans_le hend⟩
        · exact ⟨hle.trans hlo, hhi⟩

/-- Tilings of the spans of a tiling make a tiling. -/
theorem Tiles.flatMap {f : Span α β → List (Span α γ)} (h : Tiles a l b)
    (hf : ∀ s ∈ l, Tiles s.lo (f s) s.hi) : Tiles a (l.flatMap f) b := by
  induction l generalizing a with
  | nil => exact h
  | cons s l ih =>
      obtain ⟨rfl, -, h⟩ := h
      rw [List.flatMap_cons]
      exact (hf s (List.mem_cons_self ..)).append <|
        ih h fun s' hs' => hf s' (List.mem_cons_of_mem _ hs')

/-- Clamping keeps the order. -/
theorem clamp_le_of_le {lo hi x y : α} (h : x ≤ y) : max lo (min hi x) ≤ max lo (min hi y) :=
  max_le_max le_rfl (min_le_min le_rfl h)

/-- Cutting a tiling by a span tiles the part they share. -/
theorem Tiles.clamp {s : Span α γ} (h : Tiles a l b) :
    Tiles (max s.lo (min s.hi a)) (l.filterMap s.meet) (max s.lo (min s.hi b)) := by
  induction l generalizing a with
  | nil => exact congrArg (fun x => max s.lo (min s.hi x)) h
  | cons x l ih =>
      obtain ⟨rfl, hle, h⟩ := h
      have hrest := ih h
      rw [List.filterMap_cons]
      split
      · next hnone =>
        have hge : min s.hi x.hi ≤ max s.lo x.lo := by
          by_contra hlt
          simp [Span.meet, not_le.mp hlt] at hnone
        have heq : max s.lo (min s.hi x.lo) = max s.lo (min s.hi x.hi) := by
          refine le_antisymm (clamp_le_of_le hle) (max_le (le_max_left ..) ?_)
          obtain hx | hx := le_total x.lo s.lo
          · rw [max_eq_left hx] at hge
            exact hge.trans (le_max_left ..)
          · rw [max_eq_right hx] at hge
            exact (le_min (min_le_left ..) hge).trans (le_max_right ..)
        rw [heq]
        exact hrest
      · next m hm =>
        obtain ⟨hlo, hhi, -, hlt⟩ := Span.meet_eq_some.mp hm
        have hlt' : max s.lo x.lo < min s.hi x.hi := hlo ▸ hhi ▸ hlt
        have h1 : s.lo ≤ min s.hi x.hi := (le_max_left ..).trans hlt'.le
        have h2 : x.lo ≤ s.hi := ((le_max_right ..).trans hlt'.le).trans (min_le_left ..)
        refine ⟨?_, hlt.le, ?_⟩
        · rw [hlo, min_eq_right h2]
        · rw [hhi]
          rwa [max_eq_right h1] at hrest

/-- Cutting a tiling by a part of it tiles the part. -/
theorem Tiles.clip {s : Span α γ} (hs : s.lo ≤ s.hi) (h : Tiles a l b) (ha : a ≤ s.lo)
    (hb : s.hi ≤ b) : Tiles s.lo (l.filterMap s.meet) s.hi := by
  have hclamp := h.clamp (s := s)
  rwa [max_eq_left ((min_le_right ..).trans ha), min_eq_left hb, max_eq_right hs] at hclamp

/-! ## cutting off the end -/

/-- Up to `e`, `l` is `c` and then a span from `lo` on that reaches `e`. -/
def Until (e : α) (c : List (Span α β)) (lo : α) (tag : β) (l : List (Span α β)) : Prop :=
  ∃ hi r, l = c ++ ⟨lo, hi, tag⟩ :: r ∧ e ≤ hi ∧ ∀ x ∈ r, e ≤ x.lo

/-- What comes after `e` is cut off by a span that ends there. -/
theorem Until.filterMap_meet {e lo : α} {tag : β} {w : Span α γ} (h : Until e l lo tag l')
    (hw : w.hi ≤ e) :
    l'.filterMap w.meet = (l ++ [({ lo := lo, hi := e, tag := tag } : Span α β)]).filterMap
      w.meet := by
  obtain ⟨hi, r, rfl, hhi, hr⟩ := h
  have hlast : w.meet ⟨lo, hi, tag⟩ = w.meet ⟨lo, e, tag⟩ := by
    unfold Span.meet
    dsimp only
    rw [min_eq_left (hw.trans hhi), min_eq_left hw]
  have hrest : r.filterMap w.meet = [] :=
    List.filterMap_eq_nil_iff.mpr fun x hx => Span.meet_eq_none (.inl (hw.trans (hr x hx)))
  rw [List.filterMap_append, List.filterMap_append, List.filterMap_cons, List.filterMap_cons,
    hlast, hrest, List.filterMap_nil]

/-! ## the sweep -/

/-- The meets of two tilings, in one pass over both. -/
def sweep : List (Span α β) → List (Span α γ) → List (Span α (β × γ))
  | [], _ => []
  | s :: l, r =>
      let r := r.dropWhile (·.hi ≤ s.lo)
      (r.takeWhile (·.lo < s.hi)).filterMap s.meet ++ sweep l r

/-- Elements that map to nothing may be dropped. -/
theorem filterMap_dropWhile {δ ε : Type} {p : δ → Bool} {f : δ → Option ε} (l : List δ)
    (h : ∀ x ∈ l, p x = true → f x = none) : (l.dropWhile p).filterMap f = l.filterMap f := by
  induction l with
  | nil => rfl
  | cons x l ih =>
      have hl := ih fun y hy => h y (List.mem_cons_of_mem _ hy)
      cases hx : p x with
      | true =>
          rw [List.dropWhile_cons_of_pos hx, hl,
            List.filterMap_cons_none (h x (List.mem_cons_self ..) hx)]
      | false => rw [List.dropWhile_cons_of_neg (by simp [hx])]

/-- Past a span's end nothing meets it. -/
theorem filterMap_takeWhile_meet {s : Span α β} (hr : r.Pairwise (fun x y => x.lo ≤ y.lo)) :
    (r.takeWhile (·.lo < s.hi)).filterMap s.meet = r.filterMap s.meet := by
  induction r with
  | nil => rfl
  | cons x r ih =>
      obtain ⟨hx, hr⟩ := List.pairwise_cons.mp hr
      by_cases hlt : x.lo < s.hi
      · rw [List.takeWhile_cons_of_pos (by simpa using hlt), List.filterMap_cons,
          List.filterMap_cons, ih hr]
      · have hnone : ∀ y ∈ x :: r, s.meet y = none := by
          intro y hy
          refine Span.meet_eq_none (.inl ((not_lt.mp hlt).trans ?_))
          obtain rfl | hy := List.mem_cons.mp hy
          · exact le_rfl
          · exact hx y hy
        rw [List.takeWhile_cons_of_neg (by simpa using hlt), List.filterMap_nil,
          List.filterMap_eq_nil_iff.mpr hnone]

/-- **The sweep misses nothing**: it lists the meets of all pairs. -/
theorem sweep_eq (hl : l.Pairwise (fun s s' => s.lo ≤ s'.lo))
    (hr : r.Pairwise (fun x y => x.lo ≤ y.lo)) :
    sweep l r = l.flatMap fun s => r.filterMap s.meet := by
  induction l generalizing r with
  | nil => rfl
  | cons s l ih =>
      obtain ⟨hs, hl⟩ := List.pairwise_cons.mp hl
      have hdrop : ∀ s' ∈ s :: l,
          (r.dropWhile (·.hi ≤ s.lo)).filterMap s'.meet = r.filterMap s'.meet := by
        intro s' hs'
        refine filterMap_dropWhile r fun x _ hx => Span.meet_eq_none (.inr ?_)
        have hx : x.hi ≤ s.lo := by simpa using hx
        obtain rfl | hs' := List.mem_cons.mp hs'
        · exact hx
        · exact hx.trans (hs s' hs')
      have hr' := hr.sublist (List.dropWhile_sublist (fun x => decide (x.hi ≤ s.lo)))
      rw [sweep, List.flatMap_cons, filterMap_takeWhile_meet hr', hdrop s (List.mem_cons_self ..),
        ih hl hr']
      exact congrArg _ (List.flatMap_congr fun s' hs' => hdrop s' (List.mem_cons_of_mem _ hs'))

end Order

/-! ## lengths -/

/-- The lengths of a tiling add up. -/
theorem Tiles.sum {a b : Int} {l : List (Span Int β)} (h : Tiles a l b) :
    (l.map fun s => s.hi - s.lo).sum = b - a := by
  induction l generalizing a with
  | nil =>
      cases h
      simp
  | cons s l ih =>
      obtain ⟨rfl, -, h⟩ := h
      rw [List.map_cons, List.sum_cons, ih h]
      omega

end ScxSlam.Tiling
