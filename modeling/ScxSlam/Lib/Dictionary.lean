import Mathlib.Data.List.Nodup
import Mathlib.Data.List.Perm.Subperm

/-!
# ScxSlam.Lib.Dictionary

Dictionaries as lists of pairs: what is found under a key, and assignment.

A list of pairs is a dictionary where its keys are distinct, and assignment
keeps them so.
-/

/-- A dictionary, its keys in the order in which they were first set. -/
abbrev Dictionary (κ α : Type*) := List (κ × α)

namespace Dictionary

variable {κ α : Type*}

def keys (d : Dictionary κ α) : List κ := d.map Prod.fst

variable [DecidableEq κ]

/-- `d[k]`; `none` where there is no such key. -/
def get? (d : Dictionary κ α) (k : κ) : Option α := d.lookup k

/-- `d.get(k, 0)`. -/
def get (d : Dictionary κ Nat) (k : κ) : Nat := (d.get? k).getD 0

/-- `keys <= d.keys()`. -/
def hasKeys (keys : List κ) (d : Dictionary κ α) : Bool := keys.all fun k => (d.get? k).isSome

/-- `d[k] = v`. -/
def set : Dictionary κ α → κ → α → Dictionary κ α
  | [], k, v => [(k, v)]
  | p :: d, k, v => if p.1 = k then (k, v) :: d else p :: set d k v

/-- `dict(pairs)`. -/
def ofPairs (pairs : List (κ × α)) : Dictionary κ α := pairs.foldl (fun d p => d.set p.1 p.2) []

/-- `d.pop(k)`, without the value. -/
def drop (d : Dictionary κ α) (k : κ) : Dictionary κ α := d.filter fun p => decide (p.1 ≠ k)

/-- `==` of two dictionaries. -/
def same [BEq α] (d d' : Dictionary κ α) : Bool :=
  d.length == d'.length && d.all fun p => d'.get? p.1 == some p.2

variable {d d' : Dictionary κ α} {pairs : List (κ × α)} {p : κ × α} {k k' : κ} {v : α}

/-! ## what is found -/

@[simp] theorem get?_nil : get? ([] : Dictionary κ α) k = none := rfl

@[simp] theorem get?_cons : get? (p :: d) k = if p.1 = k then some p.2 else d.get? k := by
  rw [get?, List.lookup_cons]
  by_cases hk : p.1 = k
  · subst hk
    rw [beq_self_eq_true, if_pos rfl]
  · rw [beq_eq_false_iff_ne.mpr (Ne.symm hk), if_neg hk]
    rfl

/-- The first dictionary has precedence. -/
theorem get?_append : get? (d ++ d') k = (d.get? k).or (d'.get? k) := List.lookup_append

/-- Values that are changed each under its key. -/
theorem get?_map {β : Type*} (f : κ → α → β) :
    get? (d.map fun p => (p.1, f p.1 p.2)) k = (d.get? k).map (f k) := by
  induction d with
  | nil => rfl
  | cons p d ih =>
      rw [List.map_cons, get?_cons, get?_cons]
      by_cases hk : p.1 = k
      · rw [if_pos hk, if_pos hk, hk, Option.map_some]
      · rw [if_neg hk, if_neg hk, ih]

/-- What is found is in the dictionary. -/
theorem mem_of_get? (h : d.get? k = some v) : (k, v) ∈ d := by
  obtain ⟨before, after, rfl, -⟩ := List.lookup_eq_some_iff.mp h
  exact List.mem_append_right _ List.mem_cons_self

/-- A key is found if it is one of the keys. -/
theorem isSome_get?_iff : (d.get? k).isSome = true ↔ k ∈ d.keys := by
  induction d with
  | nil => simp [keys]
  | cons p d ih =>
      rw [get?_cons, keys, List.map_cons, List.mem_cons]
      by_cases hp : p.1 = k
      · exact iff_of_true (by rw [if_pos hp]; rfl) (.inl hp.symm)
      · rw [if_neg hp, ih]
        exact ⟨.inr, fun hk => hk.resolve_left (Ne.symm hp)⟩

/-- A key that is not there is not found. -/
theorem get?_of_not_mem (h : k ∉ d.keys) : d.get? k = none :=
  Option.not_isSome_iff_eq_none.mp (isSome_get?_iff.not.mpr h)

/-- Where keys are distinct, each pair is found. -/
theorem get?_of_mem (h : d.keys.Nodup) (hmem : (k, v) ∈ d) : d.get? k = some v := by
  induction d with
  | nil => exact absurd hmem List.not_mem_nil
  | cons p d ih =>
      obtain ⟨hnotin, hrest⟩ := List.nodup_cons.mp h
      rw [get?_cons]
      obtain rfl | hmem := List.mem_cons.mp hmem
      · exact if_pos rfl
      · have hne : p.1 ≠ k := fun heq => hnotin (heq ▸ List.mem_map.mpr ⟨(k, v), hmem, rfl⟩)
        rw [if_neg hne]
        exact ih hrest hmem

/-! ## assignment -/

/-- Assigning to a key leaves the others alone. -/
theorem get?_set_of_ne (h : k' ≠ k) : (d.set k v).get? k' = d.get? k' := by
  induction d with
  | nil => rw [set, get?_cons, if_neg (Ne.symm h)]
  | cons p d ih =>
      rw [set]
      split
      · next hp => rw [get?_cons, get?_cons, hp, if_neg (Ne.symm h), if_neg (Ne.symm h)]
      · rw [get?_cons, get?_cons, ih]

/-- A new key comes last. -/
theorem set_of_not_mem (h : k ∉ d.keys) : d.set k v = d ++ [(k, v)] := by
  induction d with
  | nil => rfl
  | cons p d ih =>
      obtain ⟨hne, hrest⟩ := not_or.mp (List.mem_cons.not.mp h)
      rw [set, if_neg (Ne.symm hne), ih hrest, List.cons_append]

/-- Setting adds a key at most. -/
theorem mem_keys_set : k' ∈ (d.set k v).keys ↔ k' = k ∨ k' ∈ d.keys := by
  induction d with
  | nil => simp [set, keys]
  | cons p d ih =>
      rw [set]
      split
      · next hp => simp [keys, hp]
      · simp only [keys, List.map_cons, List.mem_cons] at ih ⊢
        rw [ih]
        exact or_left_comm

/-- Distinct keys stay distinct. -/
theorem nodup_set (h : d.keys.Nodup) : (d.set k v).keys.Nodup := by
  induction d with
  | nil => exact List.nodup_singleton k
  | cons p d ih =>
      obtain ⟨hnotin, hrest⟩ := List.nodup_cons.mp h
      rw [set]
      split
      · next hp => exact List.nodup_cons.mpr ⟨hp ▸ hnotin, hrest⟩
      · next hp =>
        refine List.nodup_cons.mpr ⟨fun hmem => ?_, ih hrest⟩
        exact (mem_keys_set.mp hmem).elim hp hnotin

/-- A dictionary built of pairs has each key once. -/
theorem nodup_ofPairs (pairs : List (κ × α)) : (ofPairs pairs).keys.Nodup := by
  have hfold : ∀ d : Dictionary κ α, d.keys.Nodup →
      (keys (pairs.foldl (fun d p => d.set p.1 p.2) d)).Nodup := by
    induction pairs with
    | nil => exact fun d h => h
    | cons p pairs ih => exact fun d h => ih (d.set p.1 p.2) (nodup_set h)
  exact hfold [] List.nodup_nil

/-- Pairs with different new keys are appended. -/
theorem foldl_set (h : (keys (d ++ pairs)).Nodup) :
    pairs.foldl (fun d p => d.set p.1 p.2) d = d ++ pairs := by
  induction pairs generalizing d with
  | nil => rw [List.foldl_nil, List.append_nil]
  | cons p pairs ih =>
      have hp : p.1 ∉ d.keys := by
        rw [keys, List.map_append, List.map_cons] at h
        exact fun hmem => (List.nodup_append.mp h).2.2 _ hmem _ List.mem_cons_self rfl
      rw [List.foldl_cons, set_of_not_mem hp, ih (by simpa using h), List.append_assoc,
        List.singleton_append]

/-- Pairs with distinct keys are a dictionary as they are. -/
theorem ofPairs_of_nodup (h : (keys pairs).Nodup) : ofPairs pairs = pairs := by
  rw [ofPairs, foldl_set (by simpa using h), List.nil_append]

/-! ## comparison -/

section Same

variable [BEq α] [LawfulBEq α]

/-- A dictionary is the same as itself. -/
theorem same_self (h : d.keys.Nodup) : d.same d = true := by
  unfold same
  rw [beq_self_eq_true, Bool.true_and]
  exact List.all_eq_true.mpr fun p hp => beq_iff_eq.mpr (get?_of_mem h hp)

/-- Equal dictionaries have the same keys. -/
theorem isSome_get?_of_same (hnodup : d.keys.Nodup) (h : d.same d' = true)
    (hk : (d'.get? k).isSome = true) : (d.get? k).isSome = true := by
  obtain ⟨hlength, hall⟩ := Bool.and_eq_true_iff.mp h
  have hsub : d.keys ⊆ d'.keys := by
    intro key hkey
    obtain ⟨p, hp, rfl⟩ := List.mem_map.mp hkey
    have hfound := eq_of_beq (List.all_eq_true.mp hall p hp)
    exact isSome_get?_iff.mp (by rw [hfound]; rfl)
  have hperm : d.keys.Perm d'.keys := by
    refine (List.subperm_of_subset hnodup hsub).perm_of_length_le ?_
    rw [keys, keys, List.length_map, List.length_map]
    exact Nat.le_of_eq (eq_of_beq hlength).symm
  exact isSome_get?_iff.mpr (hperm.mem_iff.mpr (isSome_get?_iff.mp hk))

end Same

end Dictionary
