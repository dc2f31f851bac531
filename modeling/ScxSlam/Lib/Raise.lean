import Mathlib.Data.List.Forall2

/-!
# ScxSlam.Lib.Raise

Computations that raise: what is known of the parts of one that has returned.
-/

namespace Raise

variable {ε α β : Type}

/-- A sequence returns if both of its parts do. -/
theorem bind_eq_ok {x : Except ε α} {f : α → Except ε β} {b : β} :
    x >>= f = .ok b ↔ ∃ a, x = .ok a ∧ f a = .ok b := by
  cases x with
  | error e => exact iff_of_false nofun (by rintro ⟨a, ha, -⟩; contradiction)
  | ok a => exact ⟨fun h => ⟨a, rfl, h⟩, by rintro ⟨a', ha, h⟩; cases ha; exact h⟩

/-- A computation returns if what it starts with does and the rest does on it. -/
theorem exists_bind {x : Except ε α} {f : α → Except ε β} (hx : ∃ a, x = .ok a)
    (hf : ∀ a, x = .ok a → ∃ b, f a = .ok b) : ∃ b, x >>= f = .ok b := by
  obtain ⟨a, ha⟩ := hx
  obtain ⟨b, hb⟩ := hf a ha
  exact ⟨b, bind_eq_ok.mpr ⟨a, ha, hb⟩⟩

/-- `if not …: raise …`. -/
def require (condition : Prop) [Decidable condition] (e : ε) : Except ε Unit :=
  if condition then .ok () else .error e

/-- A requirement returns if it is met. -/
@[simp] theorem require_eq_ok {condition : Prop} [Decidable condition] {e : ε} {u : Unit} :
    require condition e = .ok u ↔ condition := by
  unfold require
  split <;> simp_all

/-- A value returns itself. -/
@[simp] theorem pure_eq_ok {a b : α} : (pure a : Except ε α) = .ok b ↔ a = b := by
  simp [pure, Except.pure]

/-- What an option keeps of a result. -/
theorem toOption_eq_some {x : Except ε α} {a : α} : x.toOption = some a ↔ x = .ok a := by
  cases x with
  | error e => exact iff_of_false nofun nofun
  | ok b => exact ⟨fun h => by cases h; rfl, fun h => by cases h; rfl⟩

/-- A map over a list has returned if it has on every element. -/
theorem mapM_eq_ok {f : α → Except ε β} {l : List α} {l' : List β} :
    l.mapM f = .ok l' ↔ List.Forall₂ (fun a b => f a = .ok b) l l' := by
  induction l generalizing l' with
  | nil =>
      rw [List.mapM_nil, List.forall₂_nil_left_iff]
      exact ⟨fun h => by cases h; rfl, by rintro rfl; rfl⟩
  | cons a l ih =>
      rw [List.mapM_cons, bind_eq_ok, List.forall₂_cons_left_iff]
      constructor
      · rintro ⟨b, hb, hrest⟩
        obtain ⟨bs, hbs, hl'⟩ := bind_eq_ok.mp hrest
        cases hl'
        exact ⟨b, bs, hb, ih.mp hbs, rfl⟩
      · rintro ⟨b, bs, hb, hbs, rfl⟩
        exact ⟨b, hb, bind_eq_ok.mpr ⟨bs, ih.mpr hbs, rfl⟩⟩

/-- A map over a list returns what it does on each element. -/
theorem mapM_of_getElem? {f : α → Except ε β} {l : List α} {l' : List β}
    (hlength : l.length = l'.length)
    (h : ∀ (i : Nat) a b, l[i]? = some a → l'[i]? = some b → f a = .ok b) : l.mapM f = .ok l' := by
  rw [mapM_eq_ok, List.forall₂_iff_get]
  exact ⟨hlength, fun i hi hi' => h i _ _ (by simp) (by simp)⟩

/-- A map over a list returns if it does on every element. -/
theorem exists_mapM_eq_ok {f : α → Except ε β} {l : List α} (h : ∀ a ∈ l, ∃ b, f a = .ok b) :
    ∃ l', l.mapM f = .ok l' := by
  induction l with
  | nil => exact ⟨[], List.mapM_nil⟩
  | cons a l ih =>
      obtain ⟨b, hb⟩ := h a List.mem_cons_self
      obtain ⟨bs, hbs⟩ := ih fun a' ha' => h a' (List.mem_cons_of_mem a ha')
      refine ⟨b :: bs, ?_⟩
      rw [List.mapM_cons]
      exact bind_eq_ok.mpr ⟨b, hb, bind_eq_ok.mpr ⟨bs, hbs, rfl⟩⟩

/-- A fold over a list whose steps return. -/
theorem foldlM_eq_ok {f : β → α → Except ε β} {g : β → α → β} {l : List α} {b : β}
    (h : ∀ a ∈ l, ∀ b, f b a = .ok (g b a)) : l.foldlM f b = .ok (l.foldl g b) := by
  induction l generalizing b with
  | nil => rfl
  | cons a l ih =>
      rw [List.foldlM_cons, h a List.mem_cons_self]
      exact ih fun a' ha' => h a' (List.mem_cons_of_mem a ha')

/-- A loop over two lists in turn. -/
theorem foldlM_append_ok {f : β → α → Except ε β} {l l' : List α} {b c d : β}
    (h : l.foldlM f b = .ok c) (h' : l'.foldlM f c = .ok d) : (l ++ l').foldlM f b = .ok d := by
  rw [List.foldlM_append, h]
  exact h'

/-- A loop over one element. -/
theorem foldlM_singleton_ok {f : β → α → Except ε β} {a : α} {b c : β} (h : f b a = .ok c) :
    [a].foldlM f b = .ok c := bind_eq_ok.mpr ⟨c, h, rfl⟩

/-- A check of every element of a list. -/
theorem forM_eq_ok {check : α → Except ε Unit} {l : List α} :
    l.forM check = .ok () ↔ ∀ a ∈ l, check a = .ok () := by
  induction l with
  | nil => exact iff_of_true rfl nofun
  | cons a l ih =>
      rw [List.forM_eq_forM] at ih ⊢
      rw [List.forM_cons, bind_eq_ok, List.forall_mem_cons, ← ih]
      exact ⟨fun ⟨_, ha, hrest⟩ => ⟨ha, hrest⟩, fun ⟨ha, hrest⟩ => ⟨(), ha, hrest⟩⟩

/-- Each element has its counterpart. -/
theorem exists_of_mem {R : α → β → Prop} {l : List α} {l' : List β} (h : List.Forall₂ R l l')
    {a : α} (ha : a ∈ l) : ∃ b ∈ l', R a b := by
  induction h with
  | nil => contradiction
  | cons hb _ ih =>
      obtain rfl | ha := List.mem_cons.mp ha
      · exact ⟨_, List.mem_cons_self, hb⟩
      · obtain ⟨b, hmem, hfound⟩ := ih ha
        exact ⟨b, List.mem_cons_of_mem _ hmem, hfound⟩

end Raise
