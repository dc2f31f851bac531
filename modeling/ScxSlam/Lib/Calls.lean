import Mathlib.Data.List.Basic

/-!
# ScxSlam.Lib.Calls

An object is a function from a state and a call to a response and the next
state.  Calls that fail and leave the state alone can be deleted from any
sequence of calls: the others are answered the same.
-/

namespace Calls

variable {σ κ ρ : Type}

/-- The responses to a sequence of calls, and the state behind it. -/
def play (call : σ → κ → ρ × σ) : σ → List κ → List ρ × σ
  | s, [] => ([], s)
  | s, c :: cs => ((call s c).1 :: (play call (call s c).2 cs).1, (play call (call s c).2 cs).2)

/-- The calls of a sequence that do not fail, with their responses. -/
def answered (fails : ρ → Bool) (call : σ → κ → ρ × σ) (s : σ) (cs : List κ) : List (κ × ρ) :=
  (cs.zip (play call s cs).1).filter fun p => !fails p.2

variable {call : σ → κ → ρ × σ} {fails : ρ → Bool} {P : σ → Prop} {s : σ}

/-- The first call, and the rest if it has not failed. -/
theorem answered_cons (c : κ) (cs : List κ) : answered fails call s (c :: cs) =
    if fails (call s c).1 then answered fails call (call s c).2 cs
    else (c, (call s c).1) :: answered fails call (call s c).2 cs := by
  simp only [answered, play, List.zip_cons_cons, List.filter_cons]
  cases fails (call s c).1 <;> rfl

/-- What every call keeps, every sequence of calls keeps. -/
theorem play_keeps (hkeep : ∀ s c, P s → P (call s c).2) (hs : P s) (cs : List κ) :
    P (play call s cs).2 := by
  induction cs generalizing s with
  | nil => exact hs
  | cons c cs ih => exact ih (hkeep s c hs)

/-- Two objects that agree on every state of an invariant answer alike. -/
theorem play_congr {call' : σ → κ → ρ × σ} (hkeep : ∀ s c, P s → P (call s c).2)
    (heq : ∀ s c, P s → call' s c = call s c) (hs : P s) (cs : List κ) :
    play call' s cs = play call s cs := by
  induction cs generalizing s with
  | nil => rfl
  | cons c cs ih =>
      simp only [play, heq s c hs]
      rw [ih (hkeep s c hs)]

/-- **Deletion rule**: failing calls that leave the state alone can be left
out. -/
theorem play_answered (hkeep : ∀ s c, P s → P (call s c).2)
    (hatomic : ∀ s c, P s → fails (call s c).1 = true → (call s c).2 = s) (hs : P s)
    (cs : List κ) :
    play call s ((answered fails call s cs).map Prod.fst) =
      ((answered fails call s cs).map Prod.snd, (play call s cs).2) := by
  induction cs generalizing s with
  | nil => rfl
  | cons c cs ih =>
      have hrest := ih (hkeep s c hs)
      rw [answered_cons]
      by_cases hfail : fails (call s c).1 = true
      · -- the failing call is not there, and the state is the one before it
        rw [if_pos hfail]
        rw [hatomic s c hs hfail] at hrest ⊢
        rw [hrest]
        simp only [play, hatomic s c hs hfail]
      · rw [if_neg hfail]
        simp only [List.map_cons, play, hrest]

end Calls
