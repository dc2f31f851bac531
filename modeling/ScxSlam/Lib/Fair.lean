import Mathlib.Data.Nat.Find
import Mathlib.Data.Nat.Init
import ScxSlam.Lib.Steps

/-!
# ScxSlam.Lib.Fair

Endless runs of a step system, and what weak fairness makes of them.

Three rules: a number that never grows is constant in the end; what is kept
until something happens is still there when it does; and a number that cannot
stay where it is forever cannot keep its goal away.
-/

namespace Fair

open Steps

variable {σ α : Type*}

/-- An endless run. -/
structure Run (step : σ → α → Option σ) where
  state : Nat → σ
  action : Nat → α
  next (n : Nat) : step (state n) (action n) = some (state (n + 1))

namespace Run

variable {step : σ → α → Option σ}

/-- A kind of action that is possible from some point on is taken at some
point. -/
def WeaklyFair (ρ : Run step) (kind : α → Prop) : Prop :=
  ∀ n, (∀ m, n ≤ m → ∃ a, kind a ∧ (step (ρ.state m) a).isSome = true) →
    ∃ m, n ≤ m ∧ kind (ρ.action m)

/-- Such an action is taken where it is possible in states of a certain kind: a
thread that only waits may be possible, and yet not be promised to go on. -/
def WeaklyFairIn (ρ : Run step) (able : σ → Prop) (kind : α → Prop) : Prop :=
  ∀ n, (∀ m, n ≤ m → able (ρ.state m) ∧ ∃ a, kind a ∧ (step (ρ.state m) a).isSome = true) →
    ∃ m, n ≤ m ∧ kind (ρ.action m)

/-- A promise without a condition holds under each. -/
theorem WeaklyFair.everywhere {ρ : Run step} {able : σ → Prop} {kind : α → Prop}
    (h : ρ.WeaklyFair kind) : ρ.WeaklyFairIn able kind :=
  fun n hcan => h n fun m hm => (hcan m hm).2

variable {ρ : Run step} {P Q : σ → Prop} {kind : α → Prop} {μ : σ → Nat} {N n m : Nat}

/-- What every step keeps. -/
theorem always (hp : Preserved step P) (hn : P (ρ.state n)) (hle : n ≤ m) : P (ρ.state m) := by
  induction m, hle using Nat.le_induction with
  | base => exact hn
  | succ m _ ih => exact hp _ _ _ ih (ρ.next m)

/-- What every step from some point on keeps. -/
theorem always_from (hstep : ∀ m, n ≤ m → P (ρ.state m) → P (ρ.state (m + 1)))
    (hn : P (ρ.state n)) (hle : n ≤ m) : P (ρ.state m) := by
  induction m, hle using Nat.le_induction with
  | base => exact hn
  | succ m hle ih => exact hstep m hle ih

/-- What no step raises is never raised. -/
theorem antitone (hmono : ∀ m, N ≤ m → μ (ρ.state (m + 1)) ≤ μ (ρ.state m)) (hn : N ≤ n)
    (hle : n ≤ m) : μ (ρ.state m) ≤ μ (ρ.state n) := by
  induction m, hle using Nat.le_induction with
  | base => exact Nat.le_refl _
  | succ m hle ih => exact Nat.le_trans (hmono m (Nat.le_trans hn hle)) ih

/-- **Settling**: a number that never grows is constant in the end. -/
theorem settles (hmono : ∀ m, N ≤ m → μ (ρ.state (m + 1)) ≤ μ (ρ.state m)) :
    ∃ n, N ≤ n ∧ ∀ m, n ≤ m → μ (ρ.state (m + 1)) = μ (ρ.state m) := by
  -- by induction on the value at `N`: it is constant from there, or falls once
  generalize hk : μ (ρ.state N) = k
  induction k using Nat.strongRecOn generalizing N with
  | _ k ih =>
      by_cases hconst : ∀ m, N ≤ m → μ (ρ.state (m + 1)) = μ (ρ.state m)
      · exact ⟨N, Nat.le_refl N, hconst⟩
      · simp only [not_forall] at hconst
        obtain ⟨m, hm, hne⟩ := hconst
        have hfall : μ (ρ.state (m + 1)) < k := by
          have hle := antitone hmono (Nat.le_refl N) hm
          have := hmono m hm
          omega
        obtain ⟨n, hn, hrest⟩ := ih _ hfall
          (fun m' hm' => hmono m' (Nat.le_trans hm (Nat.le_of_succ_le hm'))) rfl
        exact ⟨n, Nat.le_trans hm (Nat.le_of_succ_le hn), hrest⟩

/-- **Waiting**: what is kept until something happens is there when it does. -/
theorem at_next {K : Nat → Prop}
    (hkeep : ∀ m, n ≤ m → P (ρ.state m) → ¬K m → P (ρ.state (m + 1)))
    (hhappens : ∃ m, n ≤ m ∧ K m) (hn : P (ρ.state n)) : ∃ m, n ≤ m ∧ P (ρ.state m) ∧ K m := by
  classical
  have hfirst := Nat.find_spec hhappens
  have hbefore : ∀ k, n ≤ k → k < Nat.find hhappens → ¬K k :=
    fun k hk hlt hthere => Nat.find_min hhappens hlt ⟨hk, hthere⟩
  refine ⟨Nat.find hhappens, hfirst.1, ?_, hfirst.2⟩
  have hall : ∀ k, n ≤ k → k ≤ Nat.find hhappens → P (ρ.state k) := by
    intro k hk
    induction k, hk using Nat.le_induction with
    | base => exact fun _ => hn
    | succ k hk ih => exact fun hle => hkeep k hk (ih (by omega)) (hbefore k hk (by omega))
  exact hall _ hfirst.1 (Nat.le_refl _)

/-- **Rank**: a number that never grows and always falls again, as long as a
goal is not reached, does not keep it away. -/
theorem eventually (hmono : ∀ m, n ≤ m → ¬Q (ρ.state m) → μ (ρ.state (m + 1)) ≤ μ (ρ.state m))
    (hfall : (∀ m, n ≤ m → ¬Q (ρ.state m)) → ∀ m, n ≤ m →
      ∃ k, m ≤ k ∧ μ (ρ.state (k + 1)) < μ (ρ.state k)) : ∃ m, n ≤ m ∧ Q (ρ.state m) := by
  by_contra hnever
  have hnot : ∀ m, n ≤ m → ¬Q (ρ.state m) := fun m hm hq => hnever ⟨m, hm, hq⟩
  obtain ⟨N, hN, hconst⟩ := settles fun m hm => hmono m hm (hnot m hm)
  obtain ⟨k, hk, hlt⟩ := hfall hnot N hN
  exact absurd (hconst k hk) (Nat.ne_of_lt hlt)

/-- **Gathering**: what some parties reach, each in its own time, and none of
them gives up again, they have reached together from some point on. -/
theorem gathers {ι : Type*} {D : ι → σ → Prop} (l : List ι)
    (hreach : ∀ i ∈ l, ∀ m, n ≤ m → ∃ k, m ≤ k ∧ D i (ρ.state k))
    (hstay : ∀ i m, n ≤ m → D i (ρ.state m) → D i (ρ.state (m + 1))) :
    ∃ m, n ≤ m ∧ ∀ k, m ≤ k → ∀ i ∈ l, D i (ρ.state k) := by
  induction l with
  | nil => exact ⟨n, Nat.le_refl n, fun _ _ => List.forall_mem_nil _⟩
  | cons i l ih =>
      obtain ⟨m, hm, hrest⟩ := ih fun j hj => hreach j (List.mem_cons_of_mem i hj)
      obtain ⟨k, hk, hi⟩ := hreach i List.mem_cons_self m hm
      refine ⟨k, Nat.le_trans hm hk, fun k' hk' => List.forall_mem_cons.mpr ⟨?_, ?_⟩⟩
      · exact always_from (P := D i)
          (fun j hj => hstay i j (Nat.le_trans (Nat.le_trans hm hk) hj)) hi hk'
      · exact hrest k' (Nat.le_trans hk hk')

end Run

/-- What leads from `P` to `Q`: as long as it has not, some kind of action helps.
It is possible, and a number falls by it that no action makes larger; an action
that leaves the number is not of that kind, and the same kind still helps. -/
structure Helpful {ι : Type*} (step : σ → α → Option σ) (kind : ι → α → Prop) (helps : σ → ι)
    (P Q : σ → Prop) (μ : σ → Nat) : Prop where
  stable : Preserved step P
  enabled : ∀ s, P s → ¬Q s → ∃ a, kind (helps s) a ∧ (step s a).isSome = true
  moves : ∀ s a s', P s → ¬Q s → step s a = some s' →
    μ s' < μ s ∨ μ s' = μ s ∧ helps s' = helps s ∧ ¬kind (helps s) a

section Helpful

variable {ι : Type*} {step : σ → α → Option σ} {kind : ι → α → Prop} {helps : σ → ι}
  {P Q : σ → Prop} {μ : σ → Nat} {ρ : Run step} {n : Nat}

/-- **Leads to**: where every kind that helps is fair, the goal is reached. -/
theorem Helpful.reaches_in {able : ι → σ → Prop} (h : Helpful step kind helps P Q μ)
    (hfair : ∀ i, ρ.WeaklyFairIn (able i) (kind i))
    (hable : ∀ s, P s → ¬Q s → able (helps s) s) (hn : P (ρ.state n)) :
    ∃ m, n ≤ m ∧ Q (ρ.state m) := by
  have hstable : ∀ m, n ≤ m → P (ρ.state m) := fun m => Run.always h.stable hn
  refine Run.eventually (μ := μ) (fun m hm hnot => ?_) ?_
  · obtain hlt | ⟨heq, -⟩ := h.moves _ _ _ (hstable m hm) hnot (ρ.next m)
    · exact Nat.le_of_lt hlt
    · exact Nat.le_of_eq heq
  intro hnever m hm
  by_contra hnot
  simp only [not_exists, not_and] at hnot
  -- the number stays, so the kind that helps is never taken, though it is possible
  have hstay : ∀ k, m ≤ k → μ (ρ.state (k + 1)) = μ (ρ.state k) ∧
      helps (ρ.state (k + 1)) = helps (ρ.state k) ∧ ¬kind (helps (ρ.state k)) (ρ.action k) := by
    intro k hk
    have hle := Nat.le_trans hm hk
    exact (h.moves _ _ _ (hstable k hle) (hnever k hle) (ρ.next k)).resolve_left (hnot k hk)
  have hsame : ∀ k, m ≤ k → helps (ρ.state k) = helps (ρ.state m) := by
    intro k hk
    exact Run.always_from (P := fun s => helps s = helps (ρ.state m))
      (fun k hk heq => (hstay k hk).2.1.trans heq) rfl hk
  obtain ⟨k, hk, htaken⟩ := hfair (helps (ρ.state m)) m fun k hk => by
    have hle := Nat.le_trans hm hk
    rw [← hsame k hk]
    exact ⟨hable _ (hstable k hle) (hnever k hle), h.enabled _ (hstable k hle) (hnever k hle)⟩
  exact (hstay k hk).2.2 (hsame k hk ▸ htaken)

/-- **Helpful actions**: a run that is fair to each of them reaches the goal. -/
theorem Helpful.reaches (h : Helpful step kind helps P Q μ) (hfair : ∀ i, ρ.WeaklyFair (kind i))
    (hn : P (ρ.state n)) : ∃ m, n ≤ m ∧ Q (ρ.state m) :=
  have heverywhere : ∀ i, ρ.WeaklyFairIn (fun _ => True) (kind i) := fun i => (hfair i).everywhere
  h.reaches_in heverywhere (fun _ _ _ => trivial) hn

end Helpful

/-- The case of one kind that always helps. -/
structure Progress (step : σ → α → Option σ) (kind : α → Prop) (P Q : σ → Prop) (μ : σ → Nat) :
    Prop where
  stable : Preserved step P
  enabled : ∀ s, P s → ¬Q s → ∃ a, kind a ∧ (step s a).isSome = true
  keeps : ∀ s a s', P s → ¬Q s → step s a = some s' → μ s' ≤ μ s
  falls : ∀ s a s', P s → ¬Q s → kind a → step s a = some s' → μ s' < μ s

section Progress

variable {step : σ → α → Option σ} {kind : α → Prop} {P Q : σ → Prop} {μ : σ → Nat} {ρ : Run step}
  {n : Nat}

/-- One kind of action that always helps. -/
theorem Progress.helpful (h : Progress step kind P Q μ) :
    Helpful step (fun _ : Unit => kind) (fun _ => ()) P Q μ := by
  refine ⟨h.stable, h.enabled, ?_⟩
  intro s a s' hp hnot hs
  obtain heq | hlt := Nat.eq_or_lt_of_le (h.keeps s a s' hp hnot hs)
  · refine .inr ⟨heq, rfl, fun ha => ?_⟩
    exact absurd heq (Nat.ne_of_lt (h.falls s a s' hp hnot ha hs))
  · exact .inl hlt

/-- **Progress**: a run that is fair to the one kind reaches the goal. -/
theorem Progress.reaches (h : Progress step kind P Q μ) (hfair : ρ.WeaklyFair kind)
    (hn : P (ρ.state n)) : ∃ m, n ≤ m ∧ Q (ρ.state m) :=
  h.helpful.reaches (fun _ => hfair) hn

/-- The same where fairness is promised under a condition that holds until then. -/
theorem Progress.reaches_in {able : σ → Prop} (h : Progress step kind P Q μ)
    (hfair : ρ.WeaklyFairIn able kind) (hable : ∀ s, P s → ¬Q s → able s) (hn : P (ρ.state n)) :
    ∃ m, n ≤ m ∧ Q (ρ.state m) :=
  have hfair' : ∀ _ : Unit, ρ.WeaklyFairIn able kind := fun _ => hfair
  h.helpful.reaches_in hfair' hable hn

end Progress

/-- A run and an action that does nothing at its end make an endless run. -/
theorem exists_run {step : σ → α → Option σ} {s s' : σ} {as : List α} {idle : α}
    (h : exec step s as = some s') (hidle : step s' idle = some s') :
    ∃ ρ : Run step, ρ.state 0 = s ∧ ∀ n, as.length ≤ n → ρ.state n = s' ∧ ρ.action n = idle := by
  induction as generalizing s with
  | nil =>
      cases h
      exact ⟨⟨fun _ => s', fun _ => idle, fun _ => hidle⟩, rfl, fun _ _ => ⟨rfl, rfl⟩⟩
  | cons a as ih =>
      rw [exec_cons] at h
      obtain ⟨s₁, h₁, h₂⟩ := Option.bind_eq_some_iff.mp h
      obtain ⟨ρ, hstart, hend⟩ := ih h₂
      let state : Nat → σ := fun n => Nat.casesOn n s ρ.state
      let action : Nat → α := fun n => Nat.casesOn n a ρ.action
      have hnext : ∀ n, step (state n) (action n) = some (state (n + 1)) := by
        intro n
        cases n with
        | zero => exact h₁.trans (congrArg some hstart.symm)
        | succ n => exact ρ.next n
      refine ⟨⟨state, action, hnext⟩, rfl, ?_⟩
      intro n hn
      cases n with
      | zero => exact absurd hn (by simp)
      | succ n => exact hend n (Nat.le_of_succ_le_succ hn)

end Fair
