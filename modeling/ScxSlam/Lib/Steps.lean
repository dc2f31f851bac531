import Mathlib.Data.List.Induction

/-!
# ScxSlam.Lib.Steps

Executable step systems.  A system is a partial step function
`step : σ → α → Option σ` over actions that carry every nondeterministic
choice; `exec` runs a list of actions and fails as soon as one of them is
not enabled.  The same function reads a log of events through a monitor
`accept : τ → ε → Option τ`, so a monitor is a step system over events.

Three rules carry every proof about runs:

* `Preserved.exec` — what each step preserves holds after every run;
* `exec_log_induction` — a relation between a log and the monitor's state
  holds of every accepted log;
* `Refines.exec` — when every step of a system appends events the monitor
  accepts, the whole log of every run is accepted.
-/

namespace Steps

variable {σ τ α ε : Type*}

/-! ## runs -/

/-- Run a list of actions; `none` as soon as an action is not enabled. -/
def exec (step : σ → α → Option σ) : σ → List α → Option σ
  | s, [] => some s
  | s, a :: as => match step s a with
      | some s' => exec step s' as
      | none => none

variable {step : σ → α → Option σ}

@[simp] theorem exec_nil (s : σ) : exec step s [] = some s := rfl

/-- The first step, and then the others. -/
theorem exec_cons (s : σ) (a : α) (as : List α) :
    exec step s (a :: as) = (step s a).bind (exec step · as) := by
  rw [exec]
  cases step s a <;> rfl

/-- One run behind another. -/
theorem exec_append (s : σ) (as bs : List α) :
    exec step s (as ++ bs) = (exec step s as).bind (exec step · bs) := by
  induction as generalizing s with
  | nil => rfl
  | cons a as ih =>
      rw [List.cons_append, exec_cons, exec_cons]
      cases step s a with
      | none => rfl
      | some s' => exact ih s'

@[simp] theorem exec_singleton (s : σ) (a : α) : exec step s [a] = step s a := by
  rw [exec_cons]
  cases step s a <;> rfl

/-- A run ends with its last action. -/
theorem exec_concat (s : σ) (as : List α) (a : α) :
    exec step s (as ++ [a]) = (exec step s as).bind (step · a) := by
  rw [exec_append]
  congr 1
  funext s'
  exact exec_singleton s' a

/-- A run of an appended list passes through the state between the halves. -/
theorem exec_split {s s'' : σ} {as bs : List α} (h : exec step s (as ++ bs) = some s'') :
    ∃ s', exec step s as = some s' ∧ exec step s' bs = some s'' := by
  rw [exec_append] at h
  exact Option.bind_eq_some_iff.mp h

/-! ## invariants -/

/-- Every enabled step keeps `P`. -/
def Preserved (step : σ → α → Option σ) (P : σ → Prop) : Prop :=
  ∀ s a s', P s → step s a = some s' → P s'

/-- **Invariant rule**: what every step keeps, every run keeps. -/
theorem Preserved.exec {P : σ → Prop} (hp : Preserved step P) {s s' : σ} {as : List α}
    (hs : P s) (h : exec step s as = some s') : P s' := by
  induction as generalizing s with
  | nil => exact Option.some.inj h ▸ hs
  | cons a as ih =>
      rw [exec_cons] at h
      obtain ⟨s₁, h₁, h₂⟩ := Option.bind_eq_some_iff.mp h
      exact ih (hp s a s₁ hs h₁) h₂

/-- Every step of a run meets `ok` in the state it is taken from. -/
def Along (step : σ → α → Option σ) (ok : σ → α → Prop) : σ → List α → Prop
  | _, [] => True
  | s, a :: as => ok s a ∧ match step s a with
      | some s' => Along step ok s' as
      | none => True

instance Along.decidable {ok : σ → α → Prop} [∀ s a, Decidable (ok s a)] :
    (s : σ) → (as : List α) → Decidable (Along step ok s as)
  | _, [] => isTrue trivial
  | s, a :: as =>
      have : Decidable (match step s a with
          | some s' => Along step ok s' as
          | none => True) :=
        match step s a with
        | some s' => Along.decidable s' as
        | none => isTrue trivial
      inferInstanceAs (Decidable (_ ∧ _))

/-- A condition on the actions alone holds along every run of them. -/
theorem Along.of_forall {ok : α → Prop} {as : List α} (h : ∀ a ∈ as, ok a) (s : σ) :
    Along step (fun _ a => ok a) s as := by
  induction as generalizing s with
  | nil => trivial
  | cons a as ih =>
      refine ⟨h a (List.mem_cons_self ..), ?_⟩
      cases step s a with
      | none => trivial
      | some s' => exact ih (fun b hb => h b (List.mem_cons_of_mem a hb)) s'

/-- What holds along a run holds along its first part. -/
theorem Along.left_of_append {ok : σ → α → Prop} {s : σ} {as bs : List α}
    (h : Along step ok s (as ++ bs)) : Along step ok s as := by
  induction as generalizing s with
  | nil => trivial
  | cons a as ih =>
      obtain ⟨ha, hrest⟩ := h
      refine ⟨ha, ?_⟩
      cases hstep : step s a with
      | none => trivial
      | some s' =>
          rw [hstep] at hrest
          exact ih hrest

/-- The invariant rule for runs whose every step meets `ok`. -/
theorem Along.exec {P : σ → Prop} {ok : σ → α → Prop} {s s' : σ} {as : List α}
    (hok : Along step ok s as)
    (hp : ∀ s a s', P s → ok s a → step s a = some s' → P s') (hs : P s)
    (h : Steps.exec step s as = some s') : P s' := by
  induction as generalizing s with
  | nil => exact Option.some.inj h ▸ hs
  | cons a as ih =>
      obtain ⟨ha, hrest⟩ := hok
      rw [exec_cons] at h
      obtain ⟨s₁, h₁, h₂⟩ := Option.bind_eq_some_iff.mp h
      rw [h₁] at hrest
      exact ih hrest (hp s a s₁ hs ha h₁) h₂

/-- Where `ok` is what a step needs to keep `P`, the runs whose steps all meet
it are those in which `P` always holds. -/
theorem Along.iff_forall_prefix {I P : σ → Prop} {ok : σ → α → Prop} {s s' : σ} {as : List α}
    (hI : Preserved step I)
    (hok : ∀ s a s', I s → P s → step s a = some s' → (P s' ↔ ok s a)) (hs : I s) (hP : P s)
    (h : Steps.exec step s as = some s') :
    Along step ok s as ↔ ∀ bs t, bs <+: as → Steps.exec step s bs = some t → P t := by
  constructor
  · rintro halong bs t ⟨cs, rfl⟩ ht
    have hboth : I t ∧ P t := by
      refine @Along.exec _ _ step (fun s => I s ∧ P s) ok s t bs ?_
        (fun s a s' hsP ha hstep => ⟨hI s a s' hsP.1 hstep, (hok s a s' hsP.1 hsP.2 hstep).mpr ha⟩)
        ⟨hs, hP⟩ ht
      exact halong.left_of_append
    exact hboth.2
  · intro hprefix
    induction as generalizing s with
    | nil => trivial
    | cons a as ih =>
        rw [exec_cons] at h
        obtain ⟨s₁, h₁, h₂⟩ := Option.bind_eq_some_iff.mp h
        have hP₁ : P s₁ := hprefix [a] s₁ ⟨as, rfl⟩ ((exec_singleton s a).trans h₁)
        refine ⟨(hok s a s₁ hs hP h₁).mp hP₁, ?_⟩
        rw [h₁]
        refine ih (hI s a s₁ hs h₁) hP₁ h₂ fun bs t hbs ht => ?_
        refine hprefix (a :: bs) t (List.cons_prefix_cons.mpr ⟨rfl, hbs⟩) ?_
        rw [exec_cons, h₁]
        exact ht

/-- Two conditions that agree as long as a run has kept one of them agree on
the whole run. -/
theorem Along.congr {I : σ → Prop} {ok ok' : σ → α → Prop} {s s' : σ} {as : List α}
    (hstep : ∀ s a s', I s → step s a = some s' → (ok s a ↔ ok' s a) ∧ (ok s a → I s'))
    (hs : I s) (h : Steps.exec step s as = some s') :
    Along step ok s as ↔ Along step ok' s as := by
  induction as generalizing s with
  | nil => exact Iff.rfl
  | cons a as ih =>
      rw [exec_cons] at h
      obtain ⟨s₁, h₁, h₂⟩ := Option.bind_eq_some_iff.mp h
      obtain ⟨hiff, hI⟩ := hstep s a s₁ hs h₁
      unfold Along
      rw [h₁]
      constructor
      · rintro ⟨hok, hrest⟩
        exact ⟨hiff.mp hok, (ih (hI hok) h₂).mp hrest⟩
      · rintro ⟨hok, hrest⟩
        exact ⟨hiff.mpr hok, (ih (hI (hiff.mpr hok)) h₂).mpr hrest⟩

/-! ## monitors -/

/-- **Log rule**: a relation that holds of the empty log and is kept by
every accepted event holds of every accepted log. -/
theorem exec_log_induction {accept : τ → ε → Option τ} {t₀ : τ} (P : List ε → τ → Prop)
    (h0 : P [] t₀)
    (hs : ∀ l t e t', exec accept t₀ l = some t → P l t → accept t e = some t' →
      P (l ++ [e]) t') :
    ∀ l t, exec accept t₀ l = some t → P l t := by
  intro l
  induction l using List.reverseRecOn with
  | nil =>
      intro t h
      exact Option.some.inj h ▸ h0
  | append_singleton l e ih =>
      intro t h
      rw [exec_concat] at h
      obtain ⟨t₁, h₁, h₂⟩ := Option.bind_eq_some_iff.mp h
      exact hs l t₁ e t h₁ (ih t₁ h₁) h₂

/-- The state before an event of an accepted log accepts that event. -/
theorem exec_before {accept : τ → ε → Option τ} {t₀ t : τ} {l l' : List ε} {e : ε}
    (h : exec accept t₀ (l ++ e :: l') = some t) :
    ∃ t₁ t₂, exec accept t₀ l = some t₁ ∧ accept t₁ e = some t₂ ∧
      exec accept t₂ l' = some t := by
  obtain ⟨t₁, h₁, h₂⟩ := exec_split h
  rw [exec_cons] at h₂
  obtain ⟨t₂, h₂, h₃⟩ := Option.bind_eq_some_iff.mp h₂
  exact ⟨t₁, t₂, h₁, h₂, h₃⟩

/-- Every step of the system appends to its log events that take the
monitor from a related state to a related state. -/
def Refines (step : σ → α → Option σ) (log : σ → List ε) (accept : τ → ε → Option τ)
    (R : σ → τ → Prop) : Prop :=
  ∀ s a s' t, R s t → step s a = some s' →
    ∃ es t', log s' = log s ++ es ∧ exec accept t es = some t' ∧ R s' t'

/-- **Refinement rule**: the log of every run is accepted, and the monitor
ends in a state related to the system's. -/
theorem Refines.exec {log : σ → List ε} {accept : τ → ε → Option τ} {R : σ → τ → Prop}
    (hr : Refines step log accept R) {t₀ t : τ} {s s' : σ} {as : List α}
    (hlog : exec accept t₀ (log s) = some t) (hR : R s t) (h : exec step s as = some s') :
    ∃ t', exec accept t₀ (log s') = some t' ∧ R s' t' := by
  induction as generalizing s t with
  | nil =>
      have hs : s = s' := Option.some.inj h
      subst hs
      exact ⟨t, hlog, hR⟩
  | cons a as ih =>
      rw [exec_cons] at h
      obtain ⟨s₁, h₁, h₂⟩ := Option.bind_eq_some_iff.mp h
      obtain ⟨es, t₁, hes, hacc, hR₁⟩ := hr s a s₁ t hR h₁
      refine ih (t := t₁) ?_ hR₁ h₂
      rw [hes, exec_append, hlog]
      exact hacc

end Steps
