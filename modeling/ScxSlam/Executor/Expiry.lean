import ScxSlam.Executor.Spin

/-!
# ScxSlam.Executor.Expiry

The two expiry checks of a message, against the times themselves: `make_hint`
saturates the deadline, takes zero for none, and `expired` compares in 64-bit
words, but what they decide is a comparison of unbounded sums.
-/

namespace ScxSlam.Executor

/-- `Impl::expired`, with what the clock reads. -/
def PendingWork.expired (w : PendingWork) (now : Nat) : Bool :=
  w.rejectExpired && w.hint.expiredAt now

/-- A message with these metadata is past its deadline or its stale window. -/
def Overdue (p : CallbackProfile) (m : MessageMetadata) (now : Nat) : Prop :=
  (p.relativeDeadlineNs ≠ 0 ∧ m.releaseTsNs + p.relativeDeadlineNs < now) ∨
    (p.staleNs ≠ 0 ∧ m.releaseTsNs + p.staleNs < now)

instance (p : CallbackProfile) (m : MessageMetadata) (now : Nat) : Decidable (Overdue p m now) :=
  inferInstanceAs (Decidable (_ ∨ _))

section Expiry

variable {p : CallbackProfile} {m : MessageMetadata} {w : PendingWork} {now now' : Nat}

theorem Overdue.mono (h : Overdue p m now) (hle : now ≤ now') : Overdue p m now' :=
  h.imp (fun h => ⟨h.1, Nat.lt_of_lt_of_le h.2 hle⟩) fun h => ⟨h.1, Nat.lt_of_lt_of_le h.2 hle⟩

/-- A saturated sum is exceeded by the words that exceed the sum. -/
theorem addSaturating_lt_iff {a b t : Nat} (ha : a < u64) (ht : t < u64) :
    addSaturating a b < t ↔ a + b < t := by
  have hmax : u64Max + 1 = u64 := rfl
  unfold addSaturating
  split <;> omega

/-- The deadline of a hint is zero only where there is none. -/
theorem makeHint_deadline (hrelease : 1 ≤ m.releaseTsNs) (hword : m.releaseTsNs < u64)
    (hnow : now < u64) : ((makeHint p m).deadlineTsNs ≠ 0 ∧ (makeHint p m).deadlineTsNs < now) ↔
      p.relativeDeadlineNs ≠ 0 ∧ m.releaseTsNs + p.relativeDeadlineNs < now := by
  by_cases hnone : p.relativeDeadlineNs = 0
  · simp [makeHint, makeHintFor, hnone]
  · have hdeadline : (makeHint p m).deadlineTsNs =
        addSaturating m.releaseTsNs p.relativeDeadlineNs := if_neg hnone
    have hne : addSaturating m.releaseTsNs p.relativeDeadlineNs ≠ 0 := by
      have hmax : u64Max + 1 = u64 := rfl
      unfold addSaturating
      split <;> omega
    rw [hdeadline, addSaturating_lt_iff hword hnow]
    exact ⟨fun h => ⟨hnone, h.2⟩, fun h => ⟨hne, h.2⟩⟩

theorem expiredAt_makeHint (hrelease : 1 ≤ m.releaseTsNs) (hword : m.releaseTsNs < u64)
    (hnow : now < u64) : (makeHint p m).expiredAt now = true ↔ Overdue p m now := by
  have hdeadline := makeHint_deadline (p := p) hrelease hword hnow
  have hstale : ((makeHint p m).staleNs ≠ 0 ∧ (makeHint p m).releaseTsNs < now ∧
      (makeHint p m).staleNs < now - (makeHint p m).releaseTsNs) ↔
      p.staleNs ≠ 0 ∧ m.releaseTsNs + p.staleNs < now := by
    show (p.staleNs ≠ 0 ∧ m.releaseTsNs < now ∧ p.staleNs < now - m.releaseTsNs) ↔ _
    omega
  rw [Overdue, ← hdeadline, ← hstale]
  simp [FreshTaskHint.expiredAt, and_assoc]

/-! ## the two checks -/

/-- A check that reads the clock decides `expired`. -/
theorem checkExpiry_now {s t : State} {th : Thread} {b : Bool}
    (h : checkExpiry s w th (.now now) = some (b, t)) :
    w.rejectExpired = true ∧ b = w.expired now ∧ s.clock ≤ now ∧ t.clock = now := by
  obtain ⟨⟨hreject, hclock⟩, h⟩ := Option.ite_none_right_eq_some.mp h
  cases h
  exact ⟨hreject, by rw [PendingWork.expired, hreject, Bool.true_and], hclock, rfl⟩

theorem dispatchCheckStep_now {s t : State} (h : dispatchCheckStep s w (.now now) = some t) :
    t.dispatcher = if w.expired now then .dropObserve w else .publish w := by
  obtain ⟨⟨b, t'⟩, hcheck, rfl⟩ := Option.map_eq_some_iff.mp h
  obtain ⟨-, rfl, -, -⟩ := checkExpiry_now hcheck
  rfl

theorem admissionStep_now {s t : State} (h : admissionStep s w (.now now) = some t) :
    t.worker = if w.expired now then .dropObserve w else .enterHandler w := by
  obtain ⟨⟨b, t'⟩, hcheck, rfl⟩ := Option.map_eq_some_iff.mp h
  obtain ⟨-, rfl, -, -⟩ := checkExpiry_now hcheck
  rfl

/-- What the checks decide of a work item whose hint was made of `m`. -/
structure ExactExpiry (p : CallbackProfile) (m : MessageMetadata) (w : PendingWork) : Prop where
  exact : ∀ now < u64, w.expired now = true ↔ Overdue p m now
  monotone : ∀ now now', now ≤ now' → now' < u64 → w.expired now = true → w.expired now' = true
  /-- What the worker's check admits, the dispatcher's could not have rejected. -/
  second : ∀ (s s' t t' : State) now now', now ≤ now' → now' < u64 →
    dispatchCheckStep s w (.now now) = some t → admissionStep s' w (.now now') = some t' →
    t'.worker = .enterHandler w → t.dispatcher = .publish w

/-- **Expiry**: with a nonzero release both checks compare the exact times, and
a message that has expired stays expired. -/
theorem expiry_exact (hrelease : 1 ≤ m.releaseTsNs) (hword : m.releaseTsNs < u64)
    (hreject : w.rejectExpired = true) (hhint : w.hint = makeHint p m) : ExactExpiry p m w := by
  have hexact : ∀ now < u64, w.expired now = true ↔ Overdue p m now := by
    intro now hnow
    rw [PendingWork.expired, hreject, Bool.true_and, hhint]
    exact expiredAt_makeHint hrelease hword hnow
  have hmono : ∀ now now', now ≤ now' → now' < u64 → w.expired now = true →
      w.expired now' = true := by
    intro now now' hle hnow' hexpired
    have hoverdue := (hexact now (Nat.lt_of_le_of_lt hle hnow')).mp hexpired
    exact (hexact now' hnow').mpr (hoverdue.mono hle)
  refine ⟨hexact, hmono, ?_⟩
  intro s s' t t' now now' hle hnow' hdispatcher hworker hadmitted
  rw [dispatchCheckStep_now hdispatcher]
  refine if_neg fun hexpired => ?_
  rw [admissionStep_now hworker, if_pos (hmono now now' hle hnow' hexpired)] at hadmitted
  contradiction

/-- A deadline beyond the last word, and a release in the future. -/
theorem expiry_exact_saturated : ExactExpiry
    { relativeDeadlineNs := u64Max, staleNs := 10, rejectExpired := true } ⟨1, 5000⟩
    { executable := ⟨1, none, none⟩, rejectExpired := true,
      hint := makeHint { relativeDeadlineNs := u64Max, staleNs := 10, rejectExpired := true }
        ⟨1, 5000⟩ } :=
  expiry_exact (by decide) (by decide) rfl rfl

end Expiry

end ScxSlam.Executor
