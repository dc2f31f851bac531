import ScxSlam.Executor.Ledger

/-!
# ScxSlam.Executor.Protocol

What an accepted log says.  Each section states one invariant between a log
and the ledger that has read it, proves that every accepted event keeps it,
and reads the properties of whole logs off it.
-/

namespace ScxSlam.Executor

/-- The selection an event belongs to; a clear belongs to none. -/
def Event.serial? : Event → Option Nat
  | .claim k _ | .release k _ | .create k | .giveBack k | .accept k _ _ => some k
  | .select k _ | .check k _ _ | .drop k _ _ | .publish _ k _ => some k
  | .handle k | .execute k => some k
  | .clear _ _ => none

/-- A settled selection has nothing to resolve. -/
theorem Stage.unresolved_of_settled {st : Stage} (h : st.settled = true) :
    st.unresolved = false := by
  cases st <;> first | rfl | contradiction

namespace Ledger

/-- The protocol as a relation: one constructor for each way an event is
accepted. -/
inductive Accepts (L : Ledger) : Event → Ledger → Prop
  | claim (group : Option GroupId) (settled : L.stage.settled = true)
      (back : L.message = false) (free : L.owed = false) :
      Accepts L (.claim (L.serial + 1) group) { L with
        serial := L.serial + 1
        group := group
        owed := group.isSome
        observed := false
        reject := false
        stage := .fresh }
  | release (g : GroupId) (group : L.group = some g) (back : L.message = false) :
      Accepts L (.release L.serial g) { L with owed := false }
  | create (stage : L.stage = .fresh) (owed : L.owed = L.group.isSome) :
      Accepts L (.create L.serial) { L with message := true, stage := .created }
  | giveBack (out : L.message = true) :
      Accepts L (.giveBack L.serial) { L with message := false }
  | accept (observed reject : Bool) (stage : L.stage = .created) (out : L.message = true) :
      Accepts L (.accept L.serial observed reject) { L with
        observed := observed
        reject := reject
        stage := .accepted }
  | select (stage : L.stage = .accepted) (observed : L.observed = true) :
      Accepts L (.select L.serial .dispatcher) { L with stage := .selected }
  | dispatcherCheck (result : Bool)
      (stage : L.stage = if L.observed then .selected else .accepted)
      (reject : result = true → L.reject = true) :
      Accepts L (.check L.serial .dispatcher result)
        { L with stage := if result then .condemned else .passed }
  | workerCheck (result : Bool) (stage : L.stage = .published) (out : L.message = true)
      (reject : result = true → L.reject = true) :
      Accepts L (.check L.serial .worker result)
        { L with stage := if result then .expired else .admitted }
  | dispatcherDrop (stage : L.stage = .condemned) :
      Accepts L (.drop L.serial .dispatcher L.observed) { L with stage := .dropped }
  | workerDrop (stage : L.stage = .expired) :
      Accepts L (.drop L.serial .worker L.observed) { L with stage := .dropped }
  | publish (worker : Nat) (hint : FreshTaskHint)
      (stage : L.stage = if L.message then .passed else .fresh) (open' : L.cleared = false)
      (same : L.worker = none ∨ L.worker = some worker) :
      Accepts L (.publish worker L.serial hint) { L with
        stage := L.launched
        slot := some (L.serial, hint)
        worker := some worker }
  | handle (stage : L.stage = .admitted) :
      Accepts L (.handle L.serial) { L with stage := .entered }
  | execute (stage : L.stage = .queued) (none : L.message = false) :
      Accepts L (.execute L.serial) { L with stage := .entered }
  | clear (worker : Nat) (t : Thread) (slot : L.slot.isSome = true)
      (same : L.worker = none ∨ L.worker = some worker) :
      Accepts L (.clear worker t)
        { L with slot := none, worker := some worker, cleared := true }

variable {l : List Event} {L L' : Ledger} {e : Event}

/-- **Inversion**: what the ledger takes is an accepted event. -/
theorem step_accepts (h : step L e = some L') : Accepts L e L' := by
  cases e with
  | claim k group =>
      obtain ⟨⟨rfl, h1, h2, h3⟩, rfl⟩ := by simpa [step] using h
      exact .claim group h1 h2 h3
  | release k g =>
      obtain ⟨⟨rfl, h1, h2⟩, rfl⟩ := by simpa [step] using h
      exact .release g h1 h2
  | create k =>
      obtain ⟨⟨rfl, h1, h2⟩, rfl⟩ := by simpa [step] using h
      exact .create h1 h2
  | giveBack k =>
      obtain ⟨⟨rfl, h1⟩, rfl⟩ := by simpa [step] using h
      exact .giveBack h1
  | accept k observed reject =>
      obtain ⟨⟨rfl, h1, h2⟩, rfl⟩ := by simpa [step] using h
      exact .accept observed reject h1 h2
  | select k t =>
      cases t with
      | dispatcher =>
          obtain ⟨⟨rfl, h1, h2⟩, rfl⟩ := by simpa [step] using h
          exact .select h1 h2
      | worker => simp [step] at h
  | check k t result =>
      cases t with
      | dispatcher =>
          simp only [step, Option.ite_none_right_eq_some, Option.some.injEq] at h
          obtain ⟨⟨rfl, h1, h2⟩, rfl⟩ := h
          exact .dispatcherCheck result (by split at h1 <;> simp [*]) h2
      | worker =>
          simp only [step, Option.ite_none_right_eq_some, Option.some.injEq] at h
          obtain ⟨⟨rfl, h1, h2, h3⟩, rfl⟩ := h
          exact .workerCheck result h1 h2 h3
  | drop k t observed =>
      simp only [step, Option.ite_none_right_eq_some, Option.some.injEq] at h
      obtain ⟨⟨rfl, rfl, h1⟩, rfl⟩ := h
      cases t with
      | dispatcher => exact .dispatcherDrop h1
      | worker => exact .workerDrop h1
  | publish worker k hint =>
      simp only [step, Option.ite_none_right_eq_some, Option.some.injEq] at h
      obtain ⟨⟨rfl, h1, h2, h3⟩, rfl⟩ := h
      exact .publish worker hint (by split at h1 <;> simp [*]) h2 h3
  | handle k =>
      obtain ⟨⟨rfl, h1⟩, rfl⟩ := by simpa [step] using h
      exact .handle h1
  | execute k =>
      obtain ⟨⟨rfl, h1, h2⟩, rfl⟩ := by simpa [step] using h
      exact .execute h1 h2
  | clear worker t =>
      obtain ⟨⟨h1, h2⟩, rfl⟩ := by simpa [step] using h
      exact .clear worker t h1 h2

/-- A publication leads to the check of a message, or to other work. -/
theorem launched_cases (L : Ledger) : L.launched = .published ∨ L.launched = .queued := by
  unfold launched
  split
  · exact .inl rfl
  · exact .inr rfl

/-- Where the dispatcher checks, nothing has been published. -/
theorem open_of_check (h : L.stage = if L.observed then .selected else .accepted) :
    L.stage = .accepted ∨ L.stage = .selected := by
  split at h
  · exact .inr h
  · exact .inl h

/-- The log rule at `read`. -/
theorem read_induction {P : List Event → Ledger → Prop} (h0 : P [] {})
    (hs : ∀ l L e L', P l L → Accepts L e L' → P (l ++ [e]) L') (h : read l = some L) : P l L :=
  Steps.exec_log_induction P h0 (fun l t e t' _ hp he => hs l t e t' hp (step_accepts he)) l L h

/-- The event in the middle of an accepted log. -/
theorem read_middle {l₁ l₂ : List Event} (h : read (l₁ ++ e :: l₂) = some L) :
    ∃ L₁ L₂, read l₁ = some L₁ ∧ Accepts L₁ e L₂ ∧ read (l₁ ++ [e]) = some L₂ := by
  obtain ⟨L₁, L₂, h1, h2, -⟩ := Steps.exec_before h
  refine ⟨L₁, L₂, h1, step_accepts h2, ?_⟩
  rw [read, Steps.exec_concat, h1]
  exact h2

/-- Selections are numbered upwards. -/
def Bounded (l : List Event) (L : Ledger) : Prop :=
  ∀ e ∈ l, ∀ k, e.serial? = some k → k ≤ L.serial

/-- Only a claim moves the number, and it takes the next one. -/
theorem Bounded.accepts (h : Bounded l L) (hs : Accepts L e L') : Bounded (l ++ [e]) L' := by
  intro e' he' k hk
  obtain he' | he' := List.mem_append.mp he'
  · have hle : k ≤ L.serial := h e' he' k hk
    cases hs <;> simp only <;> omega
  · rw [List.mem_singleton.mp he'] at hk
    cases hs <;> simp [Event.serial?] at hk ⊢ <;> omega

/-- The next selection is new to the log. -/
theorem Bounded.next (h : Bounded l L) (he : e.serial? = some (L.serial + 1)) : e ∉ l := by
  intro hmem
  have := h e hmem _ he
  omega

/-- No event of an accepted log is numbered beyond its ledger. -/
theorem bounded (h : read l = some L) : Bounded l L :=
  read_induction nofun (fun _ _ _ _ hp he => hp.accepts he) h

/-- The log rule, with the numbering of the selections at hand. -/
theorem bounded_induction {P : List Event → Ledger → Prop} (h0 : P [] {})
    (hs : ∀ l L e L', Bounded l L → P l L → Accepts L e L' → P (l ++ [e]) L')
    (h : read l = some L) : P l L :=
  (read_induction (P := fun l L => Bounded l L ∧ P l L) ⟨nofun, h0⟩
    (fun l L e L' hp he => ⟨hp.1.accepts he, hs l L e L' hp.1 hp.2 he⟩) h).2

/-! ## messages and groups -/

/-- Where the message and the group of every selection are. -/
structure Traffic (l : List Event) (L : Ledger) : Prop where
  once : ∀ k, l.count (.create k) ≤ 1
  out : ∀ k, l.count (.create k) =
    l.count (.giveBack k) + if L.message = true ∧ k = L.serial then 1 else 0
  fresh : L.stage = .fresh → Event.create L.serial ∉ l
  claimed : ∀ k g, .claim k (some g) ∈ l →
    .release k g ∈ l ∨ k = L.serial ∧ L.owed = true ∧ L.group = some g
  held : L.message = true ∨ L.stage = .fresh ∧ L.owed = L.group.isSome →
    ∀ g, .release L.serial g ∉ l

/-- A message is created for a fresh selection only, so once. -/
theorem Traffic.accepts_once (h : Traffic l L) (hs : Accepts L e L') (k : Nat) :
    (l ++ [e]).count (.create k) ≤ 1 := by
  have honce := h.once k
  cases hs
  case create hst howed =>
      by_cases hk : k = L.serial
      · subst hk
        have hnone : l.count (.create L.serial) = 0 := List.count_eq_zero.mpr (h.fresh hst)
        simp [List.count_append, hnone]
      · simpa [List.count_append, Ne.symm hk] using honce
  all_goals simpa [List.count_append] using honce

/-- The message of the last selection is the one that can be out. -/
theorem Traffic.accepts_out (h : Traffic l L) (hs : Accepts L e L') (k : Nat) :
    (l ++ [e]).count (.create k) =
      (l ++ [e]).count (.giveBack k) + if L'.message = true ∧ k = L'.serial then 1 else 0 := by
  have hout := h.out k
  cases hs
  case claim group hset hback hfree => simpa [List.count_append, hback] using hout
  case create hst howed =>
      by_cases hk : k = L.serial
      · subst hk
        have hnone : l.count (.create L.serial) = 0 := List.count_eq_zero.mpr (h.fresh hst)
        simp only [hnone, List.count_append, List.count_singleton_self] at hout ⊢
        simp
        omega
      · simpa [List.count_append, hk, Ne.symm hk] using hout
  case giveBack hmessage =>
      by_cases hk : k = L.serial
      · simpa [List.count_append, hmessage, hk] using hout
      · simpa [List.count_append, hk, Ne.symm hk] using hout
  all_goals simpa [List.count_append] using hout

/-- A fresh selection has no message yet. -/
theorem Traffic.accepts_fresh (h : Traffic l L) (hb : Bounded l L) (hs : Accepts L e L')
    (hst : L'.stage = .fresh) :
    Event.create L'.serial ∉ l ++ [e] := by
  cases hs
  case claim => simpa using hb.next rfl
  case release | giveBack | clear => simpa using h.fresh hst
  case dispatcherCheck result _ _ => cases result <;> simp at hst
  case workerCheck result _ _ _ => cases result <;> simp at hst
  case publish => obtain hl | hl := L.launched_cases <;> simp [hl] at hst
  all_goals simp at hst

/-- A claimed group is released, or is owed by the selection at hand. -/
theorem Traffic.accepts_claimed (h : Traffic l L) (hs : Accepts L e L') (k : Nat) (g : GroupId)
    (hmem : .claim k (some g) ∈ l ++ [e]) :
    .release k g ∈ l ++ [e] ∨ k = L'.serial ∧ L'.owed = true ∧ L'.group = some g := by
  have hold := h.claimed k g
  cases hs
  case claim group hset hback hfree =>
      obtain hmem | hmem := List.mem_append.mp hmem
      · left
        simpa [hfree] using hold hmem
      · simp at hmem
        simp [hmem.1, ← hmem.2]
  case release g' hgroup hback =>
      obtain hrel | ⟨hk, howed, hg⟩ := hold (by simpa using hmem)
      · left
        exact List.mem_append_left _ hrel
      · left
        rw [hgroup] at hg
        cases hg
        simp [hk]
  all_goals simpa using hold (by simpa using hmem)

/-- A group is not released while its message is out. -/
theorem Traffic.accepts_held (h : Traffic l L) (hb : Bounded l L) (hs : Accepts L e L')
    (hst : L'.message = true ∨ L'.stage = .fresh ∧ L'.owed = L'.group.isSome) (g : GroupId) :
    .release L'.serial g ∉ l ++ [e] := by
  have hheld := fun hst => h.held hst g
  cases hs
  case claim => simpa using hb.next rfl
  case release g' hgroup hback => simp [hgroup, hback] at hst
  case create hfresh howed => simpa using hheld (.inr ⟨hfresh, howed⟩)
  case giveBack hmessage => simpa using hheld (.inl hmessage)
  case clear => simpa using hheld hst
  case dispatcherCheck result _ _ => cases result <;> simpa using hheld (.inl (by simpa using hst))
  case workerCheck result _ _ _ => cases result <;> simpa using hheld (.inl (by simpa using hst))
  case publish =>
      obtain hl | hl := L.launched_cases <;>
        simpa [hl] using hheld (.inl (by simpa [hl] using hst))
  all_goals simpa using hheld (.inl (by simpa using hst))

/-- Every accepted event keeps the traffic. -/
theorem Traffic.accepts (hb : Bounded l L) (h : Traffic l L) (hs : Accepts L e L') :
    Traffic (l ++ [e]) L' where
  once := h.accepts_once hs
  out := h.accepts_out hs
  fresh := h.accepts_fresh hb hs
  claimed := h.accepts_claimed hs
  held := h.accepts_held hb hs

/-- The traffic of every accepted log. -/
theorem traffic (h : read l = some L) : Traffic l L :=
  bounded_induction ⟨by simp, by simp, nofun, nofun, by simp⟩
    (fun _ _ _ _ hb hp he => hp.accepts hb he) h

/-! ## the sink -/

/-- The publications, all of one worker, are followed by at most one clear,
and the slot holds the last of them until then. -/
structure Sink (l : List Event) (L : Ledger) : Prop where
  ops : ∀ worker, L.worker = none ∨ L.worker = some worker →
    sinkOps l = (publications l).map (fun p => .publish worker p.1 p.2) ++
      if L.cleared then [.clear worker] else []
  slot : L.slot = if L.cleared then none else (publications l).getLast?
  used : L.cleared = true → publications l ≠ []

/-- Events that are no sink operation. -/
theorem Sink.skip (h : Sink l L) (he : e.sinkOp = none) (hw : L'.worker = L.worker)
    (hs : L'.slot = L.slot) (hc : L'.cleared = L.cleared) : Sink (l ++ [e]) L' := by
  have hops : sinkOps (l ++ [e]) = sinkOps l := by
    simp [sinkOps, he]
  have hpub : publications (l ++ [e]) = publications l := by
    cases e <;> simp_all [publications, Event.sinkOp]
  refine ⟨?_, ?_, ?_⟩
  · rw [hops, hpub, hw, hc]
    exact h.ops
  · rw [hpub, hs, hc]
    exact h.slot
  · rw [hpub, hc]
    exact h.used

/-- Every accepted event keeps the sink's account. -/
theorem Sink.accepts (h : Sink l L) (hs : Accepts L e L') : Sink (l ++ [e]) L' := by
  cases hs
  case publish worker hint hst hopen hsame =>
      have hops := h.ops worker hsame
      refine ⟨?_, ?_, ?_⟩
      · rintro id (hid | hid) <;> cases hid
        simp only [hopen] at hops ⊢
        simp [sinkOps, publications, Event.sinkOp] at hops ⊢
        exact hops
      · simp [hopen, publications]
      · simp [publications]
  case clear worker t hslot hsame =>
      have hops := h.ops worker hsame
      have hopen : L.cleared = false := by
        cases hc : L.cleared with
        | false => rfl
        | true => simp [h.slot, hc] at hslot
      refine ⟨?_, ?_, ?_⟩
      · rintro id (hid | hid) <;> cases hid
        simp only [hopen] at hops
        simp [sinkOps, publications, Event.sinkOp] at hops ⊢
        exact hops
      · simp
      · intro _ hnil
        have hnil : publications l = [] := by simpa [publications] using hnil
        simp [h.slot, hopen, hnil] at hslot
  all_goals exact h.skip rfl rfl rfl rfl

/-- The sink's account of every accepted log. -/
theorem sink (h : read l = some L) : Sink l L :=
  read_induction ⟨by simp [sinkOps, publications], by simp [publications], nofun⟩
    (fun _ _ _ _ hp he => hp.accepts he) h

/-- A hint in the slot is the last sink operation. -/
theorem last_op (h : read l = some L) {worker k : Nat} {hint : FreshTaskHint}
    (hw : L.worker = none ∨ L.worker = some worker) (hs : L.slot = some (k, hint)) :
    (sinkOps l).getLast? = some (.publish worker k hint) := by
  have hsink := sink h
  have hopen : L.cleared = false := by
    cases hc : L.cleared with
    | false => rfl
    | true => simp [hsink.slot, hc] at hs
  have hlast : (publications l).getLast? = some (k, hint) := by
    simpa [hopen] using hsink.slot.symm.trans hs
  rw [hsink.ops worker hw, hopen]
  simp only [Bool.false_eq_true, if_false, List.append_nil, List.getLast?_map, hlast]
  rfl

/-! ## admission -/

/-- What has happened to the messages of a log. -/
structure Admission (l : List Event) (L : Ledger) : Prop where
  unset : L.stage = .fresh ∨ L.stage = .created → L.observed = false ∧ L.reject = false
  /-- The flags of the job are those its message was accepted with. -/
  flags : ∀ o r, .accept L.serial o r ∈ l → o = L.observed ∧ r = L.reject
  named : L.observed = true ∨ L.reject = true → .accept L.serial L.observed L.reject ∈ l
  early : L.stage = .idle ∨ L.stage = .fresh ∨ L.stage = .created ∨ L.stage = .queued →
    ∀ o r, .accept L.serial o r ∉ l
  unpublished : L.stage = .fresh ∨ L.stage = .created ∨ L.stage = .accepted ∨
    L.stage = .selected ∨ L.stage = .passed ∨ L.stage = .condemned →
    ∀ w h, .publish w L.serial h ∉ l
  rejecting : L.stage = .condemned ∨ L.stage = .expired → L.reject = true
  /-- A message the dispatcher finds expired is not published. -/
  condemned : ∀ k, .check k .dispatcher true ∈ l → (∀ w h, .publish w k h ∉ l) ∧
    (k = L.serial → L.stage = .condemned ∨ L.stage = .dropped)
  dropped : ∀ k t o, .drop k t o ∈ l → ∃ o', .accept k o' true ∈ l
  checked : L.stage = .admitted → (checks l).getLast? = some (L.serial, .worker, false)

/-- The flags are down until a message is accepted. -/
theorem Admission.accepts_unset (h : Admission l L) (hs : Accepts L e L') :
    L'.stage = .fresh ∨ L'.stage = .created → L'.observed = false ∧ L'.reject = false := by
  have hun := h.unset
  have hlaunch := L.launched_cases
  cases hs <;> grind only

/-- A message is accepted once, so with one pair of flags. -/
theorem Admission.accepts_flags (h : Admission l L) (hb : Bounded l L) (hs : Accepts L e L')
    (o r : Bool)
    (hmem : .accept L'.serial o r ∈ l ++ [e]) : o = L'.observed ∧ r = L'.reject := by
  cases hs
  case claim => exact absurd (by simpa using hmem) (hb.next rfl)
  case accept observed reject hst hout =>
      have hearly := h.early (.inr (.inr (.inl hst))) o r
      simpa [hearly] using hmem
  all_goals exact h.flags o r (by simpa using hmem)

/-- A raised flag comes from an acceptance. -/
theorem Admission.accepts_named (h : Admission l L) (hs : Accepts L e L')
    (hflag : L'.observed = true ∨ L'.reject = true) :
    .accept L'.serial L'.observed L'.reject ∈ l ++ [e] := by
  cases hs
  case claim => simp at hflag
  case accept => simp
  all_goals exact List.mem_append_left _ (h.named hflag)

/-- No message is accepted before it has been created. -/
theorem Admission.accepts_early (h : Admission l L) (hb : Bounded l L) (hs : Accepts L e L')
    (hst : L'.stage = .idle ∨ L'.stage = .fresh ∨ L'.stage = .created ∨ L'.stage = .queued)
    (o r : Bool) : .accept L'.serial o r ∉ l ++ [e] := by
  have hearly := fun hst => h.early hst o r
  cases hs
  case claim => simpa using hb.next rfl
  case create hfresh howed => simpa using hearly (.inr (.inl hfresh))
  case release | giveBack | clear => simpa using hearly hst
  case publish worker hint hfrom hopen hsame =>
      by_cases hmessage : L.message = true
      · simp [launched, hmessage] at hst
      · have hfresh : L.stage = .fresh := by simpa [hmessage] using hfrom
        simpa using hearly (.inr (.inl hfresh))
  case dispatcherCheck result _ _ => cases result <;> simp at hst
  case workerCheck result _ _ _ => cases result <;> simp at hst
  all_goals simp at hst

/-- Nothing is published before the dispatcher's check. -/
theorem Admission.accepts_unpublished (h : Admission l L) (hb : Bounded l L) (hs : Accepts L e L')
    (hst : L'.stage = .fresh ∨ L'.stage = .created ∨ L'.stage = .accepted ∨
      L'.stage = .selected ∨ L'.stage = .passed ∨ L'.stage = .condemned) (w : Nat)
    (hint : FreshTaskHint) : .publish w L'.serial hint ∉ l ++ [e] := by
  have hun := fun hst => h.unpublished hst w hint
  cases hs
  case claim => simpa using hb.next rfl
  case release | giveBack | clear => simpa using hun hst
  case create hold _ => simpa using hun (.inl hold)
  case accept hold _ => simpa using hun (.inr (.inl hold))
  case select hold _ => simpa using hun (.inr (.inr (.inl hold)))
  case dispatcherCheck result hold _ =>
      obtain hold | hold := open_of_check hold <;> simpa using hun (by simp [hold])
  case publish => obtain hl | hl := L.launched_cases <;> simp [hl] at hst
  case workerCheck result _ _ _ => cases result <;> simp at hst
  all_goals simp at hst

/-- Only a message accepted as one that can expire is found expired. -/
theorem Admission.accepts_rejecting (h : Admission l L) (hs : Accepts L e L') :
    L'.stage = .condemned ∨ L'.stage = .expired → L'.reject = true := by
  have hrej := h.rejecting
  have hlaunch := L.launched_cases
  cases hs <;> grind only

/-- What the dispatcher finds expired goes to the drop and nowhere else. -/
theorem Admission.accepts_condemned (h : Admission l L) (hb : Bounded l L) (hs : Accepts L e L')
    (k : Nat)
    (hmem : .check k .dispatcher true ∈ l ++ [e]) : (∀ w h, .publish w k h ∉ l ++ [e]) ∧
      (k = L'.serial → L'.stage = .condemned ∨ L'.stage = .dropped) := by
  cases hs
  case claim group hset hback hfree =>
      have hmem : .check k .dispatcher true ∈ l := by simpa using hmem
      have hle : k ≤ L.serial := hb _ hmem k rfl
      constructor
      · simpa using (h.condemned k hmem).1
      · intro hk
        simp only at hk
        omega
  case dispatcherCheck result hold hrej =>
      have hopen := open_of_check hold
      have hno : ∀ w hint, .publish w L.serial hint ∉ l := h.unpublished (by grind only)
      by_cases hk : k = L.serial
      · subst hk
        cases result with
        | true => simpa using hno
        | false =>
            have hst := (h.condemned _ (by simpa using hmem)).2 rfl
            grind only
      · have hmem : .check k .dispatcher true ∈ l := by simpa [hk] using hmem
        simpa [hk] using (h.condemned k hmem).1
  case publish worker hint hold hopen hsame =>
      have hmem : .check k .dispatcher true ∈ l := by simpa using hmem
      have hk : k ≠ L.serial := by
        intro hk
        have hst := (h.condemned k hmem).2 hk
        split at hold <;> simp [hold] at hst
      simpa [hk] using (h.condemned k hmem).1
  all_goals
    have hmem : .check k .dispatcher true ∈ l := by simpa using hmem
    obtain ⟨hno, hst⟩ := h.condemned k hmem
    refine ⟨by simpa using hno, fun hk => ?_⟩
    have hst := hst hk
    grind only

/-- Only a message accepted as one that can expire is dropped. -/
theorem Admission.accepts_dropped (h : Admission l L) (hs : Accepts L e L') (k : Nat) (t : Thread)
    (o : Bool)
    (hmem : .drop k t o ∈ l ++ [e]) : ∃ o', .accept k o' true ∈ l ++ [e] := by
  have hold := fun hmem => h.dropped k t o hmem
  have hrej := h.rejecting
  have hnamed := h.named
  cases hs
  case dispatcherDrop hst | workerDrop hst =>
      have hreject : L.reject = true := hrej (by simp [hst])
      have hacc := hreject ▸ hnamed (.inr hreject)
      obtain hmem | hmem := List.mem_append.mp hmem
      · obtain ⟨o', ho'⟩ := hold hmem
        exact ⟨o', List.mem_append_left _ ho'⟩
      · cases List.mem_singleton.mp hmem
        exact ⟨L.observed, List.mem_append_left _ hacc⟩
  all_goals
    obtain ⟨o', ho'⟩ := hold (by simpa using hmem)
    exact ⟨o', List.mem_append_left _ ho'⟩

/-- The worker's check is the last one before the callback. -/
theorem Admission.accepts_checked (h : Admission l L) (hs : Accepts L e L')
    (hst : L'.stage = .admitted) :
    (checks (l ++ [e])).getLast? = some (L'.serial, .worker, false) := by
  cases hs
  case release | giveBack | clear => simpa [checks] using h.checked hst
  case dispatcherCheck result _ _ => cases result <;> simp at hst
  case workerCheck result _ _ _ =>
      cases result
      · simp [checks]
      · simp at hst
  case publish => obtain hl | hl := L.launched_cases <;> simp [hl] at hst
  all_goals simp at hst

/-- Every accepted event keeps the account of the messages. -/
theorem Admission.accepts (hb : Bounded l L) (h : Admission l L) (hs : Accepts L e L') :
    Admission (l ++ [e]) L' where
  unset := h.accepts_unset hs
  flags := h.accepts_flags hb hs
  named := h.accepts_named hs
  early := h.accepts_early hb hs
  unpublished := h.accepts_unpublished hb hs
  rejecting := h.accepts_rejecting hs
  condemned := h.accepts_condemned hb hs
  dropped := h.accepts_dropped hs
  checked := h.accepts_checked hs

/-- The account of the messages of every accepted log. -/
theorem admission (h : read l = some L) : Admission l L :=
  bounded_induction ⟨nofun, nofun, nofun, by simp, by simp, nofun, nofun, nofun, nofun⟩
    (fun _ _ _ _ hb hp he => hp.accepts hb he) h

/-! ## announcements and resolutions -/

/-- The announcement of the job in progress that is still to be resolved. -/
def unresolved (L : Ledger) : List Nat :=
  if L.observed = true ∧ L.stage.unresolved = true then [L.serial] else []

/-- How far the job in progress has been announced and resolved. -/
structure Announced (l : List Event) (L : Ledger) : Prop where
  flags : L.stage = .idle ∨ L.stage = .fresh ∨ L.stage = .created ∨ L.stage = .queued →
    L.observed = false
  current : L.serial ∈ selections l ↔ L.observed = true ∧ L.stage ≠ .accepted
  open' : L.stage ≠ .entered ∧ L.stage ≠ .dropped → L.serial ∉ resolutions l
  selectedOnce : (selections l).Nodup
  resolvedOnce : (resolutions l).Nodup
  announced : ∀ k r, .accept k true r ∈ l →
    k ∈ selections l ∨ k = L.serial ∧ L.observed = true ∧ L.stage = .accepted
  order : selections l = (resolutions l).filter (· ∈ selections l) ++ L.unresolved

/-- The jobs that have been announced as selected. -/
theorem mem_selections {k : Nat} : k ∈ selections l ↔ ∃ t, Event.select k t ∈ l := by
  simp only [selections, List.mem_filterMap, Event.selected]
  grind

/-- A job is resolved by its callback or by a drop. -/
theorem mem_resolutions {k : Nat} :
    k ∈ resolutions l ↔ .handle k ∈ l ∨ ∃ t o, Event.drop k t o ∈ l := by
  simp only [resolutions, List.mem_filterMap, Event.resolved]
  grind

/-- The next selection has not been announced. -/
theorem Bounded.next_selection (hb : Bounded l L) : L.serial + 1 ∉ selections l := by
  rw [mem_selections]
  rintro ⟨t, h⟩
  exact hb.next rfl h

/-- The next selection has not been resolved. -/
theorem Bounded.next_resolution (hb : Bounded l L) : L.serial + 1 ∉ resolutions l := by
  rw [mem_resolutions]
  rintro (h | ⟨t, o, h⟩)
  · exact hb.next rfl h
  · exact hb.next rfl h

/-- One event announces at most one job. -/
theorem selections_concat : selections (l ++ [e]) = selections l ++ e.selected.toList := by
  cases e <;> simp [selections, Event.selected]

/-- One event resolves at most one job. -/
theorem resolutions_concat : resolutions (l ++ [e]) = resolutions l ++ e.resolved.toList := by
  cases e <;> simp [resolutions, Event.resolved]

/-- Every accepted event keeps announcements and resolutions in step. -/
theorem Announced.accepts (hb : Bounded l L) (h : Announced l L) (hs : Accepts L e L') :
    Announced (l ++ [e]) L' := by
  obtain ⟨h1, h2, h3, h4, h5, h6, h7⟩ := h
  have hns := hb.next_selection
  have hnr := hb.next_resolution
  have hacc := fun r => hb.next (e := .accept (L.serial + 1) true r) rfl
  constructor
  case flags =>
      clear h2 h3 h4 h5 h6 h7
      cases hs <;> grind [launched]
  case current =>
      clear h3 h4 h5 h6 h7
      rw [selections_concat]
      cases hs <;> simp only [Event.selected] <;> grind [launched]
  case open' =>
      clear h2 h4 h5 h6 h7
      rw [resolutions_concat]
      cases hs <;> simp only [Event.resolved] <;> grind [launched]
  case selectedOnce =>
      clear h3 h5 h6 h7
      rw [selections_concat]
      cases hs <;> simp only [Event.selected] <;> grind
  case resolvedOnce =>
      clear h2 h4 h6 h7
      rw [resolutions_concat]
      cases hs <;> simp only [Event.resolved] <;> grind
  case announced =>
      clear h3 h4 h5 h7
      rw [selections_concat]
      cases hs <;> simp only [Event.selected] <;> grind [launched, Stage.settled]
  case order =>
      rw [selections_concat, resolutions_concat]
      cases hs
      case select hst hobs =>
          have hnew : L.serial ∉ resolutions l := h3 (by rw [hst]; exact ⟨nofun, nofun⟩)
          have hpre : (resolutions l).filter (· ∈ selections l ++ [L.serial]) =
              (resolutions l).filter (· ∈ selections l) := by
            refine List.filter_congr fun k hk => ?_
            have hne : k ≠ L.serial := fun h => hnew (h ▸ hk)
            simp [hne]
          have hold : selections l = (resolutions l).filter (· ∈ selections l) := by
            simpa [unresolved, hst, Stage.unresolved] using h7
          have hopen : unresolved { L with stage := .selected } = [L.serial] := by
            simp [unresolved, hobs, Stage.unresolved]
          have hnext : selections l ++ [L.serial] =
              (resolutions l ++ []).filter (· ∈ selections l ++ [L.serial]) ++
                unresolved { L with stage := .selected } := by
            rw [List.append_nil, hpre, ← hold, hopen]
          exact hnext
      case dispatcherDrop hst | workerDrop hst | handle hst =>
          have hmem : L.serial ∈ selections l ↔ L.observed = true := by
            simpa [hst] using h2
          have hlast : [L.serial].filter (· ∈ selections l) = L.unresolved := by
            simp [unresolved, hst, Stage.unresolved, List.filter_cons, hmem]
          simp only [Event.selected, Event.resolved, Option.toList, List.append_nil,
            List.filter_append, hlast]
          refine h7.trans ?_
          simp [unresolved, Stage.unresolved]
      all_goals
        simp only [Event.selected, Event.resolved, Option.toList, List.append_nil]
        refine h7.trans (congrArg _ ?_)
        clear h2 h3 h4 h5 h6 h7
        grind [unresolved, Stage.unresolved, Stage.unresolved_of_settled, launched]

/-- The announcements and resolutions of every accepted log. -/
theorem announced (h : read l = some L) : Announced l L :=
  bounded_induction
    ⟨fun _ => rfl, by simp [selections], by simp [resolutions], .nil, .nil, nofun, rfl⟩
    (fun _ _ _ _ hb hp he => hp.accepts hb he) h

end Ledger

end ScxSlam.Executor
