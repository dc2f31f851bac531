import Mathlib.Data.List.Sort
import ScxSlam.DependentGraph.History

/-!
# ScxSlam.DependentGraph.Selection

The loop of `select` against a reference: the two-way merge of the inboxes by
source time, the IMU first among equals, cut off at the batch limit.
-/

namespace ScxSlam.DependentGraph

/-! ## the reference -/

/-- The order the loop of `select` takes two fronts in. -/
def before (m c : Measurement) : Bool := decide (m.sourceTime ≤ c.sourceTime)

/-- Both inboxes as one list. -/
def merged (inbox : Lanes (List Measurement)) : List Measurement :=
  inbox.imu.merge inbox.camera before

/-- Nondecreasing in `source_time`. -/
def Nondecreasing (l : List Measurement) : Prop := l.Pairwise (·.sourceTime ≤ ·.sourceTime)

section Merge

variable {inbox rest : Lanes (List Measurement)} {m : Measurement}

theorem mem_merged : m ∈ merged inbox ↔ ∃ i, m ∈ inbox.get i := by
  rw [merged, List.mem_merge]
  constructor
  · rintro (h | h)
    · exact ⟨.imu, h⟩
    · exact ⟨.camera, h⟩
  · rintro ⟨i, h⟩
    cases i with
    | imu => exact .inl h
    | camera => exact .inr h

theorem length_merged : (merged inbox).length = inbox.imu.length + inbox.camera.length :=
  List.length_merge ..

theorem merged_eq_nil : merged inbox = [] ↔ inbox.imu = [] ∧ inbox.camera = [] := by
  rw [← List.length_eq_zero_iff, length_merged]
  simp

/-- One turn of the loop takes the head of the merge. -/
theorem pick_merged (h : pick inbox = some (m, rest)) : merged inbox = m :: merged rest := by
  obtain ⟨imu, camera⟩ := inbox
  unfold pick at h
  split at h
  case h_1 => contradiction
  case h_2 m' ms h1 h2 =>
      cases h
      simp only at h1 h2
      simp [merged, h1, h2]
  case h_3 c cs h1 h2 =>
      cases h
      simp only at h1 h2
      simp [merged, h1, h2]
  case h_4 m' ms c cs h1 h2 =>
      simp only at h1 h2
      split at h
      · next hlt =>
        cases h
        have hb : ¬before m' m = true := by simpa [before] using hlt
        simp only [merged, h1, h2]
        exact List.cons_merge_cons_neg _ _ _ hb
      · next hle =>
        cases h
        have hb : before m c = true := by simpa [before] using hle
        simp only [merged, h1, h2]
        exact List.cons_merge_cons_pos _ _ _ hb

/-- What the loop takes and what it leaves make up the merge. -/
theorem fill_merged (n : Nat) (inbox : Lanes (List Measurement)) :
    (fill n inbox).1 ++ merged (fill n inbox).2 = merged inbox := by
  induction n generalizing inbox with
  | zero => rfl
  | succ n ih =>
      unfold fill
      cases hp : pick inbox with
      | none => rfl
      | some p => rw [pick_merged hp, List.cons_append, ih]

/-- The loop stops at the limit or with empty inboxes. -/
theorem length_fill (n : Nat) (inbox : Lanes (List Measurement)) :
    (fill n inbox).1.length = min n (merged inbox).length := by
  induction n generalizing inbox with
  | zero => simp [fill]
  | succ n ih =>
      unfold fill
      cases hp : pick inbox with
      | none =>
          have hnil : merged inbox = [] :=
            merged_eq_nil.mpr ⟨pick_none hp .imu, pick_none hp .camera⟩
          simp [hnil]
      | some p =>
          rw [pick_merged hp, List.length_cons, List.length_cons, ih]
          omega

theorem fill_eq_take (n : Nat) (inbox : Lanes (List Measurement)) :
    (fill n inbox).1 = (merged inbox).take (min n (merged inbox).length) := by
  rw [← length_fill, ← fill_merged n inbox, List.take_left]

/-- Merging keeps the order. -/
theorem Nondecreasing.merged (h : ∀ i, Nondecreasing (inbox.get i)) :
    Nondecreasing (merged inbox) := by
  have htrans : ∀ a b c : Measurement, before a b = true → before b c = true →
      before a c = true := by
    intro a b c hab hbc
    simp only [before, decide_eq_true_eq] at hab hbc ⊢
    exact hab.trans hbc
  have htotal : ∀ a b : Measurement, (before a b || before b a) = true := by
    intro a b
    simpa [before] using Nat.le_total a.sourceTime b.sourceTime
  have hlane : ∀ i, (inbox.get i).Pairwise (fun a b => before a b = true) := by
    intro i
    exact (h i).imp fun hab => by simpa [before] using hab
  have hmerge := List.pairwise_merge htrans htotal _ _ (hlane .imu) (hlane .camera)
  exact hmerge.imp fun hab => by simpa [before] using hab

end Merge

/-! ## selection -/

/-- What `select` returns as `o`, and leaves as `g'`, of a graph `g` that may
start a batch. -/
structure Selects (limit : Nat) (g : Graph) (o : Option Batch) (g' : Graph) : Prop where
  nothing : o = none ↔ g.inbox.imu = [] ∧ g.inbox.camera = []
  inputs : ∀ b, o = some b → b.inputs = (merged g.inbox).take
    (min limit (g.inbox.imu.length + g.inbox.camera.length))
  /-- Each inbox keeps its unselected suffix. -/
  rest : ∀ i, g.inbox.get i = on i (o.elim [] Batch.inputs) ++ g'.inbox.get i
  ordered : (∀ i, Nondecreasing (g.inbox.get i)) → ∀ b, o = some b → Nondecreasing b.inputs
  /-- The front of the batch is the oldest pending measurement. -/
  oldest : (∀ i, Nondecreasing (g.inbox.get i)) → ∀ b, o = some b →
    ∃ m ms, b.inputs = m :: ms ∧ ∀ i, ∀ x ∈ g.inbox.get i, m.sourceTime ≤ x.sourceTime
  /-- Nothing left behind is older than anything selected. -/
  older : (∀ i, Nondecreasing (g.inbox.get i)) → ∀ b, o = some b →
    ∀ m ∈ b.inputs, ∀ i, ∀ x ∈ g'.inbox.get i, m.sourceTime ≤ x.sourceTime

/-- The loop of `select` on an idle graph. -/
theorem Selects.of_fill {limit t : Nat} {g g' : Graph} {o : Option Batch}
    (hlimit : limit ≠ 0) (hg : g.limit = limit) (hsorted : Sorted g.inbox)
    (hidle : g.running = none) (h : g.select t = .ok (o, g')) : Selects limit g o g' := by
  have hfill : o.elim [] Batch.inputs = (fill limit g.inbox).1 ∧
      g'.inbox = (fill limit g.inbox).2 ∧ (o = none ↔ (fill limit g.inbox).1 = []) := by
    rw [← hg]
    obtain ⟨-, ⟨rfl, ⟨hrun, -⟩ | ⟨-, hnil, rfl⟩⟩ | ⟨-, hne, rfl, rfl⟩⟩ := select_ok h
    · simp [hidle] at hrun
    · simp [hnil]
    · simp [hne]
  obtain ⟨hinputs, hrest, hnone⟩ := hfill
  have hin : ∀ b, o = some b → b.inputs = (fill limit g.inbox).1 := by
    rintro b rfl
    exact hinputs
  have hcut := fill_merged limit g.inbox
  have hpair : (∀ i, Nondecreasing (g.inbox.get i)) →
      Nondecreasing ((fill limit g.inbox).1 ++ merged (fill limit g.inbox).2) := by
    intro hnd
    rw [hcut]
    exact Nondecreasing.merged hnd
  constructor
  case nothing =>
      rw [hnone, ← merged_eq_nil, ← List.length_eq_zero_iff, length_fill,
        ← List.length_eq_zero_iff]
      omega
  case inputs =>
      intro b hb
      rw [hin b hb, fill_eq_take, length_merged]
  case rest =>
      intro i
      rw [hinputs, hrest]
      exact ((fill_spec limit hsorted).1 i).symm
  case ordered =>
      intro hnd b hb
      rw [hin b hb]
      exact (List.pairwise_append.mp (hpair hnd)).1
  case oldest =>
      intro hnd b hb
      have hne : (fill limit g.inbox).1 ≠ [] := fun hnil => by
        rw [hnone.mpr hnil] at hb
        contradiction
      obtain ⟨m, ms, hms⟩ := List.exists_cons_of_ne_nil hne
      refine ⟨m, ms, (hin b hb).trans hms, ?_⟩
      intro i x hx
      have hsort := hpair hnd
      rw [hms, List.cons_append] at hcut hsort
      have hmem : x ∈ m :: (ms ++ merged (fill limit g.inbox).2) := by
        rw [hcut]
        exact mem_merged.mpr ⟨i, hx⟩
      obtain rfl | hmem := List.mem_cons.mp hmem
      · exact Nat.le_refl _
      · exact (List.pairwise_cons.mp hsort).1 x hmem
  case older =>
      intro hnd b hb m hm i x hx
      rw [hin b hb] at hm
      rw [hrest] at hx
      exact (List.pairwise_append.mp (hpair hnd)).2.2 m hm x (mem_merged.mpr ⟨i, hx⟩)

/-- **Selection**: with no batch running, `select` takes a bounded two-way
merge of the inboxes. -/
theorem select_takes_merge {capacity limit t : Nat} {s : Session}
    (h : Reachable capacity limit s) (hidle : s.graph.running = none)
    (ht : s.graph.clockTime ≤ t) :
    ∃ o g, s.graph.select t = .ok (o, g) ∧ Selects limit s.graph o g := by
  have hb := h.books
  cases hs : s.graph.select t with
  | error what =>
      simp only [Graph.select, advance_eq_ok.mpr ⟨ht, rfl⟩, bind, Except.bind, pure,
        Except.pure] at hs
      repeat' split at hs
      all_goals contradiction
  | ok p => exact ⟨p.1, p.2, rfl, .of_fill hb.sameLimit.2 hb.sameLimit.1 hb.sorted hidle hs⟩

/-- One camera and two IMU measurements wait, with room for two. -/
def waitingSession : Session :=
  (Steps.exec Session.step { graph := { capacity := 4, limit := 2 } }
    [.offer ⟨.camera, 1, 2⟩ 2, .offer ⟨.imu, 1, 2⟩ 2, .offer ⟨.imu, 2, 3⟩ 3]).getD
      { graph := { capacity := 0, limit := 0 } }

theorem select_takes_merge_tie : ∃ o g, waitingSession.graph.select 5 = .ok (o, g) ∧
    Selects 2 waitingSession.graph o g :=
  @select_takes_merge 4 2 5 waitingSession
    ⟨{ capacity := 4, limit := 2 }, [.offer ⟨.camera, 1, 2⟩ 2, .offer ⟨.imu, 1, 2⟩ 2,
      .offer ⟨.imu, 2, 3⟩ 3], rfl, by rfl⟩ (by decide) (by decide)

example : (waitingSession.graph.select 5).map (·.1) =
    .ok (some ⟨1, [⟨.imu, 1, 2⟩, ⟨.camera, 1, 2⟩]⟩) := rfl

end ScxSlam.DependentGraph
