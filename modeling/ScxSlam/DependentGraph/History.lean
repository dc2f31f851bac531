import Mathlib.Data.List.Basic
import ScxSlam.DependentGraph.Graph
import ScxSlam.Lib.Steps

/-!
# ScxSlam.DependentGraph.History

Sequences of calls on a `Graph`, and what is conserved along them: every
accepted measurement is, in acceptance order, consumed, in flight or pending.
-/

namespace ScxSlam.DependentGraph

/-! ## calls and their history -/

/-- A call on the graph. -/
inductive Call
  | offer (m : Measurement) (arrival : Nat)
  | select (t : Nat)
  | complete (id t : Nat)
  | control (t setpoint maxImuAge : Nat)
  deriving DecidableEq, Repr

/-- How a call ended. -/
inductive Response
  | offered (accepted : Bool)
  | selected (b : Option Batch)
  | completed (s : Snapshot)
  | controlled (c : Control)
  | threw (what : String)
  deriving DecidableEq, Repr

/-- A finished call as a response; a call that throws leaves the graph alone. -/
def Graph.respond {α : Type} (g : Graph) (respond : α → Response) :
    Except String (α × Graph) → Response × Graph
  | .ok (a, g') => (respond a, g')
  | .error what => (.threw what, g)

/-- One call. -/
def Graph.call (g : Graph) : Call → Response × Graph
  | .offer m arrival => g.respond .offered (g.offer m arrival)
  | .select t => g.respond .selected (g.select t)
  | .complete id t => g.respond .completed (g.complete id t)
  | .control t setpoint maxImuAge => g.respond .controlled (g.control t setpoint maxImuAge)

abbrev History := List (Call × Response)

/-- A graph and the calls made on it so far. -/
structure Session where
  graph : Graph
  history : History := []
  deriving DecidableEq, Repr

/-- Every call is possible in every state. -/
def Session.step (s : Session) (c : Call) : Option Session :=
  some { graph := (s.graph.call c).2, history := s.history ++ [(c, (s.graph.call c).1)] }

/-- The sessions a constructed graph can reach. -/
def Reachable (capacity limit : Nat) (s : Session) : Prop :=
  ∃ g calls, Graph.make capacity limit = .ok g ∧
    Steps.exec Session.step { graph := g } calls = some s

/-! ## reading a history -/

/-- The measurement a call put into an inbox. -/
def accepted1 : Call × Response → Option Measurement
  | (.offer m _, .offered true) => some m
  | _ => none

/-- The batch a call selected. -/
def selected1 : Call × Response → Option Batch
  | (_, .selected b) => b
  | _ => none

/-- The batch id a call completed. -/
def completed1 : Call × Response → Option Nat
  | (.complete id _, .completed _) => some id
  | _ => none

/-- Accepted measurements, in order. -/
def accepted (h : History) : List Measurement := h.filterMap accepted1

/-- Selected batches, in order. -/
def batches (h : History) : List Batch := h.filterMap selected1

/-- Ids of completed batches, in order. -/
def completions (h : History) : List Nat := h.filterMap completed1

/-- Selected batches that were completed, in order. -/
def completedBatches (h : History) : List Batch :=
  (batches h).filter (·.id ∈ completions h)

/-- The measurements of one stream. -/
def on (i : Lane) (l : List Measurement) : List Measurement :=
  l.filter (·.stream = i.stream)

/-- The measurements of one stream in some batches, in batch order. -/
def inputsOn (i : Lane) (bs : List Batch) : List Measurement :=
  on i (bs.flatMap (·.inputs))

/-- The measurements of a stream, part by part. -/
@[simp] theorem on_append (i : Lane) (l l' : List Measurement) :
    on i (l ++ l') = on i l ++ on i l' :=
  List.filter_append ..

theorem on_cons (i : Lane) (m : Measurement) (l : List Measurement) :
    on i (m :: l) = if m.stream = i.stream then m :: on i l else on i l := by
  simp [on, List.filter_cons]

/-- The inputs of a stream, part by part. -/
theorem inputsOn_append (i : Lane) (bs bs' : List Batch) :
    inputsOn i (bs ++ bs') = inputsOn i bs ++ inputsOn i bs' := by
  simp [inputsOn]

/-- Streams have different names. -/
theorem Lane.stream_inj {i j : Lane} : i.stream = j.stream ↔ i = j := by
  cases i <;> cases j <;> decide

/-- A stream with an index is one of the two. -/
theorem index_eq_ok {s : Stream} {i : Lane} : index s = .ok i ↔ s = i.stream := by
  cases s <;> cases i <;> simp [index, Lane.stream]

/-! ## what each call does -/

section Calls

variable {g g' : Graph} {m : Measurement} {t id : Nat}

/-- Time goes forward, and nothing else changes. -/
theorem advance_eq_ok :
    g.advance t = .ok g' ↔ g.clockTime ≤ t ∧ g' = { g with clockTime := t } := by
  unfold Graph.advance
  by_cases h : t < g.clockTime
  · simp only [h, if_true, reduceCtorEq, false_iff]
    omega
  · simp [h, eq_comm, Nat.le_of_not_lt h]

/-- A measurement that is not rejected as invalid is dropped exactly when its
inbox is full. -/
theorem offer_ok {b : Bool} (h : g.offer m t = .ok (b, g')) :
    ∃ i : Lane, m.stream = i.stream ∧ m.sourceTime ≤ t ∧ g.clockTime ≤ t ∧
      ((g.inbox.get i).length = g.capacity ∧ b = false ∧ g' = { g with
          clockTime := t
          lastSequence := g.lastSequence.set i (some m.sequence)
          accounting := g.accounting.set i { g.accounting.get i with
            offered := (g.accounting.get i).offered + 1
            dropped := (g.accounting.get i).dropped + 1 } } ∨
        (g.inbox.get i).length ≠ g.capacity ∧ b = true ∧ g' = { g with
          clockTime := t
          lastSequence := g.lastSequence.set i (some m.sequence)
          accounting := g.accounting.set i { g.accounting.get i with
            offered := (g.accounting.get i).offered + 1 }
          inbox := g.inbox.set i (g.inbox.get i ++ [m]) }) := by
  simp only [Graph.offer, bind, Except.bind, pure, Except.pure] at h
  split at h
  · contradiction
  · next i hi =>
    split at h
    · contradiction
    · next hvalid =>
      split at h
      · contradiction
      · next g₁ hg =>
        obtain ⟨ht, rfl⟩ := advance_eq_ok.mp hg
        refine ⟨i, index_eq_ok.mp hi, by omega, ht, ?_⟩
        split at h
        · next hfull =>
          cases h
          exact .inl ⟨hfull, rfl, rfl⟩
        · next hroom =>
          cases h
          exact .inr ⟨hroom, rfl, rfl⟩

/-- One turn of the loop of `select` takes the front of one inbox. -/
theorem pick_some {inbox rest : Lanes (List Measurement)} (h : pick inbox = some (m, rest)) :
    ∃ i, inbox.get i = m :: rest.get i ∧ ∀ j, j ≠ i → rest.get j = inbox.get j := by
  unfold pick at h
  split at h
  case h_1 => contradiction
  case h_2 m' ms h1 h2 =>
      cases h
      exact ⟨.imu, h1, fun j hj => by cases j <;> first | rfl | contradiction⟩
  case h_3 c cs h1 h2 =>
      cases h
      exact ⟨.camera, h2, fun j hj => by cases j <;> first | rfl | contradiction⟩
  case h_4 m' ms c cs h1 h2 =>
      split at h <;> cases h
      · exact ⟨.camera, h2, fun j hj => by cases j <;> first | rfl | contradiction⟩
      · exact ⟨.imu, h1, fun j hj => by cases j <;> first | rfl | contradiction⟩

/-- With nothing to pick both inboxes are empty. -/
theorem pick_none {inbox : Lanes (List Measurement)} (h : pick inbox = none) (i : Lane) :
    inbox.get i = [] := by
  unfold pick at h
  split at h
  case h_1 h1 h2 => cases i <;> assumption
  case h_4 => split at h <;> contradiction
  all_goals contradiction

/-- Every inbox holds measurements of its own stream. -/
def Sorted (inbox : Lanes (List Measurement)) : Prop :=
  ∀ i, ∀ m ∈ inbox.get i, m.stream = i.stream

/-- The loop of `select` moves measurements from the fronts of the inboxes to
the batch and keeps the order of each stream. -/
theorem fill_spec (n : Nat) {inbox : Lanes (List Measurement)} (hs : Sorted inbox) :
    (∀ i, on i (fill n inbox).1 ++ (fill n inbox).2.get i = inbox.get i) ∧
      (fill n inbox).1.length ≤ n ∧ (∀ m ∈ (fill n inbox).1, ∃ i : Lane, m.stream = i.stream) := by
  induction n generalizing inbox with
  | zero => exact ⟨fun i => rfl, Nat.le_refl _, nofun⟩
  | succ n ih =>
      unfold fill
      split
      · exact ⟨fun i => rfl, Nat.zero_le _, nofun⟩
      · next m rest hp =>
        obtain ⟨i, hi, hrest⟩ := pick_some hp
        have hm : m.stream = i.stream := hs i m (by rw [hi]; exact List.mem_cons_self)
        have hsrest : Sorted rest := by
          intro j m' hm'
          by_cases hj : j = i
          · subst hj
            exact hs j m' (by rw [hi]; exact List.mem_cons_of_mem _ hm')
          · exact hs j m' (by rwa [← hrest j hj])
        obtain ⟨h1, h2, h3⟩ := ih hsrest
        refine ⟨?_, Nat.succ_le_succ h2, ?_⟩
        · intro j
          rw [on_cons, hm]
          by_cases hj : j = i
          · subst hj
            rw [if_pos rfl, List.cons_append, h1, hi]
          · rw [if_neg (fun h => hj (Lane.stream_inj.mp h).symm), h1, hrest j hj]
        · intro m' hm'
          obtain rfl | hm' := List.mem_cons.mp hm'
          · exact ⟨i, hm⟩
          · exact h3 m' hm'

/-- The loop of `select` stops early only when both inboxes are empty. -/
theorem fill_eq_nil {n : Nat} {inbox : Lanes (List Measurement)} (hn : n ≠ 0)
    (h : (fill n inbox).1 = []) : (∀ i, inbox.get i = []) ∧ (fill n inbox).2 = inbox := by
  cases n with
  | zero => contradiction
  | succ n =>
      unfold fill at h ⊢
      cases hp : pick inbox with
      | none => exact ⟨pick_none hp, rfl⟩
      | some p =>
          rw [hp] at h
          contradiction

/-- `select` starts a batch only when none is running and some input waits. -/
theorem select_ok {o : Option Batch} (h : g.select t = .ok (o, g')) : g.clockTime ≤ t ∧
    (o = none ∧ (g.running.isSome = true ∧ g' = { g with clockTime := t } ∨
        g.running = none ∧ (fill g.limit g.inbox).1 = [] ∧
          g' = { g with clockTime := t, inbox := (fill g.limit g.inbox).2 }) ∨
      g.running = none ∧ (fill g.limit g.inbox).1 ≠ [] ∧
        o = some ⟨g.nextBatch, (fill g.limit g.inbox).1⟩ ∧ g' = { g with
          clockTime := t
          inbox := (fill g.limit g.inbox).2
          nextBatch := g.nextBatch + 1
          running := some ⟨g.nextBatch, (fill g.limit g.inbox).1⟩ }) := by
  simp only [Graph.select, bind, Except.bind, pure, Except.pure] at h
  split at h
  · contradiction
  · next g₁ hg =>
    obtain ⟨ht, rfl⟩ := advance_eq_ok.mp hg
    refine ⟨ht, ?_⟩
    split at h
    · next hrun =>
      cases h
      exact .inl ⟨rfl, .inl ⟨hrun, rfl⟩⟩
    · next hrun =>
      have hrun : g.running = none := by simpa using hrun
      split at h
      · next hnil =>
        cases h
        exact .inl ⟨rfl, .inr ⟨hrun, hnil, rfl⟩⟩
      · next hne =>
        cases h
        exact .inr ⟨hrun, hne, rfl, rfl⟩

/-- The inputs of a batch come from the two streams. -/
def Known (l : List Measurement) : Prop := ∀ m ∈ l, ∃ i : Lane, m.stream = i.stream

/-- The loop of `complete` counts each input once and cannot throw. -/
theorem foldlM_consume {l : List Measurement} (hl : Known l) (acc : Lanes Counts) (s : Snapshot) :
    ∃ acc', l.foldlM consume (acc, s) = .ok (acc', l.foldl Snapshot.keep s) ∧
      ∀ i, acc'.get i =
        { acc.get i with consumed := (acc.get i).consumed + (on i l).length } := by
  induction l generalizing acc s with
  | nil => exact ⟨acc, rfl, fun i => rfl⟩
  | cons m l ih =>
      obtain ⟨j, hj⟩ := hl m List.mem_cons_self
      obtain ⟨acc', hrun, hacc⟩ := ih (fun m' hm' => hl m' (List.mem_cons_of_mem _ hm'))
        (acc.set j { acc.get j with consumed := (acc.get j).consumed + 1 }) (s.keep m)
      refine ⟨acc', ?_, ?_⟩
      · rw [List.foldlM_cons]
        simp only [consume, index_eq_ok.mpr hj, bind, Except.bind, pure, Except.pure]
        exact hrun
      · intro i
        rw [hacc i, on_cons, hj, Lanes.get_set]
        by_cases hij : i = j
        · subst hij
          simp only [if_true, List.length_cons]
          congr 1
          omega
        · have hji : j.stream ≠ i.stream := fun h => hij (Lane.stream_inj.mp h).symm
          rw [if_neg hij, if_neg hji]

/-- `complete` retires the running batch, and only by its own id. -/
theorem complete_ok {s : Snapshot} (h : g.complete id t = .ok (s, g')) :
    ∃ b, g.running = some b ∧ b.id = id ∧ g.clockTime ≤ t ∧ (Known b.inputs →
      s = b.inputs.foldl Snapshot.keep { g.latest.getD {} with batchId := id, completed := t } ∧
      ∃ acc, g' = { g with
          clockTime := t
          accounting := acc
          latest := some s
          running := none } ∧
        ∀ i, acc.get i = { g.accounting.get i with
          consumed := (g.accounting.get i).consumed + (on i b.inputs).length }) := by
  simp only [Graph.complete, bind, Except.bind, pure, Except.pure] at h
  split at h
  · next b hb =>
    split at h
    · contradiction
    · next hid =>
      split at h
      · contradiction
      · next g₁ hg =>
        obtain ⟨ht, rfl⟩ := advance_eq_ok.mp hg
        refine ⟨b, hb, by simpa using hid, ht, fun hknown => ?_⟩
        obtain ⟨acc, hrun, hacc⟩ := foldlM_consume hknown g.accounting
          { g.latest.getD {} with batchId := id, completed := t }
        rw [hrun] at h
        cases h
        exact ⟨rfl, acc, rfl, hacc⟩
  · contradiction

/-- **Inversion** for `control`: the report, and the next tick. -/
theorem control_ok {c : Control} {setpoint maxImuAge : Nat}
    (h : g.control t setpoint maxImuAge = .ok (c, g')) :
    g.clockTime ≤ t ∧ g' = { g with clockTime := t, nextTick := g.nextTick + 1 } ∧ c = {
      tick := g.nextTick
      setpoint := setpoint
      release := t
      outcome := match g.latest.bind Snapshot.imu with
        | none => .missing
        | some m => if Graph.age t m ≤ maxImuAge then .usable else .stale
      snapshot := g.latest } := by
  simp only [Graph.control, bind, Except.bind, pure, Except.pure] at h
  split at h
  · contradiction
  · next g₁ hg =>
    obtain ⟨ht, rfl⟩ := advance_eq_ok.mp hg
    cases h
    exact ⟨ht, rfl, rfl⟩

end Calls

/-- The session after one more call. -/
def Session.after (s : Session) (c : Call) (r : Response) (g : Graph) : Session :=
  { graph := g, history := s.history ++ [(c, r)] }

/-- A call throws and is only noted, or it returns with a new graph. -/
inductive Made (s : Session) : Call → Session → Prop
  | threw (c : Call) (what : String) : Made s c (s.after c (.threw what) s.graph)
  | offer {m : Measurement} {t : Nat} {b : Bool} {g : Graph} (h : s.graph.offer m t = .ok (b, g)) :
      Made s (.offer m t) (s.after (.offer m t) (.offered b) g)
  | select {t : Nat} {o : Option Batch} {g : Graph} (h : s.graph.select t = .ok (o, g)) :
      Made s (.select t) (s.after (.select t) (.selected o) g)
  | complete {id t : Nat} {snapshot : Snapshot} {g : Graph}
      (h : s.graph.complete id t = .ok (snapshot, g)) :
      Made s (.complete id t) (s.after (.complete id t) (.completed snapshot) g)
  | control {t setpoint maxImuAge : Nat} {out : Control} {g : Graph}
      (h : s.graph.control t setpoint maxImuAge = .ok (out, g)) :
      Made s (.control t setpoint maxImuAge)
        (s.after (.control t setpoint maxImuAge) (.controlled out) g)

/-- **Inversion**: a call that returns, and what it has made. -/
theorem step_made {s s' : Session} {c : Call} (h : Session.step s c = some s') : Made s c s' := by
  cases h
  cases c with
  | offer m t =>
      simp only [Graph.call]
      cases ho : s.graph.offer m t with
      | ok p => exact .offer ho
      | error what => exact .threw _ what
  | select t =>
      simp only [Graph.call]
      cases ho : s.graph.select t with
      | ok p => exact .select ho
      | error what => exact .threw _ what
  | complete id t =>
      simp only [Graph.call]
      cases ho : s.graph.complete id t with
      | ok p => exact .complete ho
      | error what => exact .threw _ what
  | control t setpoint maxImuAge =>
      simp only [Graph.call]
      cases ho : s.graph.control t setpoint maxImuAge with
      | ok p => exact .control ho
      | error what => exact .threw _ what

/-! ## the books -/

/-- What the graph holds against what its history says. -/
structure Books (capacity limit : Nat) (s : Session) : Prop where
  sameCapacity : s.graph.capacity = capacity
  sameLimit : s.graph.limit = limit ∧ limit ≠ 0
  sorted : Sorted s.graph.inbox
  bounded : ∀ i, (s.graph.inbox.get i).length ≤ capacity
  known : ∀ b ∈ batches s.history, Known b.inputs
  sized : ∀ b ∈ batches s.history, 1 ≤ b.inputs.length ∧ b.inputs.length ≤ limit
  ids : (batches s.history).map (·.id) = List.range' 1 (batches s.history).length
  next : s.graph.nextBatch = (batches s.history).length + 1
  current : batches s.history = completedBatches s.history ++ s.graph.running.toList
  retired : (completedBatches s.history).map (·.id) = completions s.history
  entered : ∀ i, on i (accepted s.history) =
    inputsOn i (batches s.history) ++ s.graph.inbox.get i
  offered : ∀ i, (s.graph.accounting.get i).offered =
    (s.graph.accounting.get i).dropped + (on i (accepted s.history)).length
  consumed : ∀ i, (s.graph.accounting.get i).consumed =
    (inputsOn i (completedBatches s.history)).length

section Books

variable {capacity limit : Nat} {s : Session} {g : Graph} {c : Call} {r : Response}

/-- What a call adds to the accepted measurements. -/
theorem accepted_after : accepted (s.after c r g).history =
    accepted s.history ++ (accepted1 (c, r)).toList := by
  cases h : accepted1 (c, r) <;> simp [accepted, Session.after, h]

/-- What a call adds to the batches. -/
theorem batches_after : batches (s.after c r g).history =
    batches s.history ++ (selected1 (c, r)).toList := by
  cases h : selected1 (c, r) <;> simp [batches, Session.after, h]

/-- What a call adds to the completions. -/
theorem completions_after : completions (s.after c r g).history =
    completions s.history ++ (completed1 (c, r)).toList := by
  cases h : completed1 (c, r) <;> simp [completions, Session.after, h]

/-- A call that moves no measurement and no batch. -/
theorem Books.quiet (h : Books capacity limit s) (ha : accepted1 (c, r) = none)
    (hs : selected1 (c, r) = none) (hc : completed1 (c, r) = none)
    (hcap : g.capacity = s.graph.capacity) (hlim : g.limit = s.graph.limit)
    (hin : g.inbox = s.graph.inbox) (hrun : g.running = s.graph.running)
    (hnext : g.nextBatch = s.graph.nextBatch)
    (hoff : ∀ i, (g.accounting.get i).offered + (s.graph.accounting.get i).dropped =
      (s.graph.accounting.get i).offered + (g.accounting.get i).dropped)
    (hcon : ∀ i, (g.accounting.get i).consumed = (s.graph.accounting.get i).consumed) :
    Books capacity limit (s.after c r g) := by
  have h1 : accepted (s.after c r g).history = accepted s.history := by
    rw [accepted_after, ha, Option.toList, List.append_nil]
  have h2 : batches (s.after c r g).history = batches s.history := by
    rw [batches_after, hs, Option.toList, List.append_nil]
  have h3 : completions (s.after c r g).history = completions s.history := by
    rw [completions_after, hc, Option.toList, List.append_nil]
  have h4 : completedBatches (s.after c r g).history = completedBatches s.history := by
    rw [completedBatches, completedBatches, h2, h3]
  have hg : (s.after c r g).graph = g := rfl
  constructor <;> simp only [h1, h2, h3, h4, hg, hcap, hlim, hin, hrun, hnext, hcon]
  case offered =>
      intro i
      have hold := h.offered i
      have hi := hoff i
      omega
  all_goals first
    | exact h.sameCapacity
    | exact h.sameLimit
    | exact h.sorted
    | exact h.bounded
    | exact h.known
    | exact h.sized
    | exact h.ids
    | exact h.next
    | exact h.current
    | exact h.retired
    | exact h.entered
    | exact h.consumed

/-- A list filter by the ids of its first part finds that part. -/
theorem filter_retired (done rest : List Batch) {ids : List Nat}
    (hids : done.map (·.id) = ids) (hrest : ∀ b ∈ rest, b.id ∉ ids) :
    (done ++ rest).filter (·.id ∈ ids) = done := by
  rw [List.filter_append, List.filter_eq_self.mpr, List.filter_eq_nil_iff.mpr, List.append_nil]
  · intro b hb
    simpa using hrest b hb
  · intro b hb
    simpa [← hids] using ⟨b, hb, rfl⟩

/-- A measurement that finds its inbox full is dropped. -/
theorem Books.drop (h : Books capacity limit s) {m : Measurement} {t : Nat} {i : Lane}
    (hg : g = { s.graph with
      clockTime := t
      lastSequence := s.graph.lastSequence.set i (some m.sequence)
      accounting := s.graph.accounting.set i { s.graph.accounting.get i with
        offered := (s.graph.accounting.get i).offered + 1
        dropped := (s.graph.accounting.get i).dropped + 1 } }) :
    Books capacity limit (s.after (.offer m t) (.offered false) g) := by
  have hacc : ∀ j, g.accounting.get j = if j = i then { s.graph.accounting.get i with
      offered := (s.graph.accounting.get i).offered + 1
      dropped := (s.graph.accounting.get i).dropped + 1 } else s.graph.accounting.get j := by
    intro j
    rw [hg, Lanes.get_set]
  refine h.quiet rfl rfl rfl (by rw [hg]) (by rw [hg]) (by rw [hg]) (by rw [hg]) (by rw [hg])
    ?_ ?_
  · intro j
    rw [hacc j]
    by_cases hj : j = i
    · subst hj
      simp only [if_true]
      omega
    · simp only [if_neg hj]
  · intro j
    rw [hacc j]
    by_cases hj : j = i
    · subst hj
      simp only [if_true]
    · simp only [if_neg hj]

/-- A measurement that is accepted waits in its inbox. -/
theorem Books.enter (h : Books capacity limit s) {m : Measurement} {t : Nat} {i : Lane}
    (hm : m.stream = i.stream) (hroom : (s.graph.inbox.get i).length ≠ s.graph.capacity)
    (hg : g = { s.graph with
      clockTime := t
      lastSequence := s.graph.lastSequence.set i (some m.sequence)
      accounting := s.graph.accounting.set i { s.graph.accounting.get i with
        offered := (s.graph.accounting.get i).offered + 1 }
      inbox := s.graph.inbox.set i (s.graph.inbox.get i ++ [m]) }) :
    Books capacity limit (s.after (.offer m t) (.offered true) g) := by
  have h1 : accepted (s.after (.offer m t) (.offered true) g).history =
      accepted s.history ++ [m] := accepted_after
  have h2 : batches (s.after (.offer m t) (.offered true) g).history = batches s.history :=
    batches_after.trans (List.append_nil _)
  have h3 : completions (s.after (.offer m t) (.offered true) g).history =
      completions s.history := completions_after.trans (List.append_nil _)
  have h4 : completedBatches (s.after (.offer m t) (.offered true) g).history =
      completedBatches s.history := by
    rw [completedBatches, completedBatches, h2, h3]
  have hin : ∀ j, g.inbox.get j =
      if j = i then s.graph.inbox.get i ++ [m] else s.graph.inbox.get j := by
    intro j
    rw [hg, Lanes.get_set]
  have hon : ∀ j, on j [m] = if j = i then [m] else [] := by
    intro j
    by_cases hj : j = i
    · subst hj
      simp [on, hm]
    · have hne : m.stream ≠ j.stream := fun h => hj (Lane.stream_inj.mp (h.symm.trans hm))
      simp [on, hj, hne]
  have hacc : ∀ j, g.accounting.get j = if j = i then { s.graph.accounting.get i with
      offered := (s.graph.accounting.get i).offered + 1 } else s.graph.accounting.get j := by
    intro j
    rw [hg, Lanes.get_set]
  have hcap : g.capacity = s.graph.capacity := by rw [hg]
  have hlim : g.limit = s.graph.limit := by rw [hg]
  have hnext : g.nextBatch = s.graph.nextBatch := by rw [hg]
  have hrun : g.running = s.graph.running := by rw [hg]
  have hgraph : (s.after (.offer m t) (.offered true) g).graph = g := rfl
  clear hg
  constructor <;> simp only [h1, h2, h3, h4, hgraph, hcap, hlim, hnext, hrun]
  case sameCapacity => exact h.sameCapacity
  case sameLimit => exact h.sameLimit
  case sorted =>
      intro j m' hm'
      rw [hin j] at hm'
      split at hm'
      · next hj =>
        subst hj
        obtain hm' | hm' := List.mem_append.mp hm'
        · exact h.sorted j m' hm'
        · rw [List.mem_singleton.mp hm', hm]
      · exact h.sorted j m' hm'
  case bounded =>
      intro j
      rw [hin j]
      split
      · next hj =>
        subst hj
        have hle := h.bounded j
        rw [h.sameCapacity] at hroom
        rw [List.length_append, List.length_singleton]
        omega
      · exact h.bounded j
  case known => exact h.known
  case sized => exact h.sized
  case ids => exact h.ids
  case next => exact h.next
  case current => exact h.current
  case retired => exact h.retired
  case entered =>
      intro j
      rw [on_append, h.entered j, hin j, hon j]
      split
      · next hj => rw [hj, List.append_assoc]
      · rw [List.append_nil]
  case offered =>
      intro j
      have hold := h.offered j
      rw [on_append, hon j, hacc j]
      split
      · next hj =>
        subst hj
        simp only [List.length_append, List.length_singleton]
        omega
      · simpa using hold
  case consumed =>
      intro j
      rw [hacc j]
      split
      · next hj =>
        subst hj
        exact h.consumed j
      · exact h.consumed j

/-- Offering keeps the books. -/
theorem Books.offer (h : Books capacity limit s) {m : Measurement} {t : Nat} {b : Bool}
    (ho : s.graph.offer m t = .ok (b, g)) :
    Books capacity limit (s.after (.offer m t) (.offered b) g) := by
  obtain ⟨i, hm, -, -, ⟨hfull, rfl, hg⟩ | ⟨hroom, rfl, hg⟩⟩ := offer_ok ho
  · exact h.drop hg
  · exact h.enter hm hroom hg

/-- Selecting keeps the books. -/
theorem Books.select (h : Books capacity limit s) {t : Nat} {o : Option Batch}
    (hs : s.graph.select t = .ok (o, g)) :
    Books capacity limit (s.after (.select t) (.selected o) g) := by
  obtain ⟨-, ⟨rfl, hg⟩ | ⟨hidle, hne, rfl, hg⟩⟩ := select_ok hs
  · have hin : g.inbox = s.graph.inbox := by
      obtain ⟨-, rfl⟩ | ⟨-, hnil, rfl⟩ := hg
      · rfl
      · have hlim : s.graph.limit ≠ 0 := by
          rw [h.sameLimit.1]
          exact h.sameLimit.2
        exact (fill_eq_nil hlim hnil).2
    have hrest : g.capacity = s.graph.capacity ∧ g.limit = s.graph.limit ∧
        g.running = s.graph.running ∧ g.nextBatch = s.graph.nextBatch ∧
        g.accounting = s.graph.accounting := by
      obtain ⟨-, rfl⟩ | ⟨-, -, rfl⟩ := hg <;> exact ⟨rfl, rfl, rfl, rfl, rfl⟩
    obtain ⟨h1, h2, h3, h4, h5⟩ := hrest
    exact h.quiet rfl rfl rfl h1 h2 hin h3 h4 (fun i => by rw [h5]) fun i => by rw [h5]
  · obtain ⟨hfill, hlen, hknown⟩ := fill_spec s.graph.limit h.sorted
    generalize hinputs : (fill s.graph.limit s.graph.inbox).1 = inputs at *
    generalize hinbox : (fill s.graph.limit s.graph.inbox).2 = inbox at *
    have h1 :
        accepted (s.after (.select t) (.selected (some ⟨s.graph.nextBatch, inputs⟩)) g).history =
        accepted s.history := accepted_after.trans (List.append_nil _)
    have h2 :
        batches (s.after (.select t) (.selected (some ⟨s.graph.nextBatch, inputs⟩)) g).history =
        batches s.history ++ [⟨s.graph.nextBatch, inputs⟩] := batches_after
    have h3 : completions
        (s.after (.select t) (.selected (some ⟨s.graph.nextBatch, inputs⟩)) g).history =
        completions s.history := completions_after.trans (List.append_nil _)
    have hold : batches s.history = completedBatches s.history := by
      simpa [hidle] using h.current
    have hnew : s.graph.nextBatch ∉ completions s.history := by
      rw [← h.retired, ← hold, h.ids, h.next]
      simp only [List.mem_range'_1]
      omega
    have h4 : completedBatches
        (s.after (.select t) (.selected (some ⟨s.graph.nextBatch, inputs⟩)) g).history =
        completedBatches s.history := by
      have hsplit := filter_retired (completedBatches s.history) [⟨s.graph.nextBatch, inputs⟩]
        h.retired (by intro b hb; rw [List.mem_singleton.mp hb]; exact hnew)
      rw [completedBatches, h2, h3]
      rw [← hold] at hsplit ⊢
      exact hsplit
    have hgraph : (s.after (.select t)
        (.selected (some ⟨s.graph.nextBatch, inputs⟩)) g).graph = g := rfl
    constructor <;> simp only [h1, h2, h3, h4, hgraph, List.length_append, List.length_singleton]
    case sameCapacity => rw [hg]; exact h.sameCapacity
    case sameLimit => rw [hg]; exact h.sameLimit
    case sorted =>
        intro i m hm
        rw [hg] at hm
        exact h.sorted i m (by rw [← hfill i]; exact List.mem_append_right _ hm)
    case bounded =>
        intro i
        have hle := h.bounded i
        rw [← hfill i, List.length_append] at hle
        rw [hg]
        exact Nat.le_trans (Nat.le_add_left _ _) hle
    case known =>
        intro b hb
        obtain hb | hb := List.mem_append.mp hb
        · exact h.known b hb
        · rw [List.mem_singleton.mp hb]
          exact hknown
    case sized =>
        intro b hb
        obtain hb | hb := List.mem_append.mp hb
        · exact h.sized b hb
        · rw [List.mem_singleton.mp hb, ← h.sameLimit.1]
          exact ⟨List.length_pos_iff.mpr hne, hlen⟩
    case ids =>
        rw [List.map_append, h.ids, List.range'_concat, h.next]
        simp only [List.map_cons, List.map_nil, Nat.one_mul]
        rw [Nat.add_comm]
    case next => rw [hg, ← h.next]
    case current => rw [hg, ← hold]; rfl
    case retired => exact h.retired
    case entered =>
        intro i
        rw [h.entered i, inputsOn_append, hg, ← hfill i, List.append_assoc]
        simp [inputsOn]
    case offered => rw [hg]; exact h.offered
    case consumed => rw [hg]; exact h.consumed

/-- Completing keeps the books. -/
theorem Books.complete (h : Books capacity limit s) {id t : Nat} {snapshot : Snapshot}
    (hs : s.graph.complete id t = .ok (snapshot, g)) :
    Books capacity limit (s.after (.complete id t) (.completed snapshot) g) := by
  obtain ⟨b, hb, rfl, -, hk⟩ := complete_ok hs
  have hcur : batches s.history = completedBatches s.history ++ [b] := by
    simpa [hb] using h.current
  obtain ⟨-, acc, hg, hacc⟩ := hk (h.known b (by rw [hcur]; simp))
  have h1 : accepted (s.after (.complete b.id t) (.completed snapshot) g).history =
      accepted s.history := accepted_after.trans (List.append_nil _)
  have h2 : batches (s.after (.complete b.id t) (.completed snapshot) g).history =
      batches s.history := batches_after.trans (List.append_nil _)
  have h3 : completions (s.after (.complete b.id t) (.completed snapshot) g).history =
      completions s.history ++ [b.id] := completions_after
  have h4 : completedBatches (s.after (.complete b.id t) (.completed snapshot) g).history =
      batches s.history := by
    have hids : (batches s.history).map (·.id) = completions s.history ++ [b.id] := by
      rw [hcur, List.map_append, h.retired]
      rfl
    have hsplit := filter_retired (batches s.history) [] hids nofun
    rw [completedBatches, h2, h3]
    rwa [List.append_nil] at hsplit
  have hgraph : (s.after (.complete b.id t) (.completed snapshot) g).graph = g := rfl
  constructor <;> simp only [h1, h2, h3, h4, hgraph]
  case sameCapacity => rw [hg]; exact h.sameCapacity
  case sameLimit => rw [hg]; exact h.sameLimit
  case sorted => rw [hg]; exact h.sorted
  case bounded => rw [hg]; exact h.bounded
  case known => exact h.known
  case sized => exact h.sized
  case ids => exact h.ids
  case next => rw [hg]; exact h.next
  case current => rw [hg]; simp
  case retired => rw [hcur, List.map_append, h.retired]; rfl
  case entered => rw [hg]; exact h.entered
  case offered =>
      intro i
      rw [hg, hacc i]
      exact h.offered i
  case consumed =>
      intro i
      rw [hg, hacc i, hcur, inputsOn_append, List.length_append, ← h.consumed i]
      simp [inputsOn]

/-- Controlling keeps the books. -/
theorem Books.control (h : Books capacity limit s) {t setpoint maxImuAge : Nat} {out : Control}
    (hs : s.graph.control t setpoint maxImuAge = .ok (out, g)) :
    Books capacity limit (s.after (.control t setpoint maxImuAge) (.controlled out) g) := by
  obtain ⟨-, rfl, -⟩ := control_ok hs
  exact h.quiet rfl rfl rfl rfl rfl rfl rfl rfl (fun i => rfl) fun i => rfl

/-- A call that throws is only noted. -/
theorem Books.threw (h : Books capacity limit s) (c : Call) (what : String) :
    Books capacity limit (s.after c (.threw what) s.graph) :=
  h.quiet (by cases c <;> rfl) rfl (by cases c <;> rfl) rfl rfl rfl rfl rfl (fun i => rfl)
    fun i => rfl

/-- Every call, successful or not, keeps the books. -/
theorem step_books (capacity limit : Nat) :
    Steps.Preserved Session.step (Books capacity limit) := by
  intro s c s' h hs
  cases step_made hs with
  | threw _ what => exact h.threw c what
  | offer ho => exact h.offer ho
  | select ho => exact h.select ho
  | complete ho => exact h.complete ho
  | control ho => exact h.control ho

/-- The books of a new graph. -/
theorem make_books (h : Graph.make capacity limit = .ok g) :
    Books capacity limit { graph := g } := by
  unfold Graph.make at h
  split at h
  · contradiction
  · next hpos =>
    cases h
    exact ⟨rfl, ⟨rfl, by omega⟩, fun i => by cases i <;> nofun,
      fun i => by cases i <;> exact Nat.zero_le _,
      nofun, nofun, rfl, rfl, rfl, rfl, fun i => by cases i <;> rfl, fun i => by cases i <;> rfl,
      fun i => by cases i <;> rfl⟩

/-- The books balance in every reachable state. -/
theorem Reachable.books (h : Reachable capacity limit s) : Books capacity limit s := by
  obtain ⟨g, calls, hg, hrun⟩ := h
  exact (step_books capacity limit).exec (make_books hg) hrun

/-! ## conservation -/

/-- Conservation and exactly-once consumption. -/
structure Conserved (capacity limit : Nat) (s : Session) : Prop where
  balance : ∀ i : Lane, ∃ counts pending, s.graph.counts i.stream = .ok counts ∧
    s.graph.pending i.stream = .ok pending ∧ pending ≤ capacity ∧
    counts.offered = counts.dropped + counts.consumed + pending + s.graph.inFlight i.stream
  batchSize : ∀ b, s.graph.running = some b → 1 ≤ b.inputs.length ∧ b.inputs.length ≤ limit
  /-- `offer` returns false exactly on a full inbox. -/
  full : ∀ m t accepted g, s.graph.offer m t = .ok (accepted, g) →
    (accepted = false ↔ s.graph.pending m.stream = .ok capacity)
  /-- Consumed, in flight and pending measurements are, in this order, the
  accepted ones. -/
  order : ∀ i : Lane, inputsOn i (completedBatches s.history) ++
    inputsOn i s.graph.running.toList ++ s.graph.inbox.get i = on i (accepted s.history)
  current : batches s.history = completedBatches s.history ++ s.graph.running.toList
  ids : (batches s.history).map (·.id) = List.range' 1 (batches s.history).length
  /-- Completions name the completed batches, each once and in order. -/
  retired : completions s.history = (completedBatches s.history).map (·.id)
  completedOnce : (completions s.history).Nodup
  owner : ∀ id t snapshot g, s.graph.complete id t = .ok (snapshot, g) →
    ∃ b, s.graph.running = some b ∧ b.id = id
  exclusive : ∀ t b g, s.graph.select t = .ok (some b, g) → s.graph.running = none

/-- Each lane is the index of its stream. -/
theorem index_stream (i : Lane) : index i.stream = .ok i := index_eq_ok.mpr rfl

/-- In flight are the inputs of the running batch. -/
theorem inFlight_eq (g : Graph) (i : Lane) :
    g.inFlight i.stream = (inputsOn i g.running.toList).length := by
  unfold Graph.inFlight
  cases g.running with
  | none => rfl
  | some b => simp [inputsOn, on, List.countP_eq_length_filter]

/-- **Conservation**: whatever calls are made, measurements are neither lost
nor used twice. -/
theorem calls_conserve_measurements (h : Reachable capacity limit s) :
    Conserved capacity limit s := by
  have hb := h.books
  have hnodup : ((completedBatches s.history).map (·.id)).Nodup := by
    have hids : ((batches s.history).map (·.id)).Nodup := by
      rw [hb.ids]
      exact List.nodup_range'
    rw [hb.current, List.map_append] at hids
    exact (List.nodup_append.mp hids).1
  have horder : ∀ i : Lane, inputsOn i (completedBatches s.history) ++
      inputsOn i s.graph.running.toList ++ s.graph.inbox.get i = on i (accepted s.history) := by
    intro i
    rw [hb.entered i, hb.current, inputsOn_append]
  constructor
  case balance =>
      intro i
      refine ⟨s.graph.accounting.get i, (s.graph.inbox.get i).length, ?_, ?_, hb.bounded i, ?_⟩
      · simp only [Graph.counts, index_stream]
        rfl
      · simp only [Graph.pending, index_stream]
        rfl
      · have hlen := congrArg List.length (horder i)
        have hoff := hb.offered i
        have hcon := hb.consumed i
        rw [inFlight_eq]
        simp only [List.length_append] at hlen
        omega
  case batchSize =>
      intro b hrun
      refine hb.sized b ?_
      rw [hb.current, hrun]
      simp
  case full =>
      intro m t accepted g ho
      obtain ⟨i, hm, -, -, hcase⟩ := offer_ok ho
      have hpending : s.graph.pending m.stream = .ok (s.graph.inbox.get i).length := by
        simp only [Graph.pending, hm, index_stream]
        rfl
      rw [hpending, Except.ok.injEq, ← hb.sameCapacity]
      obtain ⟨hfull, rfl, -⟩ | ⟨hroom, rfl, -⟩ := hcase
      · exact ⟨fun _ => hfull, fun _ => rfl⟩
      · exact ⟨nofun, fun h => absurd h hroom⟩
  case order => exact horder
  case current => exact hb.current
  case ids => exact hb.ids
  case retired => exact hb.retired.symm
  case completedOnce => rwa [← hb.retired]
  case owner =>
      intro id t snapshot g hc
      obtain ⟨b, hrun, hid, -⟩ := complete_ok hc
      exact ⟨b, hrun, hid⟩
  case exclusive =>
      intro t b g hs
      obtain ⟨-, ⟨ho, -⟩ | ⟨hidle, -⟩⟩ := select_ok hs
      · contradiction
      · exact hidle

/-- A run with a drop, a rejected completion and a batch in flight. -/
def tourCalls : List Call :=
  [.offer ⟨.imu, 1, 1⟩ 1, .offer ⟨.camera, 1, 2⟩ 2, .offer ⟨.imu, 2, 3⟩ 3, .offer ⟨.imu, 3, 3⟩ 3,
    .select 3, .complete 2 4, .complete 1 4, .select 5, .control 6 42 10]

def tourSession : Session :=
  (Steps.exec Session.step { graph := { capacity := 2, limit := 2 } } tourCalls).getD
    { graph := { capacity := 0, limit := 0 } }

/-- The tour is a reachable session. -/
theorem tour_reachable : Reachable 2 2 tourSession :=
  ⟨{ capacity := 2, limit := 2 }, tourCalls, rfl, by rfl⟩

/-- The IMU measurements that the tour has had accepted. -/
theorem calls_conserve_measurements_tour :
    on .imu (accepted tourSession.history) = [⟨.imu, 1, 1⟩, ⟨.imu, 2, 3⟩] :=
  ((calls_conserve_measurements tour_reachable).order .imu).symm

end Books

end ScxSlam.DependentGraph
