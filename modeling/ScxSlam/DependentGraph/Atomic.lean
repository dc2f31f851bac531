import ScxSlam.DependentGraph.History
import ScxSlam.Lib.Calls

/-!
# ScxSlam.DependentGraph.Atomic

The methods of `Graph` statement by statement, each assignment where the code
has it: an exception keeps whatever was assigned before it.  On the graphs a
program can reach they do what the functions of `ScxSlam.DependentGraph.Graph`
say, so a method that throws has assigned nothing.
-/

namespace ScxSlam.DependentGraph

/-- A method: exceptions do not undo assignments. -/
abbrev Method (α : Type) := ExceptT String (StateM Graph) α

namespace Method

/-- The result of a method, and the graph it leaves. -/
def apply {α : Type} (m : Method α) (g : Graph) : Except String α × Graph := m.run g

/-! ## the methods -/

def index (s : Stream) : Method Lane :=
  match DependentGraph.index s with
  | .ok i => pure i
  | .error what => throw what

def advance (t : Nat) : Method Unit := do
  if t < (← get).clockTime then throw "clock moved backwards"
  modify fun g => { g with clockTime := t }

/-- `accounting[i]` changes. -/
def account (i : Lane) (f : Counts → Counts) : Method Unit :=
  modify fun g => { g with accounting := g.accounting.set i (f (g.accounting.get i)) }

def offer (m : Measurement) (arrival : Nat) : Method Bool := do
  let i ← index m.stream
  if m.sourceTime > arrival ∨ ∃ last ∈ (← get).lastSequence.get i, m.sequence ≤ last then
    throw "invalid measurement identity/time"
  advance arrival
  modify fun g => { g with lastSequence := g.lastSequence.set i (some m.sequence) }
  account i fun counts => { counts with offered := counts.offered + 1 }
  let g ← get
  if (g.inbox.get i).length = g.capacity then
    account i fun counts => { counts with dropped := counts.dropped + 1 }
    return false
  modify fun g => { g with inbox := g.inbox.set i (g.inbox.get i ++ [m]) }
  return true

/-- The loop of `select`, with `b.inputs` and the room left in it. -/
def fill : Nat → List Measurement → Method (List Measurement)
  | 0, inputs => return inputs
  | room + 1, inputs => do
      match pick (← get).inbox with
      | none => return inputs
      | some (m, rest) =>
          modify fun g => { g with inbox := rest }
          fill room (inputs ++ [m])

def select (t : Nat) : Method (Option Batch) := do
  advance t
  let g ← get
  if g.running.isSome then return none
  let inputs ← fill g.limit []
  if inputs = [] then return none
  let b : Batch := { id := g.nextBatch, inputs := inputs }
  modify fun g => { g with nextBatch := g.nextBatch + 1 }
  modify fun g => { g with running := some b }
  return some b

/-- The loop of `complete`, with `s` and what is left of the inputs. -/
def consume (s : Snapshot) : List Measurement → Method Snapshot
  | [] => return s
  | m :: inputs => do
      let i ← index m.stream
      account i fun counts => { counts with consumed := counts.consumed + 1 }
      consume (s.keep m) inputs

def complete (id t : Nat) : Method Snapshot := do
  match (← get).running with
  | none => throw "wrong completion owner"
  | some b =>
      if b.id ≠ id then throw "wrong completion owner"
      advance t
      let s ← consume { (← get).latest.getD {} with batchId := id, completed := t } b.inputs
      modify fun g => { g with latest := some s }
      modify fun g => { g with running := none }
      return s

def control (t setpoint maxImuAge : Nat) : Method Control := do
  advance t
  let g ← get
  let outcome := match g.latest.bind Snapshot.imu with
    | none => .missing
    | some m => if Graph.age t m ≤ maxImuAge then .usable else .stale
  modify fun g => { g with nextTick := g.nextTick + 1 }
  return {
    tick := g.nextTick
    setpoint := setpoint
    release := t
    outcome := outcome
    snapshot := (← get).latest }

/-- How a method ended, with the graph it left. -/
def answer {α : Type} (respond : α → Response) (m : Method α) (g : Graph) : Response × Graph :=
  match m.apply g with
  | (.ok a, g') => (respond a, g')
  | (.error what, g') => (.threw what, g')

/-- One call. -/
def call (g : Graph) : Call → Response × Graph
  | .offer m arrival => (offer m arrival).answer .offered g
  | .select t => (select t).answer .selected g
  | .complete id t => (complete id t).answer .completed g
  | .control t setpoint maxImuAge => (control t setpoint maxImuAge).answer .controlled g

/-! ## running a method -/

section Run

variable {α β : Type} {g g' : Graph} {m : Measurement} {t id : Nat}

/-- The second half of a method runs if the first one returns. -/
theorem apply_bind (m : Method α) (f : α → Method β) (g : Graph) : (m >>= f).apply g =
    match m.apply g with
    | (.ok a, g') => (f a).apply g'
    | (.error what, g') => (.error what, g') := by
  have hrun : ∀ p : Except String α × Graph, (ExceptT.run m).run g = p →
      (m >>= f).apply g = match p with
        | (.ok a, g') => (f a).apply g'
        | (.error what, g') => (.error what, g') := by
    rintro ⟨r, g'⟩ hp
    unfold apply
    show (ExceptT.run (m >>= f)).run g = _
    rw [ExceptT.run_bind, StateT.run_bind, hp]
    cases r <;> rfl
  exact hrun _ rfl

@[simp] theorem apply_pure (a : α) (g : Graph) : apply (pure a) g = (.ok a, g) := rfl

@[simp] theorem apply_throw (what : String) (g : Graph) :
    apply (throw what : Method α) g = (.error what, g) := rfl

@[simp] theorem apply_get (g : Graph) : apply get g = (.ok g, g) := rfl

@[simp] theorem apply_modify (f : Graph → Graph) (g : Graph) :
    apply (modify f) g = (.ok (), f g) := rfl

/-- What a function says of a method: the graph of an error is the one before. -/
def settled (g : Graph) : Except String (α × Graph) → Except String α × Graph
  | .ok (a, g') => (.ok a, g')
  | .error what => (.error what, g)

/-- `index` touches nothing. -/
theorem index_apply (s : Stream) (g : Graph) : (index s).apply g = (DependentGraph.index s, g) := by
  unfold index
  cases DependentGraph.index s <;> rfl

/-- `advance` assigns behind its check. -/
theorem advance_apply (t : Nat) (g : Graph) :
    (advance t).apply g = settled g ((g.advance t).map fun g' => ((), g')) := by
  unfold advance Graph.advance
  rw [apply_bind, apply_get]
  dsimp only
  split <;> rfl

/-- `offer` assigns nothing before it throws. -/
theorem offer_apply (m : Measurement) (t : Nat) (g : Graph) :
    (offer m t).apply g = settled g (g.offer m t) := by
  unfold offer
  rw [apply_bind, index_apply]
  cases hi : DependentGraph.index m.stream with
  | error what =>
      simp [Graph.offer, hi, settled, bind, Except.bind]
  | ok i =>
      dsimp only
      rw [apply_bind, apply_get]
      dsimp only
      by_cases hinvalid : m.sourceTime > t ∨ ∃ last ∈ g.lastSequence.get i, m.sequence ≤ last
      · rw [if_pos hinvalid, apply_bind, apply_throw]
        simp only [Graph.offer, hi, bind, Except.bind, if_pos hinvalid]
        rfl
      · rw [if_neg hinvalid, apply_bind, advance_apply]
        cases hadv : g.advance t with
        | error what =>
            simp only [Graph.offer, hi, bind, Except.bind, if_neg hinvalid, hadv]
            rfl
        | ok g₁ =>
            simp only [Except.map, settled, apply_bind, apply_modify, apply_get, account]
            by_cases hfull : (g₁.inbox.get i).length = g₁.capacity
            · simp only [if_pos hfull, apply_bind, apply_modify, apply_pure]
              simp only [Graph.offer, hi, bind, Except.bind, if_neg hinvalid, hadv, if_pos hfull]
              simp [pure, Except.pure]
            · simp only [if_neg hfull, apply_bind, apply_modify, apply_pure]
              simp only [Graph.offer, hi, bind, Except.bind, if_neg hinvalid, hadv, if_neg hfull]
              rfl

/-- The loop of `select` takes what `fill` takes. -/
theorem fill_apply (room : Nat) (inputs : List Measurement) (g : Graph) :
    (fill room inputs).apply g = (.ok (inputs ++ (DependentGraph.fill room g.inbox).1),
      { g with inbox := (DependentGraph.fill room g.inbox).2 }) := by
  induction room generalizing inputs g with
  | zero => simp [fill, DependentGraph.fill]
  | succ room ih =>
      rw [fill, apply_bind, apply_get]
      dsimp only
      cases hpick : pick g.inbox with
      | none => simp [DependentGraph.fill, hpick]
      | some p =>
          obtain ⟨m, rest⟩ := p
          dsimp only
          rw [apply_bind, apply_modify]
          dsimp only
          rw [ih]
          simp [DependentGraph.fill, hpick]

/-- `select` assigns nothing before it throws. -/
theorem select_apply (t : Nat) (g : Graph) :
    (select t).apply g = settled g (g.select t) := by
  unfold select
  rw [apply_bind, advance_apply]
  cases hadv : g.advance t with
  | error what =>
      simp only [Graph.select, bind, Except.bind, hadv]
      rfl
  | ok g₁ =>
      simp only [Except.map, settled, apply_bind, apply_get]
      by_cases hrun : g₁.running.isSome = true
      · simp only [if_pos hrun, apply_pure]
        simp only [Graph.select, bind, Except.bind, hadv, if_pos hrun]
        rfl
      · simp only [if_neg hrun, apply_bind, fill_apply, List.nil_append]
        by_cases hnil : (DependentGraph.fill g₁.limit g₁.inbox).1 = []
        · simp only [if_pos hnil, apply_pure]
          simp only [Graph.select, bind, Except.bind, hadv, if_neg hrun, if_pos hnil]
          rfl
        · simp only [if_neg hnil, apply_bind, apply_modify, apply_pure]
          simp only [Graph.select, bind, Except.bind, hadv, if_neg hrun, if_neg hnil]
          rfl

/-- The loop of `complete` runs through on inputs of known streams. -/
theorem consume_apply {inputs : List Measurement} (hknown : Known inputs) (s : Snapshot)
    (g : Graph) : ∃ acc s', inputs.foldlM DependentGraph.consume (g.accounting, s) = .ok (acc, s') ∧
      (consume s inputs).apply g = (.ok s', { g with accounting := acc }) := by
  induction inputs generalizing s g with
  | nil => exact ⟨g.accounting, s, rfl, rfl⟩
  | cons m inputs ih =>
      obtain ⟨i, hi⟩ := hknown m List.mem_cons_self
      have hindex : DependentGraph.index m.stream = .ok i := index_eq_ok.mpr hi
      let counts := g.accounting.get i
      obtain ⟨acc, s', hfold, hrun⟩ := ih (fun m' hm' => hknown m' (List.mem_cons_of_mem _ hm'))
        (s.keep m) { g with
          accounting := g.accounting.set i { counts with consumed := counts.consumed + 1 } }
      refine ⟨acc, s', ?_, ?_⟩
      · rw [List.foldlM_cons]
        simp only [DependentGraph.consume, hindex, bind, Except.bind, pure, Except.pure]
        exact hfold
      · rw [consume, apply_bind, index_apply, hindex]
        dsimp only
        rw [apply_bind, account, apply_modify]
        exact hrun

/-- `complete` throws before its loop, as the inputs of a batch are of known
streams. -/
theorem complete_apply (id t : Nat) (g : Graph) (hknown : ∀ b ∈ g.running, Known b.inputs) :
    (complete id t).apply g = settled g (g.complete id t) := by
  unfold complete
  rw [apply_bind, apply_get]
  cases hrun : g.running with
  | none =>
      simp only [Graph.complete, hrun]
      rfl
  | some b =>
      dsimp only
      rw [hrun]
      dsimp only
      by_cases hid : b.id ≠ id
      · rw [if_pos hid, apply_bind, apply_throw]
        simp only [Graph.complete, bind, Except.bind, hrun, if_pos hid]
        rfl
      · rw [if_neg hid, apply_bind, advance_apply]
        cases hadv : g.advance t with
        | error what =>
            simp only [Graph.complete, bind, Except.bind, hrun, if_neg hid, hadv]
            rfl
        | ok g₁ =>
            obtain ⟨-, hg⟩ := advance_eq_ok.mp hadv
            obtain ⟨acc, s, hfold, hconsume⟩ := consume_apply (hknown b hrun)
              { g₁.latest.getD {} with batchId := id, completed := t } g₁
            simp only [Except.map, settled, apply_bind, apply_get, hconsume, apply_modify,
              apply_pure]
            simp only [Graph.complete, bind, Except.bind, hrun, if_neg hid, hadv, hfold]
            rfl

/-- `control` assigns nothing before it throws. -/
theorem control_apply (t setpoint maxImuAge : Nat) (g : Graph) :
    (control t setpoint maxImuAge).apply g = settled g (g.control t setpoint maxImuAge) := by
  unfold control
  rw [apply_bind, advance_apply]
  cases hadv : g.advance t with
  | error what =>
      simp only [Graph.control, bind, Except.bind, hadv]
      rfl
  | ok g₁ =>
      simp only [Except.map, settled, apply_bind, apply_get, apply_modify, apply_pure]
      simp only [Graph.control, bind, Except.bind, hadv]
      rfl

end Run

end Method

/-! ## the graphs a program can reach -/

section Reach

variable {capacity limit : Nat} {g g' : Graph}

/-- Inboxes and the running batch hold measurements of the two streams. -/
structure Stored (g : Graph) : Prop where
  inbox : Sorted g.inbox
  running : ∀ b ∈ g.running, Known b.inputs

/-- Offering stores measurements of known streams only. -/
theorem Stored.offer {m : Measurement} {t : Nat} {b : Bool} (h : Stored g)
    (ho : g.offer m t = .ok (b, g')) : Stored g' := by
  obtain ⟨i, hm, -, -, ⟨-, -, rfl⟩ | ⟨-, -, rfl⟩⟩ := offer_ok ho
  · exact ⟨h.inbox, h.running⟩
  · refine ⟨?_, h.running⟩
    intro j m' hm'
    rw [Lanes.get_set] at hm'
    split at hm'
    · next hj =>
      subst hj
      obtain hm' | hm' := List.mem_append.mp hm'
      · exact h.inbox j m' hm'
      · rw [List.mem_singleton.mp hm', hm]
    · exact h.inbox j m' hm'

/-- Selecting takes what was stored. -/
theorem Stored.select {t : Nat} {o : Option Batch} (h : Stored g)
    (hs : g.select t = .ok (o, g')) : Stored g' := by
  obtain ⟨hinbox, -, hknown⟩ := fill_spec g.limit h.inbox
  have hrest : Sorted (fill g.limit g.inbox).2 := by
    intro i m hm
    exact h.inbox i m (hinbox i ▸ List.mem_append_right _ hm)
  obtain ⟨-, ⟨-, ⟨-, rfl⟩ | ⟨-, -, rfl⟩⟩ | ⟨-, -, -, rfl⟩⟩ := select_ok hs
  · exact ⟨h.inbox, h.running⟩
  · exact ⟨hrest, h.running⟩
  · refine ⟨hrest, ?_⟩
    intro b hb
    cases hb
    exact hknown

/-- Completing stores nothing. -/
theorem Stored.complete {id t : Nat} {snapshot : Snapshot} (h : Stored g)
    (hc : g.complete id t = .ok (snapshot, g')) : Stored g' := by
  obtain ⟨b, hb, -, -, hg⟩ := complete_ok hc
  obtain ⟨-, acc, rfl, -⟩ := hg (h.running b hb)
  exact ⟨h.inbox, nofun⟩

/-- Controlling stores nothing. -/
theorem Stored.control {t setpoint maxImuAge : Nat} {selection : Control} (h : Stored g)
    (hc : g.control t setpoint maxImuAge = .ok (selection, g')) : Stored g' := by
  obtain ⟨-, rfl, -⟩ := control_ok hc
  exact ⟨h.inbox, h.running⟩

/-- What a finished call leaves. -/
theorem Stored.respond {α : Type} {f : α → Response} {r : Except String (α × Graph)}
    (h : Stored g) (hok : ∀ a g', r = .ok (a, g') → Stored g') : Stored (g.respond f r).2 := by
  cases r with
  | error what => exact h
  | ok p => exact hok p.1 p.2 rfl

/-- No call stores anything else. -/
theorem Stored.call (h : Stored g) (c : Call) : Stored (g.call c).2 := by
  cases c with
  | offer m t => exact h.respond fun _ _ => h.offer
  | select t => exact h.respond fun _ _ => h.select
  | complete id t => exact h.respond fun _ _ => h.complete
  | control t setpoint maxImuAge => exact h.respond fun _ _ => h.control

/-- A new graph stores nothing. -/
theorem stored_make (h : Graph.make capacity limit = .ok g) : Stored g := by
  unfold Graph.make at h
  split at h <;> cases h
  refine ⟨?_, nofun⟩
  intro i m hm
  cases i <;> cases hm

/-- A method that assigns nothing before it throws answers as its graph does. -/
theorem answer_of_settled {α : Type} {f : α → Response} {m : Method α}
    {r : Except String (α × Graph)} (h : m.apply g = Method.settled g r) :
    m.answer f g = g.respond f r := by
  unfold Method.answer
  rw [h]
  cases r <;> rfl

/-- **Refinement**: on stored measurements the methods do what the functions
say. -/
theorem Stored.call_eq (h : Stored g) (c : Call) : Method.call g c = g.call c := by
  cases c with
  | offer m t => exact answer_of_settled (Method.offer_apply m t g)
  | select t => exact answer_of_settled (Method.select_apply t g)
  | complete id t => exact answer_of_settled (Method.complete_apply id t g h.running)
  | control t setpoint maxImuAge =>
      exact answer_of_settled (Method.control_apply t setpoint maxImuAge g)

/-- A call that threw. -/
def Response.failed : Response → Bool
  | .threw _ => true
  | _ => false

/-- A function that throws has no new graph. -/
theorem call_failed {c : Call} (h : (g.call c).1.failed = true) : (g.call c).2 = g := by
  have hrespond : ∀ {α : Type} {f : α → Response} {r : Except String (α × Graph)},
      (∀ a, (f a).failed = false) → (g.respond f r).1.failed = true → (g.respond f r).2 = g := by
    intro α f r hf hfailed
    cases r with
    | error what => rfl
    | ok p => exact absurd hfailed (by simp [Graph.respond, hf])
  cases c <;> exact hrespond (fun _ => rfl) h

/-- The graph behind some calls, each of which may have thrown. -/
abbrev after (g : Graph) (calls : List Call) : Graph := (Calls.play Method.call g calls).2

/-- The calls that did not throw, with their responses. -/
abbrev answered (g : Graph) (calls : List Call) : List (Call × Response) :=
  Calls.answered Response.failed Method.call g calls

/-- The refinement over a whole sequence of calls. -/
theorem play_eq (h : Stored g) (calls : List Call) :
    Calls.play Method.call g calls = Calls.play Graph.call g calls :=
  Calls.play_congr (fun _ c hs => hs.call c) (fun _ c hs => hs.call_eq c) h calls

/-- What throwing means for the graph behind some calls. -/
structure ErrorsAtomic (g : Graph) (calls : List Call) : Prop where
  unchanged : ∀ c what, (Method.call (after g calls) c).1 = .threw what →
    (Method.call (after g calls) c).2 = after g calls
  deleted : Calls.play Method.call g ((answered g calls).map Prod.fst) =
    ((answered g calls).map Prod.snd, after g calls)

/-- **Errors are atomic**: a call that throws leaves everything as it was, and
without it all other calls are answered the same. -/
theorem errors_atomic (hmake : Graph.make capacity limit = .ok g) (calls : List Call) :
    ErrorsAtomic g calls := by
  have hstored := stored_make hmake
  have hkeep : ∀ g c, Stored g → Stored (Method.call g c).2 := by
    intro g c h
    rw [h.call_eq]
    exact h.call c
  have hatomic : ∀ g c, Stored g → (Method.call g c).1.failed = true → (Method.call g c).2 = g := by
    intro g c h hfailed
    rw [h.call_eq] at hfailed ⊢
    exact call_failed hfailed
  constructor
  case unchanged =>
      intro c what hthrew
      exact hatomic _ c (Calls.play_keeps hkeep hstored calls) (by rw [hthrew]; rfl)
  case deleted => exact Calls.play_answered hkeep hatomic hstored calls

/-- A batch of two with a call of each kind that throws before it is complete. -/
def refused : List Call :=
  [.offer ⟨.imu, 1, 5⟩ 6, .offer ⟨.unknown 7, 1, 5⟩ 6, .offer ⟨.camera, 1, 9⟩ 8,
    .offer ⟨.camera, 1, 6⟩ 7, .offer ⟨.camera, 1, 7⟩ 8, .select 6, .select 9, .complete 2 9,
    .complete 1 8, .complete 1 10, .complete 1 11, .control 9 0 5, .control 12 0 5]

/-- A graph that refuses a call. -/
theorem errors_atomic_refused :
    ErrorsAtomic { capacity := 2, limit := 2 } refused ∧
      (answered { capacity := 2, limit := 2 } refused).map Prod.fst =
        [.offer ⟨.imu, 1, 5⟩ 6, .offer ⟨.camera, 1, 6⟩ 7, .select 9, .complete 1 10,
          .control 12 0 5] :=
  ⟨@errors_atomic 2 2 _ rfl refused, by decide⟩

end Reach

end ScxSlam.DependentGraph
