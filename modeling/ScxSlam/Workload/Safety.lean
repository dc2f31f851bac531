import ScxSlam.DependentGraph.Freshness
import ScxSlam.Workload.Drain
import ScxSlam.Workload.Timeline
import ScxSlam.Workload.Turn

/-!
# ScxSlam.Workload.Safety

The dispatcher meets the precondition of every call it makes.  A completion
function runs long after it was built, so what it captured is kept in order
over the worker's queue (`InOrder`), and what the graph holds stays behind the
clock (`Past`).
-/

namespace ScxSlam.Workload

open DependentGraph

/-! ## the graph behind the clock -/

/-- The graph has seen nothing later than `now`. -/
structure Past (g : Graph) (now : Nat) : Prop where
  clock : g.clockTime ≤ now
  inbox : ∀ i, ∀ m ∈ g.inbox.get i, m.sourceTime ≤ now
  running : ∀ b ∈ g.running, ∀ m ∈ b.inputs, m.sourceTime ≤ now
  retained : ∀ i, ∀ m ∈ g.retained i, m.sourceTime ≤ now

section Past

variable {g g' : Graph} {m : Measurement} {now now' id : Nat}

/-- What is past stays so. -/
theorem Past.mono (h : Past g now) (hle : now ≤ now') : Past g now' where
  clock := Nat.le_trans h.clock hle
  inbox i m hm := Nat.le_trans (h.inbox i m hm) hle
  running b hb m hm := Nat.le_trans (h.running b hb m hm) hle
  retained i m hm := Nat.le_trans (h.retained i m hm) hle

/-- A measurement is offered once it is past. -/
theorem Past.offer {b : Bool} (h : Past g now) (ho : g.offer m now = .ok (b, g')) :
    Past g' now := by
  obtain ⟨i, -, hm, -, ⟨-, -, rfl⟩ | ⟨-, -, rfl⟩⟩ := offer_ok ho
  · exact { h with clock := Nat.le_refl now }
  · refine { h with clock := Nat.le_refl now, inbox := ?_ }
    intro j m' hm'
    rw [Lanes.get_set] at hm'
    split at hm'
    · obtain hm' | hm' := List.mem_append.mp hm'
      · exact h.inbox i m' hm'
      · rw [List.mem_singleton.mp hm']
        exact hm
    · exact h.inbox j m' hm'

/-- The inputs of a batch and what is left have been in an inbox. -/
theorem fill_past {n : Nat} {inbox : Lanes (List Measurement)} (hs : Sorted inbox)
    (h : ∀ i, ∀ m ∈ inbox.get i, m.sourceTime ≤ now) :
    (∀ m ∈ (fill n inbox).1, m.sourceTime ≤ now) ∧
      ∀ i, ∀ m ∈ (fill n inbox).2.get i, m.sourceTime ≤ now := by
  obtain ⟨hparts, -, hknown⟩ := fill_spec n hs
  refine ⟨?_, ?_⟩
  · intro m hm
    obtain ⟨i, hi⟩ := hknown m hm
    refine h i m ?_
    rw [← hparts i]
    exact List.mem_append_left _ (List.mem_filter.mpr ⟨hm, by simpa using hi⟩)
  · intro i m hm
    refine h i m ?_
    rw [← hparts i]
    exact List.mem_append_right _ hm

/-- A batch is made of what is past. -/
theorem Past.select {o : Option Batch} (h : Past g now) (hsorted : Sorted g.inbox)
    (hs : g.select now = .ok (o, g')) :
    Past g' now ∧ ∀ b ∈ o, ∀ m ∈ b.inputs, m.sourceTime ≤ now := by
  obtain ⟨hinputs, hrest⟩ := @fill_past now g.limit g.inbox hsorted h.inbox
  obtain ⟨-, ⟨rfl, ⟨-, rfl⟩ | ⟨-, -, rfl⟩⟩ | ⟨-, -, rfl, rfl⟩⟩ := select_ok hs
  · exact ⟨{ h with clock := Nat.le_refl now }, nofun⟩
  · exact ⟨{ h with clock := Nat.le_refl now, inbox := hrest }, nofun⟩
  · have hbatch : ∀ b ∈ some (Batch.mk g.nextBatch (fill g.limit g.inbox).1),
        ∀ m ∈ b.inputs, m.sourceTime ≤ now := by
      intro b hb
      cases hb
      exact hinputs
    exact ⟨{ h with clock := Nat.le_refl now, inbox := hrest, running := hbatch }, hbatch⟩

/-- What a snapshot had already is kept or replaced by an input of the batch. -/
theorem Past.complete {b : Batch} {snapshot : Snapshot} (h : Past g now)
    (hrun : g.running = some b) (hknown : Known b.inputs)
    (hc : g.complete id now = .ok (snapshot, g')) :
    Past g' now ∧ ∀ m ∈ snapshot.camera, m.sourceTime ≤ now := by
  obtain ⟨b', hb', -, -, hk⟩ := complete_ok hc
  cases hrun.symm.trans hb'
  obtain ⟨hsnapshot, acc, rfl, -⟩ := hk hknown
  have hat : ∀ i, ∀ m ∈ snapshot.at i, m.sourceTime ≤ now := by
    intro i m hm
    rw [hsnapshot, foldl_keep_at hknown] at hm
    obtain hold | hnew := Newest.mem_foldl_keep hm
    · refine h.retained i m ?_
      unfold Graph.retained
      cases hl : g.latest with
      | none =>
          rw [hl] at hold
          cases i <;> cases hold
      | some s =>
          rw [hl] at hold
          cases i <;> exact hold
    · exact h.running b hrun m (List.mem_of_mem_filter hnew)
  exact ⟨{ clock := Nat.le_refl now, inbox := h.inbox, running := nofun, retained := hat },
    hat .camera⟩

/-- Control stores nothing. -/
theorem Past.control {setpoint maxImuAge : Nat} {selection : Control} (h : Past g now)
    (hc : g.control now setpoint maxImuAge = .ok (selection, g')) : Past g' now := by
  obtain ⟨-, rfl, -⟩ := control_ok hc
  exact { h with clock := Nat.le_refl now }

/-- A batch with camera input leaves a camera measurement. -/
theorem complete_camera {b : Batch} {snapshot : Snapshot} (hrun : g.running = some b)
    (hknown : Known b.inputs) (hc : g.complete id now = .ok (snapshot, g'))
    (hcamera : hasCamera b = true) : snapshot.camera.isSome = true := by
  obtain ⟨b', hb', -, -, hk⟩ := complete_ok hc
  cases hrun.symm.trans hb'
  obtain ⟨hsnapshot, -⟩ := hk hknown
  obtain ⟨m, hm, hstream⟩ := List.any_eq_true.mp hcamera
  have hne : on .camera b.inputs ≠ [] :=
    List.ne_nil_of_mem (List.mem_filter.mpr ⟨hm, hstream⟩)
  show (snapshot.at .camera).isSome = true
  rw [hsnapshot, foldl_keep_at hknown]
  exact Newest.foldl_keep_isSome _ hne

end Past

/-! ## the measurements on their way -/

/-- The measurement a completion function offers. -/
def Closure.measurement? : Closure → Option Measurement
  | .offer m => some m
  | _ => none

/-- The measurements on their way to the graph, against the last sequence it
was offered and the last one issued. -/
structure InOrder (coming : List Measurement) (last : Option Nat) (id now : Nat) : Prop where
  ascending : coming.Pairwise (·.sequence < ·.sequence)
  unseen : ∀ m ∈ coming, ∀ k ∈ last, k < m.sequence
  issued : ∀ m ∈ coming, m.sequence ≤ id
  read : ∀ m ∈ coming, m.sourceTime ≤ now
  seen : ∀ k ∈ last, k ≤ id

section InOrder

variable {coming : List Measurement} {last : Option Nat} {id now now' : Nat} {m : Measurement}

/-- What came in order has come in order. -/
theorem InOrder.mono (h : InOrder coming last id now) (hle : now ≤ now') :
    InOrder coming last id now' :=
  { h with read := fun m hm => Nat.le_trans (h.read m hm) hle }

/-- A release whose offer is dropped. -/
theorem InOrder.drop (h : InOrder coming last id now) : InOrder coming last (id + 1) now :=
  { h with
    issued := fun m hm => Nat.le_succ_of_le (h.issued m hm)
    seen := fun k hk => Nat.le_succ_of_le (h.seen k hk) }

/-- A release whose offer is taken. -/
theorem InOrder.push (h : InOrder coming last id now) (hid : m.sequence = id + 1)
    (hm : m.sourceTime ≤ now) : InOrder (coming ++ [m]) last (id + 1) now := by
  have hlast : ∀ m' ∈ coming ++ [m], m' ∈ coming ∨ m' = m := by
    intro m' hm'
    simpa using hm'
  constructor
  case ascending =>
      rw [List.pairwise_append]
      refine ⟨h.ascending, List.pairwise_singleton _ _, ?_⟩
      intro m₁ h₁ m₂ h₂
      rw [List.mem_singleton.mp h₂, hid]
      exact Nat.lt_succ_of_le (h.issued m₁ h₁)
  case unseen =>
      intro m' hm' k hk
      obtain hm' | rfl := hlast m' hm'
      · exact h.unseen m' hm' k hk
      · rw [hid]
        exact Nat.lt_succ_of_le (h.seen k hk)
  case issued =>
      intro m' hm'
      obtain hm' | rfl := hlast m' hm'
      · exact Nat.le_succ_of_le (h.issued m' hm')
      · exact Nat.le_of_eq hid
  case read =>
      intro m' hm'
      obtain hm' | rfl := hlast m' hm'
      · exact h.read m' hm'
      · exact hm
  case seen => exact fun k hk => Nat.le_succ_of_le (h.seen k hk)

/-- The first one is offered. -/
theorem InOrder.offered (h : InOrder (m :: coming) last id now) :
    InOrder coming (some m.sequence) id now := by
  obtain ⟨hfirst, hrest⟩ := List.pairwise_cons.mp h.ascending
  constructor
  case ascending => exact hrest
  case unseen =>
      intro m' hm' k hk
      cases hk
      exact hfirst m' hm'
  case issued => exact fun m' hm' => h.issued m' (List.mem_cons_of_mem m hm')
  case read => exact fun m' hm' => h.read m' (List.mem_cons_of_mem m hm')
  case seen =>
      intro k hk
      cases hk
      exact h.issued m List.mem_cons_self

end InOrder

/-! ## the invariant along the loop -/

/-- The measurements of a stream on their way to the graph. -/
def State.coming (s : State) (i : Lane) : List Measurement :=
  (s.pc.owed (roleOf i) ++ (s.worker (roleOf i)).closures).filterMap Closure.measurement?

/-- The source of a stream. -/
def State.source (s : State) : Lane → Source
  | .imu => s.imu
  | .camera => s.camera

/-- Nothing has failed, and nothing will. -/
structure Lawful (s : State) : Prop where
  alive : ∀ what, s.pc ≠ .failed what
  answered : ∀ p ∈ s.session.history, ∀ what, p.2 ≠ .threw what
  limit : s.now < clockLimit
  reading : s.t ≤ s.now
  past : Past s.session.graph s.now
  streams : ∀ i, InOrder (s.coming i) (s.session.graph.lastSequence.get i) (s.source i).id s.now
  workers : ∀ r, (s.worker r).Timed s.now

section Lawful

variable {o : Options} {s s' : State} {r : Role} {W : Worker Closure} {job : Job Closure}

/-- Between two completion functions none is owed. -/
theorem calm_owed {pc : Pc} (h : pc.calm = true) : pc.owed = fun _ => [] := by
  cases pc <;> first | rfl | cases h

/-- Going on changes nothing. -/
theorem Lawful.goto {pc : Pc} (h : Lawful s) (hcalm : s.pc.calm = true)
    (hcalm' : pc.calm = true) : Lawful (s.goto pc) := by
  refine { h with alive := ?_, streams := ?_ }
  · rintro what rfl
    cases hcalm'
  · intro i
    have hi := h.streams i
    rw [State.coming, calm_owed hcalm] at hi
    show InOrder ((pc.owed (roleOf i) ++ _).filterMap _) _ _ _
    rw [calm_owed hcalm']
    exact hi

/-- Putting one worker back times that worker only. -/
theorem timed_setWorker (h : ∀ q, (s.worker q).Timed s.now) (hW : W.Timed s.now) (q : Role) :
    ((s.setWorker r W).worker q).Timed s.now := by
  rw [worker_setWorker]
  exact (Function.forall_update_iff s.worker (fun _ w => w.Timed s.now)).mpr
    ⟨hW, fun q _ => h q⟩ q

/-- What is coming depends on the measurements of the closures only. -/
theorem coming_setWorker (i : Lane)
    (hW : W.closures.filterMap Closure.measurement? =
      (s.worker r).closures.filterMap Closure.measurement?) :
    (s.setWorker r W).coming i = s.coming i := by
  show (s.pc.owed (roleOf i) ++ ((s.setWorker r W).worker (roleOf i)).closures).filterMap _ = _
  rw [State.coming, List.filterMap_append, List.filterMap_append, worker_setWorker]
  refine congrArg (_ ++ ·) ?_
  exact (Function.forall_update_iff s.worker (fun q w => w.closures.filterMap _ =
    (s.worker q).closures.filterMap Closure.measurement?)).mpr ⟨hW, fun q _ => rfl⟩ (roleOf i)

/-- A worker's step that leaves the measurements where they are. -/
theorem Lawful.setWorker (h : Lawful s) (hW : W.Timed s.now)
    (hsame : W.closures.filterMap Closure.measurement? =
      (s.worker r).closures.filterMap Closure.measurement?) : Lawful (s.setWorker r W) :=
  { h with
    streams := fun i => by
      rw [coming_setWorker i hsame]
      exact h.streams i
    workers := timed_setWorker h.workers hW }

/-- An offer adds one closure at most. -/
theorem offer_closures (W : Worker Closure) (job : Job Closure) :
    (W.offer job).closures = W.closures ∨
      (W.offer job).closures = W.closures ++ [job.complete] := by
  by_cases hfull : W.queue.length = Worker.capacity
  · exact .inl (congrArg Tally.closures (Worker.offer_full hfull))
  · exact .inr (congrArg Tally.closures (Worker.offer_room hfull))

/-- An offer of a job that does not offer a measurement itself. -/
theorem Lawful.offerTo (h : Lawful s) (hjob : job.release ≤ s.now)
    (hc : job.complete.measurement? = none) : Lawful (s.offerTo r job) := by
  refine h.setWorker ((h.workers r).offer hjob) ?_
  obtain hsame | hpush := offer_closures (s.worker r) job
  · rw [hsame]
  · rw [hpush, List.filterMap_append, List.filterMap_cons_none hc]
    simp

/-- A call on the graph that leaves its sequences as they are. -/
theorem Lawful.called {c : Call} {resp : Response} {g : Graph} (h : Lawful s)
    (hresp : ∀ what, resp ≠ .threw what) (hpast : Past g s.now)
    (hseq : g.lastSequence = s.session.graph.lastSequence) : Lawful (s.called c resp g) := by
  refine { h with answered := ?_, past := hpast, streams := ?_ }
  · intro p hp
    obtain hp | hp := List.mem_append.mp hp
    · exact h.answered p hp
    · rw [List.mem_singleton.mp hp]
      exact hresp
  · intro i
    show InOrder _ (g.lastSequence.get i) _ _
    rw [hseq]
    exact h.streams i

/-- Each lane has its own worker. -/
theorem roleOf_inj {i j : Lane} : roleOf i = roleOf j ↔ i = j := by
  cases i <;> cases j <;> decide

/-- A release is offered to the worker of its stream. -/
theorem Lawful.sense {i : Lane} {m : Measurement} {relative work : Nat} (h : Lawful s)
    (hid : m.sequence = (s.source i).id + 1) (hm : m.sourceTime ≤ s.now) (j : Lane) :
    InOrder ((s.offerTo (roleOf i) (State.sensorJob m relative work)).coming j)
      (s.session.graph.lastSequence.get j)
      (if j = i then (s.source i).id + 1 else (s.source j).id) s.now := by
  have hj := h.streams j
  by_cases hji : j = i
  · subst hji
    rw [if_pos rfl]
    obtain hdrop | hpush :=
      offer_closures (s.worker (roleOf j)) (State.sensorJob m relative work)
    · rw [State.offerTo, coming_setWorker j (by rw [hdrop])]
      exact hj.drop
    · have hcoming : (s.offerTo (roleOf j) (State.sensorJob m relative work)).coming j =
          s.coming j ++ [m] := by
        show (s.pc.owed (roleOf j) ++
          ((s.offerTo (roleOf j) (State.sensorJob m relative work)).worker
            (roleOf j)).closures).filterMap _ = _
        rw [State.offerTo, worker_setWorker, Function.update_self, hpush, ← List.append_assoc,
          List.filterMap_append]
        rfl
      rw [hcoming]
      exact hj.push hid hm
  · rw [if_neg hji]
    have hsame : (s.offerTo (roleOf i) (State.sensorJob m relative work)).coming j =
        s.coming j := by
      show (s.pc.owed (roleOf j) ++
        ((s.offerTo (roleOf i) (State.sensorJob m relative work)).worker
          (roleOf j)).closures).filterMap _ = _
      rw [State.offerTo, worker_setWorker,
        Function.update_of_ne (fun h => hji (roleOf_inj.mp h))]
      rfl
    rw [hsame]
    exact hj

/-- A completion function is taken out of its worker to be called. -/
theorem Lawful.collect {c : Closure} {todo : List Role} (h : Lawful s) (hacc : Account s)
    (hcalm : s.pc.calm = true) (hc : (s.worker r).collect s.now = (W, some c)) :
    Lawful ((s.setWorker r W).goto (.complete r c todo)) := by
  obtain ⟨-, hclosures, -⟩ := (hacc.sound r).collect hc
  refine { h with
    alive := nofun
    streams := ?_
    workers := timed_setWorker h.workers ((h.workers r).collect hc) }
  intro i
  have hi := h.streams i
  rw [State.coming, calm_owed hcalm] at hi
  show InOrder ((Function.update (fun _ => []) r [c] (roleOf i) ++
    ((s.setWorker r W).worker (roleOf i)).closures).filterMap _) _ _ _
  rw [worker_setWorker]
  by_cases hir : roleOf i = r
  · subst hir
    rw [Function.update_self, Function.update_self]
    rw [hclosures] at hi
    exact hi
  · rw [Function.update_of_ne hir, Function.update_of_ne hir]
    exact hi

/-- A completion function that offers no measurement has returned. -/
theorem Lawful.returned {c : Closure} {todo : List Role} (h : Lawful s)
    (hpc : s.pc = .complete r c todo) (hc : c.measurement? = none) :
    Lawful (s.goto (.collect todo)) := by
  refine { h with alive := nofun, streams := ?_ }
  intro i
  have hi := h.streams i
  rw [State.coming, hpc] at hi
  show InOrder (([] ++ (s.worker (roleOf i)).closures).filterMap _) _ _ _
  by_cases hir : roleOf i = r
  · rw [Pc.owed, hir, Function.update_self, List.cons_append,
      List.filterMap_cons_none hc] at hi
    rw [hir]
    exact hi
  · rw [Pc.owed, Function.update_of_ne hir] at hi
    exact hi

/-- A measurement has been offered to the graph. -/
theorem Lawful.offered {m : Measurement} {todo : List Role} {b : Bool} {g : Graph} (h : Lawful s)
    (hacc : Account s) (hpc : s.pc = .complete r (.offer m) todo)
    (hok : s.session.graph.offer m s.now = .ok (b, g)) :
    Lawful ((s.called (.offer m s.now) (.offered b) g).goto (.collect todo)) := by
  have hheld := hacc.held
  rw [hpc] at hheld
  obtain ⟨i, hm, rfl⟩ := hheld.lane
  have hseq : g.lastSequence = s.session.graph.lastSequence.set i (some m.sequence) := by
    obtain ⟨j, hj, -, -, ⟨-, -, rfl⟩ | ⟨-, -, rfl⟩⟩ := offer_ok hok <;>
      rw [Lane.stream_inj.mp (hm.symm.trans hj)]
  refine { h with alive := nofun, answered := ?_, past := h.past.offer hok, streams := ?_ }
  · intro p hp
    obtain hp | hp := List.mem_append.mp hp
    · exact h.answered p hp
    · rw [List.mem_singleton.mp hp]
      nofun
  · intro j
    have hj := h.streams j
    rw [State.coming, hpc] at hj
    show InOrder (([] ++ (s.worker (roleOf j)).closures).filterMap _) (g.lastSequence.get j) _ _
    rw [hseq, Lanes.get_set]
    by_cases hji : j = i
    · subst hji
      rw [Pc.owed, Function.update_self] at hj
      rw [if_pos rfl]
      exact hj.offered
    · rw [Pc.owed, Function.update_of_ne (fun h => hji (roleOf_inj.mp h))] at hj
      rw [if_neg hji]
      exact hj

/-- The loop over the hogs. -/
theorem Lawful.offerHogs {hogs : List Role} (h : Lawful s) (hpc : s.pc.calm = true) :
    Lawful (hogs.foldl State.offerHog s) ∧ (hogs.foldl State.offerHog s).pc.calm = true := by
  induction hogs generalizing s with
  | nil => exact ⟨h, hpc⟩
  | cons r hogs ih =>
      rw [List.foldl_cons]
      unfold State.offerHog
      split
      · exact ih (h.offerTo h.reading rfl) hpc
      · exact ih h hpc

/-- A source that is due has come to its next time. -/
theorem due_le {src : Source} {finish t : Nat} (h : src.due finish t = true) : src.next ≤ t := by
  unfold Source.due at h
  simp only [Bool.and_eq_true, decide_eq_true_eq] at h
  exact h.2

/-- The inputs of a running batch are of known streams. -/
theorem Held.known {T : Role → Tally Closure} {owed : Role → List Closure} {S : Session}
    {outcomes : Nat} {b : Batch} (h : Held T owed S outcomes) (hrun : S.graph.running = some b) :
    Known b.inputs := by
  refine h.books.known b ?_
  rw [h.books.current, hrun]
  simp

/-! ## the calls on the graph -/

/-- An offer in order does not throw. -/
theorem offer_defined {g : Graph} {m : Measurement} {t : Nat} {i : Lane}
    (hm : m.stream = i.stream) (htime : m.sourceTime ≤ t)
    (hseq : ∀ k ∈ g.lastSequence.get i, k < m.sequence) (ht : g.clockTime ≤ t) :
    ∃ b g', g.offer m t = .ok (b, g') := by
  have hvalid : ¬ (m.sourceTime > t ∨ ∃ last ∈ g.lastSequence.get i, m.sequence ≤ last) := by
    rintro (hlate | ⟨last, hlast, hle⟩)
    · omega
    · have hlt := hseq last hlast
      omega
  simp only [Graph.offer, index_eq_ok.mpr hm, advance_eq_ok.mpr ⟨ht, rfl⟩, bind, Except.bind,
    if_neg hvalid, pure, Except.pure]
  split <;> exact ⟨_, _, rfl⟩

/-- A selection in time does not throw. -/
theorem select_defined {g : Graph} {t : Nat} (ht : g.clockTime ≤ t) :
    ∃ o g', g.select t = .ok (o, g') := by
  simp only [Graph.select, advance_eq_ok.mpr ⟨ht, rfl⟩, bind, Except.bind, pure, Except.pure]
  split
  · exact ⟨_, _, rfl⟩
  · split <;> exact ⟨_, _, rfl⟩

/-- The completion of the running batch does not throw. -/
theorem complete_defined {g : Graph} {b : Batch} {t : Nat} (hrun : g.running = some b)
    (hknown : Known b.inputs) (ht : g.clockTime ≤ t) :
    ∃ snapshot g', g.complete b.id t = .ok (snapshot, g') := by
  obtain ⟨acc, hfold, -⟩ := foldlM_consume hknown g.accounting
    { g.latest.getD {} with batchId := b.id, completed := t }
  simp only [Graph.complete, hrun, advance_eq_ok.mpr ⟨ht, rfl⟩, bind, Except.bind, pure,
    Except.pure, ne_eq, not_true_eq_false, if_false, hfold]
  exact ⟨_, _, rfl⟩

/-- A control call in time does not throw. -/
theorem control_defined {g : Graph} {t setpoint maxImuAge : Nat} (ht : g.clockTime ≤ t) :
    ∃ selection g', g.control t setpoint maxImuAge = .ok (selection, g') := by
  simp only [Graph.control, advance_eq_ok.mpr ⟨ht, rfl⟩, bind, Except.bind, pure, Except.pure]
  exact ⟨_, _, rfl⟩

/-- The measurement being offered is the next one of its stream. -/
theorem Lawful.next {m : Measurement} {todo : List Role} (h : Lawful s) (hacc : Account s)
    (hpc : s.pc = .complete r (.offer m) todo) : m.sourceTime ≤ s.now ∧
      ∃ i : Lane, m.stream = i.stream ∧
        ∀ k ∈ s.session.graph.lastSequence.get i, k < m.sequence := by
  have hheld := hacc.held
  rw [hpc] at hheld
  obtain ⟨i, hm, rfl⟩ := hheld.lane
  have hi := h.streams i
  have hmem : m ∈ s.coming i := by
    rw [State.coming, hpc, Pc.owed, Function.update_self]
    exact List.mem_cons_self
  exact ⟨hi.read m hmem, i, hm, hi.unseen m hmem⟩

/-- The batch being completed is the running one. -/
theorem Account.owner {b : Batch} {todo : List Role} (hacc : Account s)
    (hpc : s.pc = .complete r (.estimator b) todo) :
    s.session.graph.running = some b ∧ Known b.inputs := by
  have hheld := hacc.held
  rw [hpc] at hheld
  obtain ⟨-, hrun, -⟩ := hheld.running
  exact ⟨hrun, hheld.known hrun⟩

/-- No call throws, and nothing absent is read. -/
theorem Lawful.safe (h : Lawful s) (hacc : Account s) : ¬ Fails s := by
  intro hfails
  have hclock := h.past.clock
  cases hfails with
  | offer hpc hthrew =>
      obtain ⟨htime, i, hm, hseq⟩ := h.next hacc hpc
      obtain ⟨b, g, hok⟩ := offer_defined hm htime hseq hclock
      rw [hok] at hthrew
      cases hthrew
  | complete hpc hthrew =>
      obtain ⟨hrun, hknown⟩ := hacc.owner hpc
      obtain ⟨snapshot, g, hok⟩ := complete_defined hrun hknown hclock
      rw [hok] at hthrew
      cases hthrew
  | camera hpc hok hcamera hnone =>
      obtain ⟨hrun, hknown⟩ := hacc.owner hpc
      have hsome := complete_camera hrun hknown hok hcamera
      rw [hnone] at hsome
      cases hsome
  | control hpc hthrew =>
      obtain ⟨selection, g, hok⟩ := control_defined hclock
      rw [hok] at hthrew
      cases hthrew
  | select hpc hthrew =>
      obtain ⟨b, g, hok⟩ := select_defined hclock
      rw [hok] at hthrew
      cases hthrew
  | front hpc hok hnil =>
      obtain ⟨-, ⟨hnone, -⟩ | ⟨-, hne, hsome, -⟩⟩ := select_ok hok
      · cases hnone
      · cases hsome
        exact hne hnil

/-- The running batch is retired. -/
theorem Lawful.completed {b : Batch} {todo : List Role} {snapshot : Snapshot} {g : Graph}
    (h : Lawful s) (hacc : Account s) (hpc : s.pc = .complete r (.estimator b) todo)
    (hok : s.session.graph.complete b.id s.now = .ok (snapshot, g)) :
    Lawful (s.called (.complete b.id s.now) (.completed snapshot) g) ∧
      ∀ m ∈ snapshot.camera, m.sourceTime ≤ s.now := by
  obtain ⟨hrun, hknown⟩ := hacc.owner hpc
  obtain ⟨hpast, hcamera⟩ := h.past.complete hrun hknown hok
  refine ⟨h.called nofun hpast ?_, hcamera⟩
  obtain ⟨b', hb', -, -, hk⟩ := complete_ok hok
  cases hrun.symm.trans hb'
  obtain ⟨-, acc, rfl, -⟩ := hk hknown
  rfl

/-- A batch is selected, or there is none. -/
theorem Lawful.selected {b : Option Batch} {g : Graph} (h : Lawful s) (hacc : Account s)
    (hok : s.session.graph.select s.now = .ok (b, g)) :
    Lawful (s.called (.select s.now) (.selected b) g) ∧
      ∀ b' ∈ b, ∀ m ∈ b'.inputs, m.sourceTime ≤ s.now := by
  obtain ⟨hpast, hinputs⟩ := h.past.select hacc.held.books.sorted hok
  refine ⟨h.called nofun hpast ?_, hinputs⟩
  obtain ⟨-, ⟨-, ⟨-, rfl⟩ | ⟨-, -, rfl⟩⟩ | ⟨-, -, -, rfl⟩⟩ := select_ok hok <;> rfl

/-! ## every step -/

/-- Of a state, the streams read these fields. -/
theorem streams_frame {ids : Lane → Nat}
    (h : ∀ j, InOrder (s.coming j) (s.session.graph.lastSequence.get j) (ids j) s.now)
    (hpc : s'.pc = s.pc) (hpool : s'.pool = s.pool) (hsession : s'.session = s.session)
    (hnow : s'.now = s.now) (hids : ∀ j, (s'.source j).id = ids j) (j : Lane) :
    InOrder (s'.coming j) (s'.session.graph.lastSequence.get j) (s'.source j).id s'.now := by
  have hcoming : s'.coming j = s.coming j := by
    rw [State.coming, State.worker, hpc, hpool]
    rfl
  rw [hcoming, hsession, hnow, hids j]
  exact h j

/-- The dispatcher's step. -/
theorem Lawful.turn (h : Lawful s) (hacc : Account s) (hs : Turn o s s') : Lawful s' := by
  cases hs with
  | goto hcalm hcalm' => exact h.goto hcalm hcalm'
  | clock hpc =>
      have hnext : Lawful (s.goto .hogs) := h.goto (by rw [hpc]; rfl) rfl
      exact { hnext with reading := Nat.le_refl s.now }
  | collect hcalm hc => exact h.collect hacc hcalm hc
  | quiet hpc hc =>
      refine h.returned hpc ?_
      obtain rfl | ⟨snapshot, rfl⟩ := hc <;> rfl
  | tally hpc =>
      have hnext := h.returned hpc rfl
      exact { hnext with }
  | offered hpc hok => exact h.offered hacc hpc hok
  | completed hpc hok hcamera => exact (h.completed hacc hpc hok).1.returned hpc rfl
  | mapped hpc hok hcamera hm =>
      obtain ⟨hcalled, hpast⟩ := h.completed hacc hpc hok
      exact (hcalled.offerTo (hpast _ hm) rfl).returned hpc rfl
  | hogs hpc =>
      have hidle : s.pc.calm = true := by rw [hpc]; rfl
      obtain ⟨hnext, hcalm⟩ := @Lawful.offerHogs s o.hogs h hidle
      exact hnext.goto hcalm rfl
  | imu hpc hdue =>
      have htime : s.imu.next ≤ s.now := Nat.le_trans (due_le hdue) h.reading
      refine { h with streams := ?_, workers := ?_ }
      · have hsense := @Lawful.sense s .imu ⟨.imu, s.imu.id + 1, s.imu.next⟩ (5 * ms) 150000
          h rfl htime
        exact streams_frame hsense rfl rfl rfl rfl fun j => by cases j <;> rfl
      · exact timed_setWorker h.workers ((h.workers .imu).offer htime)
  | camera hpc hdue =>
      have htime : s.camera.next ≤ s.now := Nat.le_trans (due_le hdue) h.reading
      refine { h with streams := ?_, workers := ?_ }
      · have hsense := @Lawful.sense s .camera ⟨.camera, s.camera.id + 1, s.camera.next⟩ (33 * ms)
          (4 * ms) h rfl htime
        exact streams_frame hsense rfl rfl rfl rfl fun j => by cases j <;> rfl
      · exact timed_setWorker h.workers ((h.workers .camera).offer htime)
  | skip hpc hdue hpending =>
      have hskip : Lawful s.skipControl := h.setWorker { h.workers .control with } rfl
      exact { hskip with
        streams := streams_frame hskip.streams rfl rfl rfl rfl fun j => by cases j <;> rfl }
  | @controlled setpoint maxImuAge selection g hpc hdue hidle hok =>
      have htime : s.control.next ≤ s.now := Nat.le_trans (due_le hdue) h.reading
      obtain ⟨-, hg, -⟩ := control_ok hok
      have hcalled : Lawful (s.called (.control s.now setpoint maxImuAge)
          (.controlled selection) g) := h.called nofun (h.past.control hok) (by rw [hg])
      have hoffer : Lawful (State.offerTo _ .control
          (State.controlJob (s.control.id + 1) s.control.next selection)) :=
        hcalled.offerTo htime rfl
      exact { hoffer with
        streams := streams_frame hoffer.streams rfl rfl rfl rfl fun j => by cases j <;> rfl }
  | nothing hpc hok hcalm =>
      have hidle : s.pc.calm = true := by rw [hpc]; rfl
      exact (h.selected hacc hok).1.goto hidle hcalm
  | @selected b m rest g burst pc hpc hidle hok hinputs hcalm =>
      obtain ⟨hcalled, hpast⟩ := h.selected hacc hok
      have htime : m.sourceTime ≤ s.now :=
        hpast b rfl m (by rw [hinputs]; exact List.mem_cons_self)
      have hburst : Lawful { s.called (.select s.now) (.selected (some b)) g with
          burstJob := burst } := { hcalled with }
      have hoffer : Lawful (State.offerTo _ .estimator (State.estimatorJob o b m.sourceTime)) :=
        hburst.offerTo htime rfl
      have hpc' : s.pc.calm = true := by rw [hpc]; rfl
      exact hoffer.goto hpc' hcalm
  | @dispatch r pc hcalm hcalm' =>
      have hsame : ((s.worker r).dispatch s.now).closures = (s.worker r).closures :=
        congrArg Tally.closures ((hacc.sound r).dispatch s.now).2
      exact (h.setWorker (h.workers r).dispatch (by rw [hsame])).goto hcalm hcalm'
  | fail hfails => exact absurd hfails (h.safe hacc)

/-- Every step keeps the law of the loop. -/
theorem step_lawful (o : Options) :
    Steps.Preserved (step o) fun s => Account s ∧ Lawful s := by
  intro s a s' ⟨hacc, h⟩ hs
  cases a with
  | tick d =>
      rw [step] at hs
      split at hs
      · next hlimit =>
        cases hs
        have hle : s.now ≤ s.now + d := Nat.le_add_right s.now d
        exact ⟨⟨hacc.sound, hacc.held⟩, { h with
          limit := hlimit
          reading := Nat.le_trans h.reading hle
          past := h.past.mono hle
          streams := fun i => (h.streams i).mono hle
          workers := fun r => (h.workers r).mono hle }⟩
      · cases hs
  | thread r cpu =>
      rw [step] at hs
      obtain ⟨W, hW, rfl⟩ := Option.map_eq_some_iff.mp hs
      have hkeep := (hacc.sound r).advance hW
      have hsame : W.closures = (s.worker r).closures := congrArg Tally.closures hkeep.2
      exact ⟨hacc.replace hkeep, h.setWorker ((h.workers r).advance hW) (by rw [hsame])⟩
  | main =>
      have hnext := h.turn hacc (main_turn hs)
      obtain ⟨what, hfailed⟩ | hacc' := kept_main hacc hs
      · exact absurd hfailed (hnext.alive what)
      · exact ⟨hacc', hnext⟩

/-- The loop starts lawfully. -/
theorem initial_lawful (o : Options) {start : Nat} (hstart : start < clockLimit) :
    Lawful (State.initial o start) := by
  constructor
  case alive => nofun
  case answered => exact fun _ => by simp [State.initial]
  case limit => exact hstart
  case reading => exact Nat.zero_le start
  case past => exact ⟨Nat.zero_le start, fun i => by cases i <;> nofun, nofun, nofun⟩
  case streams =>
      intro i
      cases i <;> exact ⟨List.Pairwise.nil, nofun, nofun, nofun, nofun⟩
  case workers =>
      intro r
      cases r <;> exact Worker.timed_fresh ..

/-- Every reachable state is lawful. -/
theorem Reachable.lawful (h : Reachable o s) : Account s ∧ Lawful s := by
  obtain ⟨start, as, hstart, hrun⟩ := h
  exact (step_lawful o).exec ⟨initial_account o start, initial_lawful o hstart⟩ hrun

end Lawful

/-! ## what the workers are spared -/

section Dropped

variable {o : Options} {s s' : State} {r q : Role} {W : Worker Closure} {job : Job Closure}

/-- Putting one worker back leaves the others alone. -/
theorem setWorker_of_ne (s : State) (W : Worker Closure) (hq : q ≠ r) :
    (s.setWorker r W).worker q = s.worker q := by
  rw [worker_setWorker, Function.update_of_ne hq]

/-- The hogs' jobs leave the other workers alone. -/
theorem hogs_worker {hogs : List Role} (hq : q ∉ hogs) :
    (hogs.foldl State.offerHog s).worker q = s.worker q := by
  induction hogs generalizing s with
  | nil => rfl
  | cons r hogs ih =>
      obtain ⟨hne, hq⟩ := not_or.mp (List.mem_cons.not.mp hq)
      rw [List.foldl_cons, ih hq]
      unfold State.offerHog
      split
      · exact setWorker_of_ne s _ hne
      · rfl

/-- What is not an offer drops nothing. -/
theorem dropped_setWorker (s : State) (hW : W.dropped = (s.worker r).dropped) (q : Role) :
    ((s.setWorker r W).worker q).dropped = (s.worker q).dropped := by
  by_cases hq : q = r
  · subst hq
    rw [worker_setWorker, Function.update_self, hW]
  · rw [setWorker_of_ne s W hq]

/-- An idle worker takes what it is offered. -/
theorem dropped_offerTo (s : State) (job : Job Closure) (hidle : (s.worker r).pending = false)
    (q : Role) : ((s.offerTo r job).worker q).dropped = (s.worker q).dropped := by
  refine dropped_setWorker s ?_ q
  have hqueue : (s.worker r).queue = [] := by
    unfold Worker.pending at hidle
    simp only [Bool.or_eq_false_iff] at hidle
    simpa using hidle.2
  have hroom : (s.worker r).queue.length ≠ Worker.capacity := by
    rw [hqueue]
    decide
  rw [Worker.offer, if_neg hroom]

/-- An idle estimator and an idle control worker take what they are offered. -/
theorem Turn.dropped (hs : Turn o s s') (hsafe : ¬ Fails s)
    (hr : r = .estimator ∨ r = .control) (hidle : (s.worker r).pending = false) :
    (s'.worker r).dropped = (s.worker r).dropped := by
  have hother : ∀ q job, q ≠ .estimator → q ≠ .control →
      ((s.offerTo q job).worker r).dropped = (s.worker r).dropped := by
    intro q job h1 h2
    rw [State.offerTo, setWorker_of_ne]
    obtain rfl | rfl := hr
    · exact h1.symm
    · exact h2.symm
  cases hs with
  | goto | clock | quiet | tally | offered | completed | nothing => rfl
  | @collect q W c todo hcalm hc =>
      refine dropped_setWorker s ?_ r
      obtain ⟨r, -, rfl, rfl⟩ := Worker.collect_some hc
      rfl
  | mapped => exact hother .mapping _ (by simp) (by simp)
  | hogs =>
      have hq : r ∉ o.hogs := by
        intro hmem
        obtain rfl | rfl := mem_hogs hmem <;> obtain h | h := hr <;> cases h
      exact congrArg Worker.dropped (hogs_worker hq)
  | imu => exact hother .imu _ (by simp) (by simp)
  | camera => exact hother .camera _ (by simp) (by simp)
  | skip hpc hdue hpending =>
      obtain rfl | rfl := hr
      · rfl
      · rw [hidle] at hpending
        cases hpending
  | controlled hpc hdue hcontrol => exact dropped_offerTo s _ hcontrol r
  | selected hpc hestimator => exact dropped_offerTo s _ hestimator r
  | @dispatch q =>
      refine dropped_setWorker s ?_ r
      unfold Worker.dispatch
      split
      · rfl
      · split <;> rfl
  | fail hfails => exact absurd hfails hsafe

end Dropped

/-! ## the dispatcher -/

/-- What the dispatcher may rely on. -/
structure Safe (o : Options) (s : State) : Prop where
  alive : ∀ what, s.pc ≠ .failed what
  /-- No call on the graph has thrown. -/
  answered : ∀ p ∈ s.session.history, ∀ what, p.2 ≠ .threw what
  /-- A measurement is offered when its time has come, and its sequence is past
  those offered before. -/
  offers : ∀ r m todo, s.pc = .complete r (.offer m) todo → m.sourceTime ≤ s.now ∧
    ∃ i : Lane, m.stream = i.stream ∧ ∀ k ∈ s.session.graph.lastSequence.get i, k < m.sequence
  owner : ∀ r b todo, s.pc = .complete r (.estimator b) todo → s.session.graph.running = some b
  /-- The snapshot of a batch with camera input has a camera measurement. -/
  camera : ∀ r b todo snapshot g, s.pc = .complete r (.estimator b) todo →
    s.session.graph.complete b.id s.now = .ok (snapshot, g) → hasCamera b = true →
      snapshot.camera.isSome = true
  estimator : (s.worker .estimator).dropped = 0
  /-- An offer `main` makes to an idle worker is not rejected. -/
  accepted : ∀ s', s.mainStep o = some s' → ∀ r, r = .estimator ∨ r = .control →
    (s.worker r).pending = false → (s'.worker r).dropped = (s.worker r).dropped
  results : ∀ r, ∀ res ∈ (s.worker r).result,
    res.job.release ≤ res.start ∧ res.start ≤ res.finish ∧
      Word.sub 64 res.start res.job.release = res.start - res.job.release ∧
      Word.sub 64 res.finish res.job.release = res.finish - res.job.release

section Safe

variable {o : Options} {s : State}

/-- **Safety**: whatever the clock and the threads do, the dispatcher meets
the precondition of each call it makes, and no age it computes wraps. -/
theorem dispatcher_safe (h : Reachable o s) : Safe o s := by
  obtain ⟨hacc, hlawful⟩ := h.lawful
  constructor
  case alive => exact hlawful.alive
  case answered => exact hlawful.answered
  case offers => exact fun r m todo hpc => hlawful.next hacc hpc
  case owner => exact fun r b todo hpc => (hacc.owner hpc).1
  case camera =>
      intro r b todo snapshot g hpc hok hcamera
      obtain ⟨hrun, hknown⟩ := hacc.owner hpc
      exact complete_camera hrun hknown hok hcamera
  case estimator => exact hacc.held.kept
  case accepted =>
      intro s' hs r hr hidle
      exact (main_turn hs).dropped (hlawful.safe hacc) hr hidle
  case results =>
      intro r res hres
      obtain ⟨hreleased, hassigned, hstarted, hfinished⟩ := (hlawful.workers r).result res hres
      have hword : clockLimit < Word.size 64 := by decide
      have hstart : res.job.release ≤ res.start := Nat.le_trans hreleased hassigned
      have hnow : res.finish < Word.size 64 :=
        Nat.lt_of_le_of_lt hfinished (Nat.lt_trans hlawful.limit hword)
      refine ⟨hstart, hstarted, Word.sub_of_le hstart ?_, Word.sub_of_le ?_ hnow⟩
      · exact Nat.lt_of_le_of_lt hstarted hnow
      · exact Nat.le_trans hstart hstarted

/-- The tour drops no batch and does not fail. -/
theorem dispatcher_safe_tour : (tourEnd.worker .estimator).dropped = 0 ∧
    ∀ what, tourEnd.pc ≠ .failed what := by
  have hsafe := dispatcher_safe tourEnd_reachable
  exact ⟨hsafe.estimator, hsafe.alive⟩

end Safe

end ScxSlam.Workload
