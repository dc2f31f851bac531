import Mathlib.Logic.Function.Basic
import ScxSlam.Workload.Loop

/-!
# ScxSlam.Workload.Account

What the dispatch loop accounts for.  Three invariants carry it over every
interleaving of the dispatcher and the threads:

* `Held` ties the workers to the graph: each completion function still to be
  called stands for one measurement, batch or outcome that the graph and the
  counters do not know of yet;
* `Fed` ties the workers to the sources: each release is offered once, and
  behind a source's loop no release before the reading `t` is left;
* `Left` is what the test before the `break` has seen.
-/

namespace ScxSlam.Workload

open DependentGraph

/-! ## the workers and the graph -/

/-- The worker whose jobs offer measurements of a stream. -/
def roleOf : Lane → Role
  | .imu => .imu
  | .camera => .camera

/-- The completion functions of a worker's jobs. -/
def Closure.Fits : Role → Closure → Prop
  | .imu, .offer m => m.stream = .imu
  | .camera, .offer m => m.stream = .camera
  | .estimator, .estimator _ => True
  | .control, .control _ => True
  | .mapping, .mapping _ => True
  | .hog0, .hog => True
  | .hog1, .hog => True
  | _, _ => False

/-- The completion function that is being called, if it is one of a worker's. -/
def Pc.owed : Pc → Role → List Closure
  | .complete r c _ => Function.update (fun _ => []) r [c]
  | _ => fun _ => []

/-- The workers' tallies, the completion function being called, the graph's
session and the number of counted outcomes fit together. -/
structure Held (T : Role → Tally Closure) (owed : Role → List Closure) (S : Session)
    (outcomes : Nat) : Prop where
  fits : ∀ r, ∀ c ∈ owed r ++ (T r).closures, c.Fits r
  books : Books 32 8 S
  streams : ∀ i, (S.graph.accounting.get i).offered + (owed (roleOf i)).length =
    (T (roleOf i)).completed
  /-- The estimator has one job, about the running batch, or none. -/
  estimator : owed .estimator ++ (T .estimator).closures =
    S.graph.running.toList.map Closure.estimator
  selected : (T .estimator).offered = (batches S.history).length
  kept : (T .estimator).dropped = 0
  mapped : (T .mapping).offered = (completedBatches S.history).countP hasCamera
  counted : outcomes + (owed .control).length = (T .control).completed

section Held

variable {T : Role → Tally Closure} {owed : Role → List Closure} {S : Session} {outcomes : Nat}

/-- Neither the estimator nor the mapping worker is concerned. -/
def Role.plain (r : Role) : Prop := r ≠ .estimator ∧ r ≠ .mapping

/-- Another worker drops an offer. -/
theorem Held.drop (h : Held T owed S outcomes) {r : Role} (hr : r.plain) :
    Held (Function.update T r (T r).drop) owed S outcomes := by
  have hsame : ∀ q, (Function.update T r (T r).drop q).closures = (T q).closures ∧
      (Function.update T r (T r).drop q).completed = (T q).completed := by
    refine (Function.forall_update_iff T (fun q v =>
      v.closures = (T q).closures ∧ v.completed = (T q).completed)).mpr ⟨⟨rfl, rfl⟩, ?_⟩
    exact fun q _ => ⟨rfl, rfl⟩
  refine ⟨?_, h.books, ?_, ?_, ?_, ?_, ?_, ?_⟩
  · intro q
    rw [(hsame q).1]
    exact h.fits q
  · intro i
    rw [(hsame _).2]
    exact h.streams i
  · rw [(hsame _).1]
    exact h.estimator
  · rw [Function.update_of_ne hr.1.symm]
    exact h.selected
  · rw [Function.update_of_ne hr.1.symm]
    exact h.kept
  · rw [Function.update_of_ne hr.2.symm]
    exact h.mapped
  · rw [(hsame _).2]
    exact h.counted

/-- Another worker takes a job. -/
theorem Held.push (h : Held T owed S outcomes) {r : Role} (hr : r.plain) {c : Closure}
    (hc : c.Fits r) : Held (Function.update T r ((T r).push c)) owed S outcomes := by
  have hsame : ∀ q, (Function.update T r ((T r).push c) q).completed = (T q).completed := by
    refine (Function.forall_update_iff T (fun q v => v.completed = (T q).completed)).mpr
      ⟨rfl, fun q _ => rfl⟩
  refine ⟨?_, h.books, ?_, ?_, ?_, ?_, ?_, ?_⟩
  · refine (Function.forall_update_iff T (fun q v =>
      ∀ c ∈ owed q ++ v.closures, c.Fits q)).mpr ⟨?_, fun q _ => h.fits q⟩
    intro c' hc'
    rw [Tally.push, ← List.append_assoc] at hc'
    obtain hc' | hc' := List.mem_append.mp hc'
    · exact h.fits r c' hc'
    · rw [List.mem_singleton.mp hc']
      exact hc
  · intro i
    rw [hsame]
    exact h.streams i
  · rw [Function.update_of_ne hr.1.symm]
    exact h.estimator
  · rw [Function.update_of_ne hr.1.symm]
    exact h.selected
  · rw [Function.update_of_ne hr.1.symm]
    exact h.kept
  · rw [Function.update_of_ne hr.2.symm]
    exact h.mapped
  · rw [hsame]
    exact h.counted

/-- A completion function leaves its worker and is called. -/
theorem Held.collect (h : Held T (fun _ => []) S outcomes) {r : Role} {c : Closure}
    {rest : List Closure} (hc : (T r).closures = c :: rest) :
    Held (Function.update T r (T r).pop) (Function.update (fun _ => []) r [c]) S outcomes := by
  have hdue : ∀ q, Function.update (fun _ => []) r [c] q ++
      (Function.update T r (T r).pop q).closures = (T q).closures := by
    refine (Function.forall_update_iff T (fun q v =>
      Function.update (fun _ => []) r [c] q ++ v.closures = (T q).closures)).mpr ⟨?_, ?_⟩
    · rw [Function.update_self, Tally.pop, hc]
      rfl
    · intro q hq
      rw [Function.update_of_ne hq]
      rfl
  have hdone : ∀ q, (Function.update T r (T r).pop q).completed =
      (T q).completed + (Function.update (fun _ => []) r [c] q).length := by
    refine (Function.forall_update_iff T (fun q v => v.completed =
      (T q).completed + (Function.update (fun _ => []) r [c] q).length)).mpr ⟨?_, ?_⟩
    · rw [Function.update_self]
      rfl
    · intro q hq
      rw [Function.update_of_ne hq]
      rfl
  have hoff : ∀ q, (Function.update T r (T r).pop q).offered = (T q).offered ∧
      (Function.update T r (T r).pop q).dropped = (T q).dropped := by
    refine (Function.forall_update_iff T (fun q v =>
      v.offered = (T q).offered ∧ v.dropped = (T q).dropped)).mpr ⟨⟨rfl, rfl⟩, ?_⟩
    exact fun q _ => ⟨rfl, rfl⟩
  refine ⟨?_, h.books, ?_, ?_, ?_, ?_, ?_, ?_⟩
  · intro q
    rw [hdue]
    exact h.fits q
  · intro i
    rw [hdone]
    exact congrArg (· + _) (h.streams i)
  · rw [hdue]
    exact h.estimator
  · rw [(hoff _).1]
    exact h.selected
  · rw [(hoff _).2]
    exact h.kept
  · rw [(hoff _).1]
    exact h.mapped
  · rw [hdone]
    exact congrArg (· + _) h.counted

/-- The completion function being called is one of its worker's. -/
theorem Held.fits_owed {r : Role} {c : Closure}
    (h : Held T (Function.update (fun _ => []) r [c]) S outcomes) : c.Fits r := by
  refine h.fits r c ?_
  rw [Function.update_self]
  simp

/-- A completion function that touches nothing counted returns. -/
theorem Held.idle {r : Role} {c : Closure}
    (h : Held T (Function.update (fun _ => []) r [c]) S outcomes)
    (hc : c = .hog ∨ ∃ s, c = .mapping s) : Held T (fun _ => []) S outcomes := by
  have hr : r = .mapping ∨ r = .hog0 ∨ r = .hog1 := by
    have hfits := h.fits_owed
    obtain rfl | ⟨s, rfl⟩ := hc <;> cases r <;> simp_all [Closure.Fits]
  have hother : ∀ q, q ≠ .mapping → q ≠ .hog0 → q ≠ .hog1 →
      Function.update (fun _ => ([] : List Closure)) r [c] q = [] := by
    intro q h1 h2 h3
    rw [Function.update_of_ne]
    obtain rfl | rfl | rfl := hr <;> assumption
  refine ⟨?_, h.books, ?_, ?_, h.selected, h.kept, h.mapped, ?_⟩
  · exact fun q c' hc' => h.fits q c' (List.mem_append_right _ hc')
  · intro i
    have hi := h.streams i
    rwa [hother] at hi <;> cases i <;> simp [roleOf]
  · have he := h.estimator
    rwa [hother] at he <;> simp
  · have hk := h.counted
    rwa [hother] at hk <;> simp

/-- A control job's completion function counts one outcome. -/
theorem Held.outcome {r : Role} {selection : Control}
    (h : Held T (Function.update (fun _ => []) r [.control selection]) S outcomes) :
    Held T (fun _ => []) S (outcomes + 1) := by
  have hr : r = .control := by
    have hfits := h.fits_owed
    cases r <;> simp_all [Closure.Fits]
  subst hr
  refine ⟨?_, h.books, ?_, ?_, h.selected, h.kept, h.mapped, ?_⟩
  · exact fun q c' hc' => h.fits q c' (List.mem_append_right _ hc')
  · intro i
    have hi := h.streams i
    rwa [Function.update_of_ne] at hi
    cases i <;> simp [roleOf]
  · exact h.estimator
  · exact h.counted

/-- A call that selects and completes nothing. -/
theorem quiet_history {c : Call} {r : Response} {g : Graph} (hs : selected1 (c, r) = none)
    (hc : completed1 (c, r) = none) : batches (S.after c r g).history = batches S.history ∧
      completedBatches (S.after c r g).history = completedBatches S.history := by
  have hb : batches (S.after c r g).history = batches S.history := by
    rw [batches_after, hs, Option.toList, List.append_nil]
  have hids : completions (S.after c r g).history = completions S.history := by
    rw [completions_after, hc, Option.toList, List.append_nil]
  refine ⟨hb, ?_⟩
  rw [completedBatches, completedBatches, hb, hids]

/-- A sensor job's completion function belongs to the worker of its stream. -/
theorem Held.lane {r : Role} {m : Measurement}
    (h : Held T (Function.update (fun _ => []) r [.offer m]) S outcomes) :
    ∃ i : Lane, m.stream = i.stream ∧ r = roleOf i := by
  have hfits := h.fits_owed
  cases r with
  | imu => exact ⟨.imu, hfits, rfl⟩
  | camera => exact ⟨.camera, hfits, rfl⟩
  | _ => exact hfits.elim

/-- A sensor job's completion function offers its measurement. -/
theorem Held.offered {r : Role} {m : Measurement} {t : Nat} {b : Bool} {g : Graph}
    (h : Held T (Function.update (fun _ => []) r [.offer m]) S outcomes)
    (ho : S.graph.offer m t = .ok (b, g)) :
    Held T (fun _ => []) (S.after (.offer m t) (.offered b) g) outcomes := by
  obtain ⟨i, hm, -, -, hcase⟩ := offer_ok ho
  have hr : r = roleOf i := by
    obtain ⟨j, hj, hr⟩ := h.lane
    rw [hr, Lane.stream_inj.mp (hj.symm.trans hm)]
  have hacc : ∀ j, (g.accounting.get j).offered =
      (S.graph.accounting.get j).offered + if j = i then 1 else 0 := by
    intro j
    obtain ⟨-, -, rfl⟩ | ⟨-, -, rfl⟩ := hcase <;> rw [Lanes.get_set] <;>
      by_cases hj : j = i <;> simp [hj]
  have hrun : g.running = S.graph.running := by
    obtain ⟨-, -, rfl⟩ | ⟨-, -, rfl⟩ := hcase <;> rfl
  have hother : ∀ q, q ≠ roleOf i →
      Function.update (fun _ => ([] : List Closure)) r [.offer m] q = [] := by
    intro q hq
    rw [Function.update_of_ne (hr ▸ hq)]
  obtain ⟨hbatches, hcompleted⟩ :=
    quiet_history (S := S) (c := .offer m t) (r := .offered b) (g := g) rfl rfl
  refine ⟨?_, h.books.offer ho, ?_, ?_, ?_, h.kept, ?_, ?_⟩
  · exact fun q c' hc' => h.fits q c' (List.mem_append_right _ hc')
  · intro j
    have hj := h.streams j
    show (g.accounting.get j).offered + 0 = _
    rw [hacc j]
    by_cases hji : j = i
    · subst hji
      rw [hr, Function.update_self] at hj
      simpa using hj
    · rw [hother] at hj
      · simpa [hji] using hj
      · cases i <;> cases j <;> simp_all [roleOf]
  · have he := h.estimator
    rw [hother] at he
    · show _ = g.running.toList.map _
      rw [hrun]
      exact he
    · cases i <;> simp [roleOf]
  · rw [hbatches]
    exact h.selected
  · rw [hcompleted]
    exact h.mapped
  · have hk := h.counted
    rwa [hother] at hk
    cases i <;> simp [roleOf]

/-- The estimator's completion function is about the running batch. -/
theorem Held.running {r : Role} {b : Batch}
    (h : Held T (Function.update (fun _ => []) r [.estimator b]) S outcomes) :
    r = .estimator ∧ S.graph.running = some b ∧ (T .estimator).closures = [] := by
  have hr : r = .estimator := by
    have hf := h.fits_owed
    cases r <;> simp_all [Closure.Fits]
  subst hr
  have he := h.estimator
  rw [Function.update_self] at he
  cases hb : S.graph.running with
  | none => simp [hb] at he
  | some b' =>
      simp only [hb, List.cons_append, List.nil_append, Option.toList_some, List.map_cons,
        List.map_nil, List.cons.injEq, Closure.estimator.injEq] at he
      exact ⟨rfl, by rw [he.1], he.2⟩

/-- The estimator's completion function retires its batch, and the mapping
worker gets a job for each batch with camera input. -/
theorem Held.completed {T' : Role → Tally Closure} {r : Role} {b : Batch} {t : Nat}
    {snapshot : Snapshot} {g : Graph}
    (h : Held T (Function.update (fun _ => []) r [.estimator b]) S outcomes)
    (hc : S.graph.complete b.id t = .ok (snapshot, g))
    (hother : ∀ q, q ≠ .mapping → T' q = T q)
    (hoff : (T' .mapping).offered = (T .mapping).offered + (hasCamera b).toNat)
    (hfits : ∀ c ∈ (T' .mapping).closures, c.Fits .mapping) :
    Held T' (fun _ => []) (S.after (.complete b.id t) (.completed snapshot) g) outcomes := by
  obtain ⟨rfl, hrun, hnil⟩ := h.running
  obtain ⟨b', hb', -, -, hk⟩ := complete_ok hc
  have hsame : b' = b := Option.some.inj (hb'.symm.trans hrun)
  subst hsame
  have hcur : batches S.history = completedBatches S.history ++ [b'] := by
    rw [h.books.current, hb']
    rfl
  obtain ⟨-, acc, hg, hacc⟩ := hk (h.books.known b' (by rw [hcur]; simp))
  have hbooks := h.books.complete hc
  have hbatches : batches (S.after (.complete b'.id t) (.completed snapshot) g).history =
      batches S.history := batches_after.trans (List.append_nil _)
  have hdone : completedBatches (S.after (.complete b'.id t) (.completed snapshot) g).history =
      completedBatches S.history ++ [b'] := by
    have hcurrent := hbooks.current
    have hafter : (S.after (.complete b'.id t) (.completed snapshot) g).graph.running = none := by
      rw [hg]
      rfl
    rw [hbatches, hcur, hafter, Option.toList, List.append_nil] at hcurrent
    exact hcurrent.symm
  refine ⟨?_, hbooks, ?_, ?_, ?_, ?_, ?_, ?_⟩
  · intro q
    by_cases hq : q = .mapping
    · subst hq
      exact hfits
    · rw [hother q hq]
      exact fun c' hc' => h.fits q c' (List.mem_append_right _ hc')
  · intro i
    have hi := h.streams i
    rw [Function.update_of_ne (by cases i <;> simp [roleOf])] at hi
    rw [hother _ (by cases i <;> simp [roleOf])]
    show (g.accounting.get i).offered + 0 = _
    rw [hg, hacc i]
    exact hi
  · show (T' .estimator).closures = g.running.toList.map _
    rw [hother _ (by simp), hnil, hg]
    rfl
  · rw [hother _ (by simp), hbatches]
    exact h.selected
  · rw [hother _ (by simp)]
    exact h.kept
  · rw [hoff, hdone, List.countP_append, ← h.mapped]
    cases hcam : hasCamera b' <;> simp [hcam]
  · rw [hother _ (by simp)]
    have hk := h.counted
    rwa [Function.update_of_ne (by simp)] at hk

/-- A batch is selected for the idle estimator, which takes it. -/
theorem Held.selectSome {b : Batch} {t : Nat} {g : Graph} (h : Held T (fun _ => []) S outcomes)
    (hidle : (T .estimator).closures = []) (hs : S.graph.select t = .ok (some b, g)) :
    Held (Function.update T .estimator ((T .estimator).push (.estimator b))) (fun _ => [])
      (S.after (.select t) (.selected (some b)) g) outcomes := by
  obtain ⟨-, ⟨hnone, -⟩ | ⟨-, -, hsome, hg⟩⟩ := select_ok hs
  · cases hnone
  have hbatches : batches (S.after (.select t) (.selected (some b)) g).history =
      batches S.history ++ [b] := batches_after
  have hbooks := h.books.select hs
  have hrun : g.running = some b := by rw [hg, ← Option.some.inj hsome]
  have hdone : completedBatches (S.after (.select t) (.selected (some b)) g).history =
      completedBatches S.history := by
    have hnone : S.graph.running = none := by
      have he := h.estimator
      rw [hidle] at he
      cases hb : S.graph.running with
      | none => rfl
      | some b' => simp [hb] at he
    have hcurrent := hbooks.current
    have hafter : (S.after (.select t) (.selected (some b)) g).graph.running = some b := hrun
    rw [hbatches, h.books.current, hnone, hafter] at hcurrent
    simpa using hcurrent.symm
  have hother : ∀ q, q ≠ .estimator →
      Function.update T .estimator ((T .estimator).push (.estimator b)) q = T q :=
    fun q hq => Function.update_of_ne hq _ _
  refine ⟨?_, hbooks, ?_, ?_, ?_, ?_, ?_, ?_⟩
  · intro q
    by_cases hq : q = .estimator
    · subst hq
      rw [Function.update_self, Tally.push, hidle]
      intro c hc
      rw [List.mem_singleton.mp hc]
      trivial
    · rw [hother q hq]
      exact h.fits q
  · intro i
    rw [hother _ (by cases i <;> simp [roleOf])]
    show (g.accounting.get i).offered + 0 = _
    rw [hg]
    exact h.streams i
  · rw [Function.update_self, Tally.push, hidle]
    show [_] = g.running.toList.map _
    rw [hrun]
    rfl
  · rw [Function.update_self, hbatches, List.length_append, ← h.selected]
    rfl
  · rw [Function.update_self]
    exact h.kept
  · rw [hother _ (by simp), hdone]
    exact h.mapped
  · rw [hother _ (by simp)]
    exact h.counted

/-- A call that only moves the graph's clock, its tick or nothing. -/
theorem Held.quiet {c : Call} {r : Response} {g : Graph} (h : Held T owed S outcomes)
    (hbooks : Books 32 8 (S.after c r g)) (hs : selected1 (c, r) = none)
    (hc : completed1 (c, r) = none) (hrun : g.running = S.graph.running)
    (hacc : g.accounting = S.graph.accounting) : Held T owed (S.after c r g) outcomes := by
  obtain ⟨hbatches, hdone⟩ := quiet_history (S := S) (g := g) hs hc
  refine ⟨h.fits, hbooks, ?_, ?_, ?_, h.kept, ?_, h.counted⟩
  · intro i
    show (g.accounting.get i).offered + _ = _
    rw [hacc]
    exact h.streams i
  · show _ = g.running.toList.map _
    rw [hrun]
    exact h.estimator
  · rw [hbatches]
    exact h.selected
  · rw [hdone]
    exact h.mapped

/-- There was nothing to select. -/
theorem Held.selectNone {t : Nat} {g : Graph} (h : Held T owed S outcomes)
    (hs : S.graph.select t = .ok (none, g)) :
    Held T owed (S.after (.select t) (.selected none) g) outcomes := by
  obtain ⟨-, ⟨-, hg⟩ | ⟨-, -, hsome, -⟩⟩ := select_ok hs
  · refine h.quiet (h.books.select hs) rfl rfl ?_ ?_ <;>
      obtain ⟨-, rfl⟩ | ⟨-, -, rfl⟩ := hg <;> rfl
  · cases hsome

/-- The control source reads the graph. -/
theorem Held.controlled {t setpoint maxImuAge : Nat} {selection : Control} {g : Graph}
    (h : Held T owed S outcomes) (hc : S.graph.control t setpoint maxImuAge = .ok (selection, g)) :
    Held T owed (S.after (.control t setpoint maxImuAge) (.controlled selection) g) outcomes := by
  obtain ⟨-, hg, -⟩ := control_ok hc
  exact h.quiet (h.books.control hc) rfl rfl (by rw [hg]) (by rw [hg])

end Held

/-! ## the invariant along the loop -/

def State.tallies (s : State) (r : Role) : Tally Closure := (s.worker r).tally

/-- Every worker is sound, and the workers fit the graph. -/
structure Account (s : State) : Prop where
  sound : ∀ r, (s.worker r).Sound
  held : Held s.tallies s.pc.owed s.session (s.usable + s.stale + s.missing)

/-- The loop has failed, or the account holds. -/
def Kept (s : State) : Prop := (∃ what, s.pc = .failed what) ∨ Account s

section Loop

variable {o : Options} {s s' : State} {r : Role} {W : Worker Closure} {job : Job Closure}

theorem Pool.get_set {α : Type} (p : Pool α) (r : Role) (v : α) :
    (p.set r v).get = Function.update p.get r v := by
  funext q
  by_cases hq : q = r
  · subst hq
    rw [Pool.get_set_self, Function.update_self]
  · rw [Pool.get_set_of_ne p v hq, Function.update_of_ne hq]

theorem worker_setWorker (s : State) (r : Role) (W : Worker Closure) :
    (s.setWorker r W).worker = Function.update s.worker r W :=
  Pool.get_set s.pool r W

theorem tallies_setWorker (s : State) (r : Role) (W : Worker Closure) :
    (s.setWorker r W).tallies = Function.update s.tallies r W.tally := by
  funext q
  show ((s.setWorker r W).worker q).tally = _
  rw [worker_setWorker]
  by_cases hq : q = r
  · subst hq
    rw [Function.update_self, Function.update_self]
  · rw [Function.update_of_ne hq, Function.update_of_ne hq]
    rfl

/-- A sound worker is replaced by a sound one. -/
theorem sound_setWorker (h : ∀ q, (s.worker q).Sound) (hW : W.Sound) (q : Role) :
    ((s.setWorker r W).worker q).Sound := by
  rw [worker_setWorker]
  exact (Function.forall_update_iff s.worker (fun _ w => w.Sound)).mpr ⟨hW, fun q _ => h q⟩ q

/-- A worker's own step, or its `dispatch`. -/
theorem Account.replace (h : Account s) (hW : W.Sound ∧ W.tally = (s.worker r).tally) :
    Account (s.setWorker r W) := by
  refine ⟨sound_setWorker h.sound hW.1, ?_⟩
  rw [tallies_setWorker, hW.2]
  have hsame : Function.update s.tallies r (s.worker r).tally = s.tallies :=
    Function.update_eq_self r s.tallies
  rw [hsame]
  exact h.held

/-- An offer to a worker other than the estimator and the mapping worker. -/
theorem Account.offerTo (h : Account s) (hr : r.plain) (hc : job.complete.Fits r) :
    Account (s.offerTo r job) := by
  refine ⟨sound_setWorker h.sound ((h.sound r).offer job), ?_⟩
  rw [State.offerTo, tallies_setWorker]
  by_cases hfull : (s.worker r).queue.length = Worker.capacity
  · rw [Worker.offer_full hfull]
    exact h.held.drop hr
  · rw [Worker.offer_room hfull]
    exact h.held.push hr hc

/-- An offer to the mapping worker. -/
theorem offerMapping (h : ∀ q, (s.worker q).Sound)
    (hfits : ∀ c ∈ (s.worker .mapping).closures, c.Fits .mapping)
    (hc : job.complete.Fits .mapping) : (∀ q, ((s.offerTo .mapping job).worker q).Sound) ∧
      (∀ q, q ≠ .mapping → (s.offerTo .mapping job).tallies q = s.tallies q) ∧
      ((s.offerTo .mapping job).tallies .mapping).offered = (s.tallies .mapping).offered + 1 ∧
      ∀ c ∈ ((s.offerTo .mapping job).tallies .mapping).closures, c.Fits .mapping := by
  refine ⟨sound_setWorker h ((h .mapping).offer job), ?_⟩
  rw [State.offerTo, tallies_setWorker, Function.update_self]
  refine ⟨fun q hq => Function.update_of_ne hq _ _, ?_⟩
  by_cases hfull : (s.worker .mapping).queue.length = Worker.capacity
  · rw [Worker.offer_full hfull]
    exact ⟨rfl, hfits⟩
  · rw [Worker.offer_room hfull]
    refine ⟨rfl, ?_⟩
    intro c hmem
    obtain hmem | hmem := List.mem_append.mp hmem
    · exact hfits c hmem
    · rw [List.mem_singleton.mp hmem]
      exact hc

/-- An offer to the idle estimator. -/
theorem offerEstimator (h : ∀ q, (s.worker q).Sound)
    (hidle : (s.worker .estimator).closures = []) :
    (∀ q, ((s.offerTo .estimator job).worker q).Sound) ∧ (s.offerTo .estimator job).tallies =
      Function.update s.tallies .estimator ((s.tallies .estimator).push job.complete) := by
  have hroom : (s.worker .estimator).queue.length ≠ Worker.capacity := by
    rw [((h .estimator).closures_eq_nil.mp hidle).2]
    decide
  refine ⟨sound_setWorker h ((h .estimator).offer job), ?_⟩
  rw [State.offerTo, tallies_setWorker, Worker.offer_room hroom]
  rfl

theorem Account.goto {pc : Pc} (h : Account s) (hpc : pc.owed = s.pc.owed) :
    Account (s.goto pc) := by
  refine ⟨h.sound, ?_⟩
  show Held s.tallies pc.owed s.session _
  rw [hpc]
  exact h.held

/-- A call on the graph throws, or it returns with a new graph. -/
theorem respond_cases {α : Type} (g : Graph) (f : α → Response)
    (e : Except String (α × Graph)) : (∃ what, g.respond f e = (.threw what, g)) ∨
      ∃ a g', e = .ok (a, g') ∧ g.respond f e = (f a, g') := by
  cases e with
  | error what => exact .inl ⟨what, rfl⟩
  | ok p => exact .inr ⟨p.1, p.2, rfl, rfl⟩

/-! ## each piece of the loop -/

theorem kept_collect {todo : List Role} (h : Account s) (hpc : s.pc.owed = fun _ => []) :
    Kept (s.collectStep todo) := by
  refine .inr ?_
  cases todo with
  | nil => exact h.goto hpc.symm
  | cons r todo =>
      simp only [State.collectStep]
      split
      · next W hc =>
        rw [Worker.eq_of_collect_none hc]
        exact (h.replace ⟨h.sound r, rfl⟩).goto hpc.symm
      · next W c hc =>
        obtain ⟨hsound, hclosures, htally⟩ := (h.sound r).collect hc
        refine ⟨sound_setWorker h.sound hsound, ?_⟩
        have hheld := h.held
        rw [hpc] at hheld
        have hcollect := hheld.collect (r := r) hclosures
        show Held (s.setWorker r W).tallies _ _ _
        rw [tallies_setWorker, htally]
        exact hcollect

theorem kept_complete {r : Role} {c : Closure} {todo : List Role} (h : Account s)
    (hpc : s.pc = .complete r c todo) : Kept (s.completeStep c todo) := by
  have hheld := h.held
  rw [hpc] at hheld
  cases c with
  | hog => exact .inr ⟨h.sound, hheld.idle (.inl rfl)⟩
  | mapping snapshot => exact .inr ⟨h.sound, hheld.idle (.inr ⟨snapshot, rfl⟩)⟩
  | offer m =>
      unfold State.completeStep State.call
      rcases respond_cases s.session.graph .offered (s.session.graph.offer m s.now) with
        ⟨what, hthrew⟩ | ⟨b, g, hok, hresp⟩
      · refine .inl ⟨what, ?_⟩
        simp only [Graph.call, hthrew]
        rfl
      · refine .inr ?_
        simp only [Graph.call, hresp]
        exact ⟨h.sound, hheld.offered hok⟩
  | control selection =>
      refine .inr ⟨h.sound, ?_⟩
      have hone : ((s.tally selection).usable + (s.tally selection).stale) +
          (s.tally selection).missing = s.usable + s.stale + s.missing + 1 := by
        unfold State.tally
        cases selection.outcome <;> simp <;> omega
      show Held s.tallies (fun _ => []) s.session
        ((s.tally selection).usable + (s.tally selection).stale + (s.tally selection).missing)
      rw [hone]
      exact hheld.outcome
  | estimator b =>
      unfold State.completeStep State.call
      rcases respond_cases s.session.graph .completed (s.session.graph.complete b.id s.now) with
        ⟨what, hthrew⟩ | ⟨snapshot, g, hok, hresp⟩
      · refine .inl ⟨what, ?_⟩
        simp only [Graph.call, hthrew]
        rfl
      · simp only [Graph.call, hresp]
        have hfits : ∀ c ∈ (s.worker .mapping).closures, c.Fits .mapping := fun c hc =>
          h.held.fits .mapping c (List.mem_append_right _ hc)
        cases hcam : hasCamera b with
        | false =>
            refine .inr ⟨h.sound, ?_⟩
            exact hheld.completed hok (fun q _ => rfl) (by rw [hcam]; rfl) hfits
        | true =>
            cases hm : snapshot.camera with
            | none => exact .inl ⟨_, rfl⟩
            | some m =>
                have hoffer := @offerMapping s (State.mappingJob snapshot m) h.sound hfits trivial
                refine .inr ⟨hoffer.1, ?_⟩
                refine hheld.completed hok hoffer.2.1 ?_ hoffer.2.2.2
                rw [hcam]
                exact hoffer.2.2.1

/-- A hog is not concerned with the graph. -/
theorem Account.offerHog (h : Account s) (hr : r = .hog0 ∨ r = .hog1) :
    Account (s.offerHog r) := by
  unfold State.offerHog
  split
  · obtain rfl | rfl := hr <;> exact h.offerTo (by simp [Role.plain]) trivial
  · exact h

theorem mem_hogs (hr : r ∈ o.hogs) : r = .hog0 ∨ r = .hog1 := by
  have hmem := List.mem_of_mem_take hr
  simpa using hmem

/-- The loop over the hogs. -/
theorem Account.offerHogs (h : Account s) (hpc : s.pc.owed = fun _ => []) {hogs : List Role}
    (hhogs : ∀ r ∈ hogs, r = .hog0 ∨ r = .hog1) : Account (hogs.foldl State.offerHog s) ∧
      (hogs.foldl State.offerHog s).pc.owed = fun _ => [] := by
  induction hogs generalizing s with
  | nil => exact ⟨h, hpc⟩
  | cons r hogs ih =>
      have hnext : Account (s.offerHog r) := h.offerHog (hhogs r List.mem_cons_self)
      refine ih hnext ?_ (fun q hq => hhogs q (List.mem_cons_of_mem r hq))
      unfold State.offerHog
      split <;> exact hpc

theorem kept_hogs (h : Account s) (hpc : s.pc.owed = fun _ => []) : Kept (s.hogsStep o) := by
  refine .inr ?_
  unfold State.hogsStep
  split
  · obtain ⟨hacc, howed⟩ := h.offerHogs hpc (fun r => mem_hogs)
    exact hacc.goto howed.symm
  · exact h.goto hpc.symm

theorem kept_imu (h : Account s) (hpc : s.pc.owed = fun _ => []) : Kept s.imuStep := by
  refine .inr ?_
  unfold State.imuStep
  split
  · have hoffer : Account (s.offerTo .imu
        (State.sensorJob ⟨.imu, s.imu.id + 1, s.imu.next⟩ (5 * ms) 150000)) :=
      h.offerTo (by simp [Role.plain]) rfl
    exact ⟨hoffer.sound, hoffer.held⟩
  · exact h.goto hpc.symm

theorem kept_camera (h : Account s) (hpc : s.pc.owed = fun _ => []) : Kept s.cameraStep := by
  refine .inr ?_
  unfold State.cameraStep
  split
  · have hoffer : Account (s.offerTo .camera
        (State.sensorJob ⟨.camera, s.camera.id + 1, s.camera.next⟩ (33 * ms) (4 * ms))) :=
      h.offerTo (by simp [Role.plain]) rfl
    exact ⟨hoffer.sound, hoffer.held⟩
  · exact h.goto hpc.symm

/-- A control tick that `main` counts as dropped itself. -/
theorem Account.skipControl (h : Account s) : Account s.skipControl := by
  have hsound := h.sound .control
  have hcount := hsound.counted
  refine ⟨sound_setWorker h.sound ⟨hsound.one, ?_⟩, ?_⟩
  · show (s.worker .control).offered + 1 = (s.worker .control).dropped + 1 +
      (s.worker .control).completed + (s.worker .control).closures.length
    omega
  · rw [State.skipControl, tallies_setWorker]
    exact h.held.drop (by simp [Role.plain])

theorem kept_control (h : Account s) (hpc : s.pc.owed = fun _ => []) : Kept s.controlStep := by
  unfold State.controlStep
  split
  · split
    · exact .inr ⟨h.skipControl.sound, h.skipControl.held⟩
    · unfold State.call
      rcases respond_cases s.session.graph .controlled
          (s.session.graph.control s.now ((s.control.id + 1) / 100) (20 * ms)) with
        ⟨what, hthrew⟩ | ⟨selection, g, hok, hresp⟩
      · refine .inl ⟨what, ?_⟩
        simp only [Graph.call, hthrew]
        rfl
      · refine .inr ?_
        simp only [Graph.call, hresp]
        have hcalled : Account { s with
            session := (s.session.after (.control s.now ((s.control.id + 1) / 100) (20 * ms))
              (.controlled selection) g) } := ⟨h.sound, h.held.controlled hok⟩
        have hoffer : Account (State.offerTo _ .control
            (State.controlJob (s.control.id + 1) s.control.next selection)) :=
          hcalled.offerTo (by simp [Role.plain]) trivial
        exact ⟨hoffer.sound, hoffer.held⟩
  · exact .inr (h.goto hpc.symm)

theorem kept_estimator (h : Account s) (hpc : s.pc.owed = fun _ => []) :
    Kept (s.estimatorStep o) := by
  have hheld := h.held
  rw [hpc] at hheld
  unfold State.estimatorStep
  split
  · exact .inr (h.goto hpc.symm)
  · next hpending =>
    have hidle : (s.worker .estimator).closures = [] :=
      (h.sound .estimator).pending_eq_false.mp (by simpa using hpending)
    unfold State.call
    rcases respond_cases s.session.graph .selected (s.session.graph.select s.now) with
      ⟨what, hthrew⟩ | ⟨b?, g, hok, hresp⟩
    · refine .inl ⟨what, ?_⟩
      simp only [Graph.call, hthrew]
      rfl
    · simp only [Graph.call, hresp]
      cases b? with
      | none => exact .inr ⟨h.sound, hheld.selectNone hok⟩
      | some b =>
          dsimp only
          cases hin : b.inputs with
          | nil => exact .inl ⟨_, rfl⟩
          | cons m rest =>
              have hoffer := @offerEstimator s (State.estimatorJob o b m.sourceTime) h.sound hidle
              refine .inr ⟨hoffer.1, ?_⟩
              show Held (s.offerTo .estimator (State.estimatorJob o b m.sourceTime)).tallies
                (fun _ => []) (s.session.after (.select s.now) (.selected (some b)) g)
                (s.usable + s.stale + s.missing)
              rw [hoffer.2]
              exact hheld.selectSome hidle hok

theorem kept_dispatch {todo : List Role} (h : Account s) (hpc : s.pc.owed = fun _ => []) :
    Kept (s.dispatchStep todo) := by
  refine .inr ?_
  cases todo with
  | nil => exact h.goto hpc.symm
  | cons r todo => exact (h.replace ((h.sound r).dispatch s.now)).goto hpc.symm

theorem kept_exit (h : Account s) (hpc : s.pc.owed = fun _ => []) : Kept (s.exitStep o) := by
  refine .inr ?_
  unfold State.exitStep
  dsimp only
  split <;> exact h.goto hpc.symm

/-- Every step of the dispatcher. -/
theorem kept_main (h : Account s) (hs : s.mainStep o = some s') : Kept s' := by
  cases hpc : s.pc <;> rw [State.mainStep, hpc] at hs <;> cases hs
  case collect todo => exact kept_collect h (by rw [hpc]; rfl)
  case complete r c todo => exact kept_complete h hpc
  case clock => exact .inr ⟨h.sound, by have hheld := h.held; rwa [hpc] at hheld⟩
  case hogs => exact kept_hogs h (by rw [hpc]; rfl)
  case imu => exact kept_imu h (by rw [hpc]; rfl)
  case camera => exact kept_camera h (by rw [hpc]; rfl)
  case control => exact kept_control h (by rw [hpc]; rfl)
  case estimator => exact kept_estimator h (by rw [hpc]; rfl)
  case dispatch todo => exact kept_dispatch h (by rw [hpc]; rfl)
  case exit => exact kept_exit h (by rw [hpc]; rfl)

theorem step_kept (o : Options) : Steps.Preserved (step o) Kept := by
  intro s a s' h hs
  obtain ⟨what, hfailed⟩ | h := h
  · refine .inl ⟨what, ?_⟩
    cases a with
    | tick d =>
        rw [step] at hs
        split at hs <;> cases hs
        exact hfailed
    | thread r cpu =>
        rw [step] at hs
        obtain ⟨W, -, rfl⟩ := Option.map_eq_some_iff.mp hs
        exact hfailed
    | main =>
        rw [step, State.mainStep, hfailed] at hs
        cases hs
  · cases a with
    | tick d =>
        rw [step] at hs
        split at hs <;> cases hs
        exact .inr ⟨h.sound, h.held⟩
    | thread r cpu =>
        rw [step] at hs
        obtain ⟨W, hW, rfl⟩ := Option.map_eq_some_iff.mp hs
        exact .inr (h.replace ((h.sound r).advance hW))
    | main => exact kept_main h hs

end Loop

end ScxSlam.Workload
