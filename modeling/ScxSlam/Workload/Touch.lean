import ScxSlam.Workload.Traces

/-!
# ScxSlam.Workload.Touch

What the dispatcher can do to one worker in one step, and when the rows of the
traces were written.
-/

namespace ScxSlam.Workload

/-! ## what a turn does to a worker -/

/-- What the dispatcher can do to one worker in one step. -/
inductive Touch (now : Nat) (W : Worker Closure) : Worker Closure → Prop
  | same : Touch now W W
  | offer (job : Job Closure) : Touch now W (W.offer job)
  | skip : Touch now W { W with offered := W.offered + 1, dropped := W.dropped + 1 }
  | dispatch : Touch now W (W.dispatch now)
  | collect {W' : Worker Closure} {c : Closure} (hc : W.collect now = (W', some c)) :
      Touch now W W'

section Touch

variable {o : Options} {s s' : State} {r q : Role} {W W' : Worker Closure} {now : Nat}

/-- Putting one worker back touches that worker only. -/
theorem touch_setWorker (h : Touch now (s.worker q) W) :
    Touch now (s.worker r) ((s.setWorker q W).worker r) := by
  by_cases hr : r = q
  · subst hr
    rw [worker_setWorker, Function.update_self]
    exact h
  · rw [setWorker_of_ne s W hr]
    exact .same

/-- Each hog is offered at most one job, and no other worker is touched. -/
theorem touch_hogs {hogs : List Role} (hnodup : hogs.Nodup) :
    Touch now (s.worker r) ((hogs.foldl State.offerHog s).worker r) := by
  induction hogs generalizing s with
  | nil => exact .same
  | cons q hogs ih =>
      obtain ⟨hq, hnodup⟩ := List.nodup_cons.mp hnodup
      rw [List.foldl_cons]
      by_cases hr : r = q
      · subst hr
        rw [hogs_worker hq, State.offerHog]
        split
        · exact touch_setWorker (.offer _)
        · exact .same
      · have hsame : (s.offerHog q).worker r = s.worker r := by
          unfold State.offerHog
          split
          · exact setWorker_of_ne s _ hr
          · rfl
        have := ih (s := s.offerHog q) hnodup
        rwa [hsame] at this

/-- No hog is listed twice. -/
theorem nodup_hogs (o : Options) : o.hogs.Nodup :=
  List.Sublist.nodup (List.take_sublist _ _) (by decide)

/-- A step of the dispatcher that does not fail leaves the clock and the window, and
touches each worker at most once. -/
theorem Turn.touch (h : Turn o s s') (hsafe : ¬Fails s) (r : Role) :
    s'.now = s.now ∧ s'.begin = s.begin ∧ Touch s.now (s.worker r) (s'.worker r) := by
  cases h with
  | goto | clock | quiet | tally | offered | completed | nothing => exact ⟨rfl, rfl, .same⟩
  | collect hcalm hc => exact ⟨rfl, rfl, touch_setWorker (.collect hc)⟩
  | mapped => exact ⟨rfl, rfl, touch_setWorker (.offer _)⟩
  | hogs =>
      obtain ⟨pool, hpool⟩ := hogs_pool o.hogs s
      have hframe : (o.hogs.foldl State.offerHog s).now = s.now ∧
          (o.hogs.foldl State.offerHog s).begin = s.begin := by
        rw [hpool]
        exact ⟨rfl, rfl⟩
      exact ⟨hframe.1, hframe.2, touch_hogs (nodup_hogs o)⟩
  | imu => exact ⟨rfl, rfl, touch_setWorker (.offer _)⟩
  | camera => exact ⟨rfl, rfl, touch_setWorker (.offer _)⟩
  | skip => exact ⟨rfl, rfl, touch_setWorker .skip⟩
  | controlled => exact ⟨rfl, rfl, touch_setWorker (.offer _)⟩
  | selected => exact ⟨rfl, rfl, touch_setWorker (.offer _)⟩
  | dispatch => exact ⟨rfl, rfl, touch_setWorker .dispatch⟩
  | fail hfails => exact absurd hfails hsafe

/-- The window opens where it was set, and rows are written when they are
observed. -/
structure Observed (start : Nat) (s : State) : Prop where
  begin : s.begin = start + 100 * ms
  traces : ∀ r, ∀ row ∈ (s.worker r).traces, row.observed ≤ s.now

/-- At most one row is written, when the dispatcher reads its clock. -/
theorem Touch.traces (h : Touch now W W') :
    W'.traces = W.traces ∨ ∃ res : Result Closure, W'.traces = W.traces ++ [res.trace now] := by
  cases h with
  | same | skip => exact .inl rfl
  | offer job =>
      left
      unfold Worker.offer
      split <;> rfl
  | dispatch =>
      left
      unfold Worker.dispatch
      split
      · rfl
      · split <;> rfl
  | collect hc =>
      obtain ⟨res, -, -, rfl⟩ := Worker.collect_some hc
      dsimp only
      split
      · exact .inr ⟨res, rfl⟩
      · exact .inl rfl

/-- No step moves the window or stamps a row ahead of the clock. -/
theorem step_observed (o : Options) (start : Nat) :
    Steps.Preserved (step o) fun s => (Account s ∧ Lawful s) ∧ Observed start s := by
  intro s a s' ⟨hlawful, h⟩ hs
  refine ⟨step_lawful o s a s' hlawful hs, ?_⟩
  cases a with
  | tick d =>
      rw [step] at hs
      split at hs <;> cases hs
      exact ⟨h.begin, fun r row hrow => (h.traces r row hrow).trans (Nat.le_add_right _ _)⟩
  | thread q cpu =>
      rw [step] at hs
      obtain ⟨W, hW, rfl⟩ := Option.map_eq_some_iff.mp hs
      refine ⟨h.begin, fun r row hrow => ?_⟩
      by_cases hr : r = q
      · subst hr
        rw [worker_setWorker, Function.update_self, Worker.advance_frame hW] at hrow
        exact h.traces r row hrow
      · rw [setWorker_of_ne s W hr] at hrow
        exact h.traces r row hrow
  | main =>
      have hturn := (main_turn hs).touch (hlawful.2.safe hlawful.1)
      refine ⟨(hturn .imu).2.1.trans h.begin, fun r row hrow => ?_⟩
      obtain ⟨hnow, -, htouch⟩ := hturn r
      rw [hnow]
      obtain hsame | ⟨res, hmore⟩ := htouch.traces
      · rw [hsame] at hrow
        exact h.traces r row hrow
      · rw [hmore] at hrow
        obtain hrow | hrow := List.mem_append.mp hrow
        · exact h.traces r row hrow
        · rw [List.mem_singleton.mp hrow]
          exact Nat.le_refl _

/-- The rows of every run were observed by now. -/
theorem exec_observed {start : Nat} {as : List Action} (hstart : start < clockLimit)
    (h : Steps.exec (step o) (State.initial o start) as = some s) : Observed start s := by
  refine ((step_observed o start).exec
    ⟨⟨initial_account o start, initial_lawful o hstart⟩, rfl, ?_⟩ h).2
  intro r row hrow
  cases r <;> cases hrow

end Touch

end ScxSlam.Workload
