import ScxSlam.Workload.Worker

/-!
# ScxSlam.Workload.Timeline

What the jobs of one worker carry along: the five times of a job, which its
worker's thread and the dispatcher read from one clock, its id, and the row it
leaves when there is a trace.
-/

namespace ScxSlam.Workload

variable {κ : Type}

/-! ## times -/

/-- A dispatched job's times, up to `now`. -/
def Job.Timed (j : Job κ) (now : Nat) : Prop := j.release ≤ j.assigned ∧ j.assigned ≤ now

/-- A finished job's times, up to `now`. -/
structure Result.Timed (r : Result κ) (now : Nat) : Prop where
  released : r.job.release ≤ r.job.assigned
  assigned : r.job.assigned ≤ r.start
  started : r.start ≤ r.finish
  finished : r.finish ≤ now

def Activity.Timed (now : Nat) : Activity κ → Prop
  | .waiting => True
  | .taken job => job.Timed now
  | .compute job start => job.Timed start ∧ start ≤ now
  | .measured r => r.Timed now

/-- The order of the times in a row. -/
structure Trace.Ordered (row : Trace) : Prop where
  released : row.release ≤ row.assigned
  assigned : row.assigned ≤ row.start
  started : row.start ≤ row.finish
  finished : row.finish ≤ row.observed

namespace Worker

/-- Every time was read when it had come. -/
structure Timed (W : Worker κ) (now : Nat) : Prop where
  queue : ∀ j ∈ W.queue, j.release ≤ now
  slot : ∀ j ∈ W.slot, j.Timed now
  thread : W.thread.Timed now
  result : ∀ r ∈ W.result, r.Timed now
  traces : ∀ row ∈ W.traces, row.Ordered

section Times

variable {W W' : Worker κ} {now now' cpu : Nat} {job : Job κ} {c : κ}

/-- A worker that has seen no job. -/
theorem timed_fresh (cls : ServiceClass) (stage : Nat) (hinted tracing : Bool) :
    ({ cls := cls, stage := stage, hinted := hinted, tracing := tracing } : Worker κ).Timed now :=
  ⟨nofun, nofun, trivial, nofun, nofun⟩

/-- What was read in time stays so. -/
theorem Timed.mono (h : W.Timed now) (hle : now ≤ now') : W.Timed now' where
  queue j hj := Nat.le_trans (h.queue j hj) hle
  slot j hj := ⟨(h.slot j hj).1, Nat.le_trans (h.slot j hj).2 hle⟩
  thread := by
    have hthread := h.thread
    cases ht : W.thread with
    | waiting => trivial
    | taken job =>
        rw [ht] at hthread
        exact ⟨hthread.1, Nat.le_trans hthread.2 hle⟩
    | compute job start =>
        rw [ht] at hthread
        exact ⟨hthread.1, Nat.le_trans hthread.2 hle⟩
    | measured r =>
        rw [ht] at hthread
        exact { hthread with finished := Nat.le_trans hthread.finished hle }
  result r hr := { h.result r hr with finished := Nat.le_trans (h.result r hr).finished hle }
  traces := h.traces

/-- A job is offered once it is released. -/
theorem Timed.offer (h : W.Timed now) (hjob : job.release ≤ now) : (W.offer job).Timed now := by
  unfold Worker.offer
  split
  · exact { h with }
  · refine { h with queue := ?_ }
    intro j hj
    obtain hj | hj := List.mem_append.mp hj
    · exact h.queue j hj
    · rw [List.mem_singleton.mp hj]
      exact hjob

/-- A job is assigned now. -/
theorem Timed.dispatch (h : W.Timed now) : (W.dispatch now).Timed now := by
  unfold Worker.dispatch
  split
  · exact h
  · split
    · exact h
    · next j rest hq =>
      have hqueue := h.queue
      rw [hq] at hqueue
      refine { h with queue := fun k hk => hqueue k (List.mem_cons_of_mem j hk), slot := ?_ }
      intro k hk
      cases hk
      exact ⟨hqueue j List.mem_cons_self, Nat.le_refl now⟩

/-- The thread reads the clock now. -/
theorem Timed.advance (h : W.Timed now) (ha : W.advance now cpu = some W') : W'.Timed now := by
  obtain ⟨job, hthread, hslot, rfl⟩ | ⟨job, hthread, rfl⟩ | ⟨job, start, hthread, rfl⟩ |
    ⟨r, hthread, rfl⟩ := advance_cases ha
  · exact { h with slot := nofun, thread := h.slot job hslot }
  · have hjob := h.thread
    rw [hthread] at hjob
    exact { h with thread := ⟨hjob, Nat.le_refl now⟩ }
  · have hjob := h.thread
    rw [hthread] at hjob
    exact { h with thread := ⟨hjob.1.1, hjob.1.2, hjob.2, Nat.le_refl now⟩ }
  · have hr := h.thread
    rw [hthread] at hr
    refine { h with thread := trivial, result := ?_ }
    intro r' hr'
    cases hr'
    exact hr

/-- The dispatcher reads the clock once more for the row. -/
theorem Timed.collect (h : W.Timed now) (hc : W.collect now = (W', some c)) : W'.Timed now := by
  obtain ⟨r, hr, rfl, rfl⟩ := collect_some hc
  refine { h with result := nofun, traces := ?_ }
  intro row hrow
  dsimp only at hrow
  split at hrow
  · obtain hrow | hrow := List.mem_append.mp hrow
    · exact h.traces row hrow
    · rw [List.mem_singleton.mp hrow]
      obtain ⟨h1, h2, h3, h4⟩ := h.result r hr
      exact ⟨h1, h2, h3, h4⟩
  · exact h.traces row hrow

end Times

/-! ## ids and outcomes -/

/-- The rows and then the jobs still on their way, as they came: what a row
repeats of its job. -/
def entries (W : Worker κ) : List (Nat × Int) :=
  W.traces.map (fun row => (row.id, row.outcome)) ++
    (W.outstanding ++ W.queue).map fun j => (j.id, j.outcome)

/-- Ids go up, and have not gone past `last`. -/
structure Numbered (W : Worker κ) (last : Nat) : Prop where
  ascending : (W.entries.map Prod.fst).Pairwise (· < ·)
  bounded : ∀ i ∈ W.entries.map Prod.fst, i ≤ last

section Entries

variable {W W' : Worker κ} {now cpu last last' : Nat} {job : Job κ} {c : κ}

/-- A full queue drops the new job. -/
theorem offer_full_entries (hfull : W.queue.length = capacity) :
    (W.offer job).entries = W.entries := by
  rw [offer, if_pos hfull]
  rfl

/-- A queue with room takes the new job last. -/
theorem offer_room_entries (hroom : W.queue.length ≠ capacity) :
    (W.offer job).entries = W.entries ++ [(job.id, job.outcome)] := by
  rw [offer, if_neg hroom]
  simp [entries, outstanding]

/-- Dispatching moves a job along and changes no entry. -/
theorem Sound.dispatch_entries (h : W.Sound) (now : Nat) :
    (W.dispatch now).entries = W.entries := by
  unfold Worker.dispatch
  split
  · rfl
  · next hbusy =>
    split
    · rfl
    · next j rest hq =>
      obtain ⟨hslot, hthread, hresult⟩ := h.holds_none (by simpa using hbusy)
      simp [entries, outstanding, hslot, hthread, hresult, hq]

/-- The thread moves its job along and changes no entry. -/
theorem Sound.advance_entries (h : W.Sound) (ha : W.advance now cpu = some W') :
    W'.entries = W.entries := by
  have hout := h.advance_outstanding ha
  rw [entries, hout, advance_frame ha]
  rfl

/-- The collected job's entry is a row now, or gone without a trace. -/
theorem Sound.collect_entries (h : W.Sound) (hc : W.collect now = (W', some c)) :
    W'.entries.Sublist W.entries ∧ (W.tracing = true → W'.entries = W.entries) := by
  obtain ⟨r, hr, rfl, rfl⟩ := collect_some hc
  obtain ⟨hslot, hthread⟩ := h.of_result hr
  by_cases htracing : W.tracing = true
  · simp [entries, outstanding, hslot, hthread, hr, htracing, Result.trace]
  · simp [entries, outstanding, hslot, hthread, hr, htracing]

/-- A later bound holds as well. -/
theorem Numbered.mono (h : W.Numbered last) (hle : last ≤ last') : W.Numbered last' where
  ascending := h.ascending
  bounded i hi := Nat.le_trans (h.bounded i hi) hle

/-- The ids are read off the entries alone. -/
theorem Numbered.of_entries (h : W.Numbered last) (hentries : W'.entries = W.entries) :
    W'.Numbered last where
  ascending := hentries ▸ h.ascending
  bounded := hentries ▸ h.bounded

/-- A new id is past all others. -/
theorem Numbered.offer (h : W.Numbered last) (hlt : last < job.id) :
    (W.offer job).Numbered job.id := by
  by_cases hfull : W.queue.length = capacity
  · exact (h.of_entries (offer_full_entries hfull)).mono (Nat.le_of_lt hlt)
  · have hids : (W.offer job).entries.map Prod.fst = W.entries.map Prod.fst ++ [job.id] := by
      rw [offer_room_entries hfull, List.map_append]
      rfl
    constructor
    case ascending =>
        rw [hids, List.pairwise_append]
        refine ⟨h.ascending, List.pairwise_singleton _ _, ?_⟩
        intro i hi k hk
        rw [List.mem_singleton.mp hk]
        exact Nat.lt_of_le_of_lt (h.bounded i hi) hlt
    case bounded =>
        rw [hids]
        intro i hi
        obtain hi | hi := List.mem_append.mp hi
        · exact Nat.le_trans (h.bounded i hi) (Nat.le_of_lt hlt)
        · exact Nat.le_of_eq (List.mem_singleton.mp hi)

/-- Collecting keeps the order of the ids. -/
theorem Numbered.collect (h : W.Numbered last) (hW : W.Sound)
    (hc : W.collect now = (W', some c)) : W'.Numbered last := by
  have hsub := (hW.collect_entries hc).1.map Prod.fst
  exact ⟨h.ascending.sublist hsub, fun i hi => h.bounded i (hsub.subset hi)⟩

end Entries

/-! ## rows -/

/-- There is a row for each collected job, if there is a trace at all. -/
structure Rowed (W : Worker κ) : Prop where
  count : W.tracing = true → W.traces.length = W.completed
  late : W.tracing = true → W.traces.countP (fun row => decide (row.deadline < row.finish)) = W.late

section Rows

variable {W W' : Worker κ} {now cpu : Nat} {c : κ}

/-- Offering writes no row. -/
theorem Rowed.offer (h : W.Rowed) (job : Job κ) : (W.offer job).Rowed := by
  unfold Worker.offer
  split <;> exact ⟨h.count, h.late⟩

/-- Dispatching writes no row. -/
theorem Rowed.dispatch (h : W.Rowed) (now : Nat) : (W.dispatch now).Rowed := by
  unfold Worker.dispatch
  split
  · exact h
  · split
    · exact h
    · exact ⟨h.count, h.late⟩

/-- The thread writes no row. -/
theorem Rowed.advance (h : W.Rowed) (ha : W.advance now cpu = some W') : W'.Rowed := by
  rw [advance_frame ha]
  exact ⟨h.count, h.late⟩

/-- Collecting writes the row of the job it counts. -/
theorem Rowed.collect (h : W.Rowed) (hc : W.collect now = (W', some c)) : W'.Rowed := by
  obtain ⟨r, -, rfl, rfl⟩ := collect_some hc
  constructor
  case count =>
      intro htracing
      dsimp only at htracing ⊢
      rw [if_pos htracing, List.length_append, h.count htracing]
      rfl
  case late =>
      intro htracing
      dsimp only at htracing ⊢
      rw [if_pos htracing, List.countP_append, h.late htracing, List.countP_singleton]
      show W.late + _ = W.late + (decide (r.job.deadline < r.finish)).toNat
      by_cases hlate : r.job.deadline < r.finish <;> simp [Result.trace, hlate]

end Rows

/-! ## the trace of a worker -/

/-- There is a trace if there is to be one, with a row for each collected job
and ascending ids. -/
structure Written (W : Worker κ) (tracing : Bool) (last : Nat) : Prop where
  tracing : W.tracing = tracing
  rowed : W.Rowed
  numbered : W.Numbered last

section Written

variable {W W' : Worker κ} {tracing : Bool} {now cpu last last' : Nat} {job : Job κ} {c : κ}

/-- A later bound holds as well. -/
theorem Written.mono (h : W.Written tracing last) (hle : last ≤ last') :
    W.Written tracing last' :=
  ⟨h.tracing, h.rowed, h.numbered.mono hle⟩

/-- A job with a new id moves the bound up. -/
theorem Written.offer (h : W.Written tracing last) (hlt : last < job.id) :
    (W.offer job).Written tracing job.id := by
  refine ⟨?_, h.rowed.offer job, h.numbered.offer hlt⟩
  unfold Worker.offer
  split <;> exact h.tracing

/-- Dispatching leaves the trace alone. -/
theorem Written.dispatch (h : W.Written tracing last) (hW : W.Sound) (now : Nat) :
    (W.dispatch now).Written tracing last := by
  refine ⟨?_, h.rowed.dispatch now, h.numbered.of_entries (hW.dispatch_entries now)⟩
  unfold Worker.dispatch
  split
  · exact h.tracing
  · split <;> exact h.tracing

/-- The thread leaves the trace alone. -/
theorem Written.advance (h : W.Written tracing last) (hW : W.Sound)
    (ha : W.advance now cpu = some W') : W'.Written tracing last := by
  refine ⟨?_, h.rowed.advance ha, h.numbered.of_entries (hW.advance_entries ha)⟩
  rw [advance_frame ha]
  exact h.tracing

/-- Collecting adds the row of the collected job. -/
theorem Written.collect (h : W.Written tracing last) (hW : W.Sound)
    (hc : W.collect now = (W', some c)) : W'.Written tracing last := by
  refine ⟨?_, h.rowed.collect hc, h.numbered.collect hW hc⟩
  obtain ⟨r, -, rfl, rfl⟩ := collect_some hc
  exact h.tracing

end Written

end Worker

end ScxSlam.Workload
