import ScxSlam.Workload.Audit

/-!
# ScxSlam.Workload.Readback

What `validate` collects from the output of `dependent_workload`, and the rows
it reads from the trace file, are the numbers that were printed.
-/

namespace ScxSlam.Workload

open Csv (Row)
open DependentGraph (Lane)
open Fields (Keys Solid clean clean_decimals decimals ints not_startsWith_key solid_word startsWith
  startsWith_key startsWith_tag word)
open Python (Text Dict)
open Raise (bind_eq_ok foldlM_append_ok foldlM_singleton_ok pure_eq_ok)

/-! ## the lines are read back -/

/-- What reading the output collects. -/
def State.collected (s : State) (L : Launch) (R : Readings) : Collected where
  workers := L.options.workers.map fun r => (r.text, ints (s.workerFields r))
  lifecycle := L.options.workers.map fun r => (r.text, ints (s.lifecycleFields L R r))
  streams := [Lane.imu, Lane.camera].map fun i => (State.streamName i, ints (s.streamFields i))
  window := some (ints (s.windowFields R))
  outcomes := some (ints s.controlFields)

section Lines

variable {s : State} {L : Launch} {R : Readings} {r : Role} {i : Lane} {c : Collected}
  {pairs : List (Text × Text)} {line name : Text} {key : String} {fields : List (String × Nat)}

/-- A worker's name has no blank and no equals sign. -/
theorem clean_text (r : Role) : clean r.text = true := by
  cases r <;> decide

/-- A stream's name has no blank and no equals sign. -/
theorem clean_streamName (i : Lane) : clean (State.streamName i) = true := by
  cases i <;> decide

/-- Workers have different names. -/
theorem text_inj : Function.Injective Role.text := by
  intro r q h
  revert h
  cases r <;> cases q <;> decide

/-- The words of clean pairs have no blank in them. -/
theorem solid_fields (h : ∀ p ∈ pairs, clean p.1 = true ∧ clean p.2 = true) :
    ∀ w ∈ pairs.map word, Solid w := by
  intro w hw
  obtain ⟨p, hp, rfl⟩ := List.mem_map.mp hw
  exact solid_word (h p hp).1 (h p hp).2

/-- The keys of a lifecycle line are different words. -/
theorem keys_lifecycle : Keys ("worker" :: (s.lifecycleFields L R r).map Prod.fst) := by
  simp only [State.lifecycleFields, List.map_cons, List.map_nil]
  decide

/-- The keys of a worker's line are different words. -/
theorem keys_worker : Keys ("worker" :: (s.workerFields r).map Prod.fst) := by
  simp only [State.workerFields, List.map_cons, List.map_nil]
  decide

/-- The keys of a stream's line are different words. -/
theorem keys_stream : Keys ("worker" :: "stream" :: (s.streamFields i).map Prod.fst) := by
  simp only [State.streamFields, List.map_cons, List.map_nil]
  decide

/-- The keys of the window's line are different words. -/
theorem keys_window : Keys ((s.windowFields R).map Prod.fst) := by
  simp only [State.windowFields, List.map_cons, List.map_nil]
  decide

/-- The keys of the control line are different words. -/
theorem keys_control : Keys (s.controlFields.map Prod.fst) := by
  simp only [State.controlFields, List.map_cons, List.map_nil]
  decide

/-- The keys of the burst's line are different words. -/
theorem keys_burst : Keys (s.burstFields.map Prod.fst) := by
  simp only [State.burstFields, List.map_cons, List.map_nil]
  decide

/-- The keys of the control age line are different words. -/
theorem keys_controlAge : Keys (s.controlAgeFields.map Prod.fst) := by
  simp only [State.controlAgeFields, List.map_cons, List.map_nil]
  decide

/-- A line that begins with a name splits into its words. -/
theorem solid_named (hname : clean name = true) (h : Keys (key :: fields.map Prod.fst)) :
    ∀ w ∈ ((key.toList, name) :: decimals fields).map word, Solid w := by
  rw [List.map_cons, List.forall_mem_cons]
  exact ⟨solid_word (h.1 key List.mem_cons_self) hname, solid_fields (clean_decimals h.tail)⟩

/-- A lifecycle line sets the fields of its worker. -/
theorem readLine_lifecycle (hline : startsWith "lifecycle " line = true)
    (hwords : Python.words line =
      "lifecycle".toList :: (("worker".toList, name) :: decimals fields).map word)
    (hname : clean name = true) (hkeys : Keys ("worker" :: fields.map Prod.fst)) :
    readLine c line = .ok { c with lifecycle := c.lifecycle.set name (ints fields) } := by
  rw [readLine, if_pos hline, hwords, List.drop_one, List.tail_cons,
    Fields.read_named Fields.splits_cut hname hkeys]
  simp only [bind_eq_ok, pure_eq_ok]
  refine ⟨_, rfl, name, rfl, ints fields, ?_, rfl⟩
  rw [Fields.drop_named hkeys, Fields.numbers_decimals]

/-- A worker's line sets the fields of its worker. -/
theorem readLine_worker (hlife : startsWith "lifecycle " line = false)
    (hline : startsWith "worker=" line = true)
    (hwords : Python.words line = (("worker".toList, name) :: decimals fields).map word)
    (hname : clean name = true) (hkeys : Keys ("worker" :: fields.map Prod.fst)) :
    readLine c line = .ok { c with workers := c.workers.set name (ints fields) } := by
  rw [readLine, if_neg (by rw [hlife]; exact Bool.false_ne_true), if_pos (by rw [hline]; rfl),
    hwords, Fields.read_named Fields.splits_cut hname hkeys]
  simp only [bind_eq_ok, pure_eq_ok]
  refine ⟨_, rfl, name, rfl, ints fields, ?_, rfl⟩
  have hkey : (Dictionary.get? (("worker".toList, name) :: decimals fields)
      "worker".toList).isSome = true := rfl
  rw [if_pos hkey, Fields.drop_named hkeys, Fields.numbers_decimals]

/-- A stream's line sets the fields of its stream. -/
theorem readLine_stream (hlife : startsWith "lifecycle " line = false)
    (hline : startsWith "stream=" line = true)
    (hwords : Python.words line = (("stream".toList, name) :: decimals fields).map word)
    (hname : clean name = true) (hkeys : Keys ("worker" :: "stream" :: fields.map Prod.fst)) :
    readLine c line = .ok { c with streams := c.streams.set name (ints fields) } := by
  have hworker := (List.nodup_cons.mp hkeys.2).1
  rw [List.map_cons, ← Fields.keys_decimals] at hworker
  have hnone : Dictionary.get? (("stream".toList, name) :: decimals fields)
      "worker".toList = none := Dictionary.get?_of_not_mem hworker
  have hkeys := hkeys.tail
  rw [readLine, if_neg (by rw [hlife]; exact Bool.false_ne_true),
    if_pos (by rw [hline, Bool.or_true]), hwords, Fields.read_named Fields.splits_cut hname hkeys]
  refine bind_eq_ok.mpr ⟨_, rfl, ?_⟩
  dsimp only
  -- the line has no worker, so its stream is the key
  rw [hnone, Option.isSome_none, if_neg Bool.false_ne_true]
  refine bind_eq_ok.mpr ⟨name, rfl, ?_⟩
  rw [Fields.drop_named hkeys, Fields.numbers_decimals]
  rfl

/-- A line of numbers without a name. -/
theorem readNumbers {words : List Text} (hwords : words = (decimals fields).map word)
    (hkeys : Keys (fields.map Prod.fst)) :
    (Fields.read (Python.parts '=') words >>= Fields.numbers) = .ok (ints fields) := by
  rw [hwords, Fields.read_decimals Fields.splits_parts hkeys]
  exact Fields.numbers_decimals

/-- The window's line sets the window. -/
theorem readLine_window (hlife : startsWith "lifecycle " line = false)
    (hnamed : (startsWith "worker=" line || startsWith "stream=" line) = false)
    (hline : startsWith "measurement_window_ns=" line = true)
    (hwords : Python.words line = (decimals fields).map word)
    (hkeys : Keys (fields.map Prod.fst)) :
    readLine c line = .ok { c with window := some (ints fields) } := by
  have hread := bind_eq_ok.mp (readNumbers hwords hkeys)
  obtain ⟨pairs, hpairs, hvalues⟩ := hread
  rw [readLine, if_neg (by rw [hlife]; exact Bool.false_ne_true),
    if_neg (by rw [hnamed]; exact Bool.false_ne_true), if_pos hline]
  simp only [bind_eq_ok, pure_eq_ok]
  exact ⟨pairs, hpairs, ints fields, hvalues, rfl⟩

/-- The control line sets the outcomes. -/
theorem readLine_control (hlife : startsWith "lifecycle " line = false)
    (hnamed : (startsWith "worker=" line || startsWith "stream=" line) = false)
    (hwindow : startsWith "measurement_window_ns=" line = false)
    (hline : startsWith "control " line = true)
    (hwords : Python.words line = "control".toList :: (decimals fields).map word)
    (hkeys : Keys (fields.map Prod.fst)) :
    readLine c line = .ok { c with outcomes := some (ints fields) } := by
  have hrest : (Python.words line).drop 1 = (decimals fields).map word := by
    rw [hwords, List.drop_one, List.tail_cons]
  have hread := bind_eq_ok.mp (readNumbers hrest hkeys)
  obtain ⟨pairs, hpairs, hvalues⟩ := hread
  rw [readLine, if_neg (by rw [hlife]; exact Bool.false_ne_true),
    if_neg (by rw [hnamed]; exact Bool.false_ne_true),
    if_neg (by rw [hwindow]; exact Bool.false_ne_true), if_pos hline]
  simp only [bind_eq_ok, pure_eq_ok]
  exact ⟨pairs, hpairs, ints fields, hvalues, rfl⟩

/-- A line of another kind. -/
theorem readLine_other (hlife : startsWith "lifecycle " line = false)
    (hnamed : (startsWith "worker=" line || startsWith "stream=" line) = false)
    (hwindow : startsWith "measurement_window_ns=" line = false)
    (hcontrol : startsWith "control " line = false) : readLine c line = .ok c := by
  simp [readLine, hlife, hnamed, hwindow, hcontrol, pure, Except.pure]

/-- A block of lines that set entries of one dictionary. -/
theorem foldlM_block {α : Type} {l : List α} {words : α → List Text}
    (get : Collected → Dict (Dict Int)) (put : Collected → Dict (Dict Int) → Collected)
    (entry : α → Text × Dict Int)
    (hget : ∀ c d, get (put c d) = d) (htwice : ∀ c d d', put (put c d) d' = put c d')
    (hsame : ∀ c, put c (get c) = c)
    (hline : ∀ a ∈ l, ∀ c,
      readLine c (Python.unwords (words a)) = .ok (put c ((get c).set (entry a).1 (entry a).2)))
    (hnodup : (Dictionary.keys (get c ++ l.map entry)).Nodup) :
    ((l.map words).map Python.unwords).foldlM readLine c = .ok (put c (get c ++ l.map entry)) := by
  have hfold : ∀ c, l.foldl (fun c a => put c ((get c).set (entry a).1 (entry a).2)) c =
      put c ((l.map entry).foldl (fun d p => d.set p.1 p.2) (get c)) := by
    clear hline hnodup
    induction l with
    | nil => exact fun c => (hsame c).symm
    | cons a l ih =>
        intro c
        rw [List.foldl_cons, ih, hget, htwice]
        rfl
  rw [List.foldlM_map, List.foldlM_map, Raise.foldlM_eq_ok hline, hfold,
    Dictionary.foldl_set hnodup]

/-- No word that is printed has a blank in it. -/
theorem solid_outputWords : ∀ ws ∈ s.outputWords L R, ∀ w ∈ ws, Solid w := by
  have hprofile : ∀ p ∈ State.profileFields L, clean p.1 = true ∧ clean p.2 = true := by
    have hpolicy : clean (if L.options.hinted then "hinted".toList
        else if L.fifo then "fifo".toList else "ordinary".toList) = true := by
      split
      · decide
      · split <;> decide
    simp only [State.profileFields, List.forall_mem_append, List.forall_mem_cons]
    refine ⟨⟨⟨⟨by decide, List.forall_mem_nil _⟩, ?_⟩, ⟨by decide, hpolicy⟩, ⟨by decide, ?_⟩,
      List.forall_mem_nil _⟩, ?_⟩
    · exact clean_decimals (by simp only [List.map_cons, List.map_nil]; decide)
    · cases L.options.scenario <;> decide
    · exact clean_decimals (by simp only [List.map_cons, List.map_nil]; decide)
  have hburst : ∀ ws ∈ (if L.options.scenario = .estimatorBurst then
      ["burst".toList :: (decimals s.burstFields).map word] else []), ∀ w ∈ ws, Solid w := by
    split
    · exact List.forall_mem_singleton.mpr
        (List.forall_mem_cons.mpr ⟨by decide, solid_fields (clean_decimals keys_burst)⟩)
    · exact List.forall_mem_nil _
  simp only [State.outputWords, List.forall_mem_append]
  refine ⟨⟨⟨⟨⟨⟨?_, ?_⟩, ?_⟩, ?_⟩, ?_⟩, hburst⟩, ?_⟩
  · exact List.forall_mem_cons.mpr ⟨solid_fields hprofile,
      List.forall_mem_singleton.mpr (solid_fields (clean_decimals keys_window))⟩
  · exact List.forall_mem_map.mpr fun r _ =>
      List.forall_mem_cons.mpr ⟨by decide, solid_named (clean_text r) keys_lifecycle⟩
  · exact List.forall_mem_map.mpr fun r _ => solid_named (clean_text r) keys_worker
  · exact List.forall_mem_map.mpr fun i _ => solid_named (clean_streamName i) keys_stream.tail
  · exact List.forall_mem_singleton.mpr
      (List.forall_mem_cons.mpr ⟨by decide, solid_fields (clean_decimals keys_control)⟩)
  · exact List.forall_mem_singleton.mpr
      (List.forall_mem_cons.mpr ⟨by decide, solid_fields (clean_decimals keys_controlAge)⟩)

/-- No worker is listed twice. -/
theorem nodup_workers (o : Options) : o.workers.Nodup := by
  have hall : [Role.imu, .camera, .estimator, .control, .mapping, .hog0, .hog1].Nodup := by decide
  exact hall.sublist ((List.take_sublist o.hogCount [Role.hog0, .hog1]).append_left
    [Role.imu, .camera, .estimator, .control, .mapping])

/-- No worker's name is listed twice. -/
theorem nodup_texts (L : Launch) : (L.options.workers.map Role.text).Nodup :=
  (List.nodup_map_iff text_inj).mpr (nodup_workers L.options)

/-- The output is collected. -/
theorem foldlM_output :
    (Python.lines (s.output L R)).foldlM readLine {} = .ok (s.collected L R) := by
  obtain ⟨hlines, hwords⟩ := Fields.lines_words (@solid_outputWords s L R)
  rw [State.output, hlines]
  simp only [State.outputWords, List.forall_mem_append] at hwords
  obtain ⟨⟨⟨⟨⟨⟨htop, hlife⟩, hworkers⟩, hstreams⟩, hcontrol⟩, hburst⟩, hage⟩ := hwords
  have htop' : ([(State.profileFields L).map word, (decimals (s.windowFields R)).map word].map
      Python.unwords).foldlM readLine {} = .ok { window := some (ints (s.windowFields R)) } := by
    have hprofile : readLine {} (Python.unwords ((State.profileFields L).map word)) = .ok {} :=
      readLine_other rfl rfl rfl rfl
    have hnot : ∀ start : String, ¬start.toList <+: "measurement_window_ns".toList ++ ['='] →
        ¬"measurement_window_ns".toList ++ ['='] <+: start.toList →
          startsWith start (Python.unwords ((decimals (s.windowFields R)).map word)) = false :=
      fun _ h h' => not_startsWith_key h h'
    have hwindow : readLine {} (Python.unwords ((decimals (s.windowFields R)).map word)) =
        .ok { window := some (ints (s.windowFields R)) } :=
      readLine_window (hnot "lifecycle " (by decide) (by decide))
        (Bool.or_eq_false_iff.mpr ⟨hnot "worker=" (by decide) (by decide),
          hnot "stream=" (by decide) (by decide)⟩)
        (startsWith_key (k := "measurement_window_ns".toList) (by decide)) (htop _ (by simp))
        keys_window
    simp only [List.map_cons, List.map_nil, List.foldlM_cons, List.foldlM_nil]
    exact bind_eq_ok.mpr ⟨_, hprofile, bind_eq_ok.mpr ⟨_, hwindow, rfl⟩⟩
  have hlifecycle : ∀ r ∈ L.options.workers, ∀ c : Collected, readLine c (Python.unwords
      ("lifecycle".toList :: (("worker".toList, r.text) :: decimals (s.lifecycleFields L R r)).map
        word)) =
        .ok { c with lifecycle := c.lifecycle.set r.text (ints (s.lifecycleFields L R r)) } :=
    fun r hr c => readLine_lifecycle (startsWith_tag (by decide))
      (hlife _ (List.mem_map_of_mem hr)) (clean_text r) keys_lifecycle
  have hworker : ∀ r ∈ L.options.workers, ∀ c : Collected, readLine c (Python.unwords
      ((("worker".toList, r.text) :: decimals (s.workerFields r)).map word)) =
        .ok { c with workers := c.workers.set r.text (ints (s.workerFields r)) } :=
    fun r hr c => readLine_worker rfl (startsWith_key (by decide))
      (hworkers _ (List.mem_map_of_mem hr)) (clean_text r) keys_worker
  have hstream : ∀ i ∈ [Lane.imu, Lane.camera], ∀ c : Collected, readLine c (Python.unwords
      ((("stream".toList, State.streamName i) :: decimals (s.streamFields i)).map word)) =
        .ok { c with streams := c.streams.set (State.streamName i) (ints (s.streamFields i)) } :=
    fun i hi c => readLine_stream rfl (startsWith_key (by decide))
      (hstreams _ (List.mem_map_of_mem hi)) (clean_streamName i) keys_stream
  have hcontrols : ∀ c : Collected, readLine c (Python.unwords
      ("control".toList :: (decimals s.controlFields).map word)) =
        .ok { c with outcomes := some (ints s.controlFields) } :=
    fun c => readLine_control rfl rfl rfl (startsWith_tag (by decide)) (hcontrol _ (by simp))
      keys_control
  have hkeys : ∀ value : Role → Dict Int,
      (Dictionary.keys ([] ++ L.options.workers.map fun r => (r.text, value r))).Nodup := by
    intro value
    rw [List.nil_append, Dictionary.keys, List.map_map]
    exact nodup_texts L
  have hstreams' : [State.streamName .imu, State.streamName .camera].Nodup := by decide
  have hburst' : ∀ c, ((if L.options.scenario = .estimatorBurst then
      ["burst".toList :: (decimals s.burstFields).map word] else []).map
        Python.unwords).foldlM readLine c = .ok c := by
    intro c
    split
    · exact foldlM_singleton_ok (readLine_other rfl rfl rfl rfl)
    · rfl
  -- block by block
  have h₁ := foldlM_append_ok htop' (foldlM_block Collected.lifecycle
    (fun c d => { c with lifecycle := d }) (fun r => (r.text, ints (s.lifecycleFields L R r)))
    (fun _ _ => rfl) (fun _ _ _ => rfl) (fun _ => rfl) hlifecycle (hkeys _))
  have h₂ := foldlM_append_ok h₁ (foldlM_block Collected.workers
    (fun c d => { c with workers := d }) (fun r => (r.text, ints (s.workerFields r)))
    (fun _ _ => rfl) (fun _ _ _ => rfl) (fun _ => rfl) hworker (hkeys _))
  have h₃ := foldlM_append_ok h₂ (foldlM_block Collected.streams
    (fun c d => { c with streams := d }) (fun i => (State.streamName i, ints (s.streamFields i)))
    (fun _ _ => rfl) (fun _ _ _ => rfl) (fun _ => rfl) hstream hstreams')
  have h₄ := foldlM_append_ok h₃ (foldlM_singleton_ok (hcontrols _))
  have h₅ := foldlM_append_ok h₄ (hburst' _)
  have h₆ := foldlM_append_ok h₅ (foldlM_singleton_ok (a := Python.unwords
    ("control_age".toList :: (decimals s.controlAgeFields).map word))
    (readLine_other rfl rfl rfl rfl))
  simp only [State.outputWords, List.map_append]
  exact h₆

end Lines

/-! ## the rows are read back -/

/-- A row of the trace file. -/
def traceRow (r : Role) (row : Trace) : Row := Csv.row State.traceColumns (State.traceFields r row)

section Rows

variable {s : State} {o : Options} {r q : Role} {row : Trace} {roles : List Role}

/-- A worker's name needs no quotes in the trace file. -/
theorem plain_text (r : Role) : Csv.Plain r.text := by
  cases r <;> decide

/-- The trace file is read back as the rows of all workers. -/
theorem table_traceText (s : State) (o : Options) : Csv.table (s.traceText o) =
    .ok (o.workers.flatMap fun r => (s.worker r).traces.map (traceRow r)) := by
  have hcolumns : State.traceColumns ≠ [] ∧ ∀ f ∈ State.traceColumns, Csv.Plain f := by
    decide
  have hrows : ∀ fs ∈ o.workers.flatMap fun r => (s.worker r).traces.map (State.traceFields r),
      fs ≠ [] ∧ ∀ f ∈ fs, Csv.Plain f := by
    intro fs hfs
    obtain ⟨r, -, hr⟩ := List.mem_flatMap.mp hfs
    obtain ⟨row, -, rfl⟩ := List.mem_map.mp hr
    refine ⟨List.cons_ne_nil _ _, ?_⟩
    simp only [State.traceFields, List.forall_mem_cons]
    simp [plain_text, Csv.plain_decimal, Csv.plain_shown]
  rw [Csv.table, State.traceText, Csv.rows_printed hcolumns hrows, List.map_flatMap]
  simp only [List.map_map]
  rfl

/-- The worker of a row. -/
theorem field_worker : Csv.field (traceRow r row) "worker" = .ok (some r.text) := rfl

/-- The job of a row, in decimal. -/
theorem field_job : Csv.field (traceRow r row) "job" = .ok (some (Extract.decimal row.id)) := rfl

/-- The five times of a row, in the order in which they are read. -/
theorem number_stamps :
    ["release_ns", "assigned_ns", "start_ns", "end_ns", "observed_ns"].mapM
      (Csv.number (traceRow r row)) =
        .ok [(row.release : Int), row.assigned, row.start, row.finish, row.observed] := by
  refine Raise.mapM_eq_ok.mpr ?_
  refine .cons (Csv.number_decimal rfl) (.cons (Csv.number_decimal rfl)
    (.cons (Csv.number_decimal rfl) (.cons (Csv.number_decimal rfl)
      (.cons (Csv.number_decimal rfl) .nil))))

/-- The end of a row. -/
theorem number_finish : Csv.number (traceRow r row) "end_ns" = .ok row.finish :=
  Csv.number_decimal rfl

/-- The deadline of a row. -/
theorem number_deadline : Csv.number (traceRow r row) "deadline_ns" = .ok row.deadline :=
  Csv.number_decimal rfl

/-- The rows of one worker. -/
theorem select_traceRows (hnodup : roles.Nodup) :
    Csv.select "worker" q.text (roles.flatMap fun r => (s.worker r).traces.map (traceRow r)) =
      .ok (if q ∈ roles then (s.worker q).traces.map (traceRow q) else []) := by
  induction roles with
  | nil => rfl
  | cons r roles ih =>
      obtain ⟨hr, hnodup⟩ := List.nodup_cons.mp hnodup
      have hhead : Csv.select "worker" q.text ((s.worker r).traces.map (traceRow r)) =
          .ok (if r.text = q.text then (s.worker r).traces.map (traceRow r) else []) := by
        refine Csv.select_of_forall fun line hline => ?_
        obtain ⟨row, -, rfl⟩ := List.mem_map.mp hline
        exact field_worker
      rw [List.flatMap_cons, Csv.select_append hhead (ih hnodup)]
      by_cases hq : r = q
      · subst hq
        simp [hr]
      · have htext : r.text ≠ q.text := fun h => hq (text_inj h)
        simp [htext, Ne.symm hq]

end Rows

end ScxSlam.Workload
