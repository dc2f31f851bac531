import ScxSlam.ExecutionTrace.Parsed

/-!
# ScxSlam.ExecutionTrace.Roundtrip

Records that are printed, as the tests print them, and read back: among other
lines and in any order.

Exactly the logs of admissible records are accepted, and what comes out does
not depend on how the CPUs' records were interleaved, as long as those of one
timestamp keep their order.
-/

namespace ScxSlam.ExecutionTrace

open Python (Text Dict shown)
open Fields (clean word)
open Raise (require bind_eq_ok require_eq_ok pure_eq_ok)

/-! ## printing -/

/-- The fields of a task under a prefix. -/
def TaskRecord.fields (t : TaskRecord) (start : String) : List (Text × Text) :=
  [(prefixed start "key", shown t.key), (prefixed start "policy", shown t.policy),
    (prefixed start "stage", shown t.stage), (prefixed start "slice_ns", shown t.sliceNs),
    (prefixed start "last_dsq", shown t.lastDsq), (prefixed start "insert_ns", shown t.insertNs),
    (prefixed start "requested_slice_ns", shown t.requestedSliceNs),
    (prefixed start "comm_hex", t.commHex)]

def Record.fields (r : Record) : List (Text × Text) :=
  [("kind".toList, shown r.kind), ("ts_ns".toList, shown r.tsNs),
    ("urgent_key".toList, shown r.urgentKey), ("cpu".toList, shown r.cpu),
    ("runnable".toList, shown r.runnable), ("preempt".toList, shown r.preempt),
    ("prev_state".toList, shown r.prevState),
    ("callback_delta_ns".toList, shown r.callbackDeltaNs),
    ("syscall_id".toList, shown r.syscallId), ("syscall".toList, r.syscall)] ++
    r.task.fields "task" ++ r.next.fields "next"

/-- The words of a record's line. -/
def Record.words (r : Record) : List Text := "[execution]".toList :: r.fields.map word

def Record.line (r : Record) : Text := Python.unwords r.words

/-- A line of a log. -/
inductive LogLine
  | record (r : Record)
  | other (line : Text)

def LogLine.text : LogLine → Text
  | .record r => r.line
  | .other line => line

def LogLine.record? : LogLine → Option Record
  | .record r => some r
  | .other _ => none

/-- The records of a log. -/
def records (l : List LogLine) : List Record := l.filterMap LogLine.record?

def summaryFields (emitted lost conflicts : Nat) : List (String × Nat) :=
  [("emitted", emitted), ("lost", lost), ("identity_conflicts", conflicts)]

/-- The line of the counters. -/
def summaryWords (emitted lost conflicts : Nat) : List Text :=
  "execution_summary:".toList :: (Fields.decimals (summaryFields emitted lost conflicts)).map word

/-- `log`: the lines and the counters behind them. -/
def log (l : List LogLine) (lost conflicts : Nat) : Text :=
  Python.unlines (l.map LogLine.text ++
    [Python.unwords (summaryWords (records l).length lost conflicts)])

/-! ## records -/

/-- Texts that can stand in a line. -/
def Record.Printable (r : Record) : Prop :=
  clean r.syscall = true ∧ clean r.task.commHex = true ∧ clean r.next.commHex = true

instance (r : Record) : Decidable r.Printable :=
  inferInstanceAs (Decidable (clean r.syscall = true ∧ clean r.task.commHex = true ∧
    clean r.next.commHex = true))

/-- A command name of 16 bytes. -/
def TaskRecord.Encoded (t : TaskRecord) : Prop :=
  t.commHex.length = 32 ∧ t.commHex.all Utf8.isHex = true

instance (t : TaskRecord) : Decidable t.Encoded :=
  inferInstanceAs (Decidable (t.commHex.length = 32 ∧ t.commHex.all Utf8.isHex = true))

/-- What `parse_execution` asks of a record. -/
structure Record.Valid (r : Record) (metrics : Metrics) (cpu : Int) : Prop
    extends r.Admissible metrics cpu where
  task : r.task.Encoded
  next : r.next.Encoded

instance (r : Record) (metrics : Metrics) (cpu : Int) : Decidable (r.Valid metrics cpu) :=
  decidable_of_iff (r.Admissible metrics cpu ∧ r.task.Encoded ∧ r.next.Encoded)
    ⟨fun h => ⟨h.1, h.2.1, h.2.2⟩, fun h => ⟨h.toAdmissible, h.task, h.next⟩⟩

section Records

variable {r : Record} {metrics : Metrics} {cpu : Int} {e : Recorded}

/-- A printed number is clean. -/
theorem clean_shown (i : Int) : clean (shown i) = true := by
  cases i with
  | ofNat n => exact Fields.clean_decimal n
  | negSucc n =>
      have hsign : (!Python.isSpace '-' && '-' != '=') = true := rfl
      rw [shown, clean, List.all_cons, hsign, Bool.true_and]
      exact Fields.clean_decimal (n + 1)

/-- The keys of a record are those that are required. -/
theorem keys_fields (r : Record) : Dictionary.keys r.fields = required := rfl

/-- No key is required twice. -/
theorem nodup_required : required.Nodup := by decide

/-- The required keys are clean. -/
theorem clean_required : ∀ k ∈ required, clean k = true := by decide

/-- What a field of a record was printed as. -/
theorem get?_fields {k v : Text} (h : (k, v) ∈ r.fields) : Dictionary.get? r.fields k = some v :=
  Dictionary.get?_of_mem (keys_fields r ▸ nodup_required) h

/-- A number of a record is read back. -/
theorem int_fields {k : Text} {i : Int} (h : (k, shown i) ∈ r.fields) : int r.fields k = .ok i := by
  rw [int, get?_fields h, Option.bind_some, Python.int?_shown]
  rfl

/-- No field of a record has its old name. -/
theorem renamed_fields (r : Record) : renamed r.fields = r.fields := by
  have hold : Dictionary.get? r.fields "imu_key".toList = none :=
    Dictionary.get?_of_not_mem (keys_fields r ▸ by decide)
  rw [renamed, hold]

/-- A record has the required keys. -/
theorem sameKeys_fields (r : Record) : sameKeys r.fields required = true := by
  rw [sameKeys, keys_fields]
  simp

/-- A task is read back if its name is encoded. -/
theorem readTask_fields {start : String} {t t' : TaskRecord}
    (h : ∀ p ∈ t.fields start, p ∈ r.fields) :
    readTask r.fields start = .ok t' ↔ t.Encoded ∧ t = t' := by
  have hint : ∀ (n : Nat) {k : Text} {i : Int}, (t.fields start)[n]? = some (k, shown i) →
      int r.fields k = .ok i := fun n _ _ hn => int_fields (h _ (List.mem_of_getElem? hn))
  have hcomm := get?_fields (h _ (List.mem_of_getElem? (i := 7) rfl))
  rw [readTask, hint 0 rfl, hint 1 rfl, hint 2 rfl, hint 3 rfl, hint 4 rfl, hint 5 rfl, hint 6 rfl,
    hcomm]
  simp only [bind_eq_ok, Except.ok.injEq, need_eq_ok, Option.some.injEq, require_eq_ok, pure_eq_ok]
  constructor
  · rintro ⟨_, rfl, _, rfl, _, rfl, _, rfl, _, rfl, _, rfl, _, rfl, _, rfl, -, hencoded, rfl⟩
    exact ⟨hencoded, rfl⟩
  · rintro ⟨hencoded, rfl⟩
    exact ⟨_, rfl, _, rfl, _, rfl, _, rfl, _, rfl, _, rfl, _, rfl, _, rfl, (), hencoded, rfl⟩

/-- A record is read back if the names of its tasks are encoded. -/
theorem readRecord_fields {r' : Record} :
    readRecord r.fields = .ok r' ↔ r.task.Encoded ∧ r.next.Encoded ∧ r = r' := by
  have hint : ∀ (n : Nat) {k : Text} {i : Int}, r.fields[n]? = some (k, shown i) →
      int r.fields k = .ok i := fun n _ _ h => int_fields (List.mem_of_getElem? h)
  have hsyscall := get?_fields (r := r) (List.mem_of_getElem? (i := 9) rfl)
  have htask : ∀ p ∈ r.task.fields "task", p ∈ r.fields := fun p hp =>
    List.mem_append_left _ (List.mem_append_right _ hp)
  have hnext : ∀ p ∈ r.next.fields "next", p ∈ r.fields := fun p hp => List.mem_append_right _ hp
  rw [readRecord, renamed_fields]
  simp only [hint 0 rfl, hint 1 rfl, hint 2 rfl, hint 3 rfl, hint 4 rfl, hint 5 rfl, hint 6 rfl,
    hint 7 rfl, hint 8 rfl, hsyscall, bind_eq_ok, Except.ok.injEq, need_eq_ok, Option.some.injEq,
    require_eq_ok, pure_eq_ok]
  simp only [readTask_fields htask, readTask_fields hnext]
  constructor
  · rintro ⟨-, -, _, rfl, _, rfl, _, rfl, _, rfl, _, rfl, _, rfl, _, rfl, _, rfl, _, rfl,
      _, ⟨htask, rfl⟩, _, ⟨hnext, rfl⟩, _, rfl, rfl⟩
    exact ⟨htask, hnext, rfl⟩
  · rintro ⟨htask, hnext, rfl⟩
    exact ⟨(), sameKeys_fields r, _, rfl, _, rfl, _, rfl, _, rfl, _, rfl, _, rfl, _, rfl, _, rfl,
      _, rfl, _, ⟨htask, rfl⟩, _, ⟨hnext, rfl⟩, _, rfl, rfl⟩

/-- The words of a record's line. -/
theorem clean_fields (h : r.Printable) : ∀ p ∈ r.fields, clean p.1 = true ∧ clean p.2 = true := by
  obtain ⟨hsyscall, htask, hnext⟩ := h
  have hvalues : ∀ p ∈ r.fields, clean p.2 = true := by
    simp [Record.fields, TaskRecord.fields, or_imp, forall_and, clean_shown, hsyscall, htask, hnext]
  exact fun p hp => ⟨clean_required p.1 (keys_fields r ▸ List.mem_map_of_mem hp), hvalues p hp⟩

/-- No word of a printed record has a blank in it. -/
theorem solid_words (h : r.Printable) : ∀ w ∈ r.words, Fields.Solid w := by
  intro w hw
  obtain rfl | hw := List.mem_cons.mp hw
  · decide
  · obtain ⟨p, hp, rfl⟩ := List.mem_map.mp hw
    obtain ⟨hk, hv⟩ := clean_fields h p hp
    exact Fields.solid_word hk hv

/-- A printed record is told by its first word. -/
theorem isRecord_line (r : Record) : isRecord r.line = true :=
  Fields.startsWith_tag (t := "[execution]".toList) rfl

/-- **A record's line** is read back, and checked. -/
theorem readEvent_line (h : r.Printable) :
    readEvent metrics cpu r.line = .ok e ↔ r.Valid metrics cpu ∧ e = r.recorded metrics := by
  have hread : Fields.read (Python.cut '=') ((Python.words r.line).drop 1) = .ok r.fields := by
    rw [Record.line, Python.words_unwords (solid_words h)]
    exact Fields.read_map Fields.splits_cut (clean_fields h) (keys_fields r ▸ nodup_required)
  simp only [readEvent, hread, Except.toOption, bind_eq_ok, need_eq_ok, Option.some.injEq]
  constructor
  · rintro ⟨-, rfl, r', hr, hcheck⟩
    obtain ⟨htask, hnext, rfl⟩ := readRecord_fields.mp hr
    obtain ⟨hadmissible, rfl⟩ := check_eq_ok.mp hcheck
    exact ⟨⟨hadmissible, htask, hnext⟩, rfl⟩
  · rintro ⟨⟨hadmissible, htask, hnext⟩, rfl⟩
    exact ⟨_, rfl, r, readRecord_fields.mpr ⟨htask, hnext, rfl⟩, check_eq_ok.mpr ⟨hadmissible, rfl⟩⟩

/-- Printed records are read back if they are valid. -/
theorem readEvents_lines {rs : List Record} {es : List Recorded} (h : ∀ r ∈ rs, r.Printable) :
    List.Forall₂ (fun r e => readEvent metrics cpu (Record.line r) = .ok e) rs es ↔
      (∀ r ∈ rs, r.Valid metrics cpu) ∧ es = rs.map (·.recorded metrics) := by
  induction rs generalizing es with
  | nil => simp
  | cons r rs ih =>
      have hr := h r List.mem_cons_self
      have hrs := fun es => @ih es fun r' hr' => h r' (List.mem_cons_of_mem r hr')
      simp only [List.forall₂_cons_left_iff, readEvent_line hr, hrs, List.forall_mem_cons,
        List.map_cons]
      constructor
      · rintro ⟨-, -, ⟨hvalid, rfl⟩, ⟨hvalids, rfl⟩, rfl⟩
        exact ⟨⟨hvalid, hvalids⟩, rfl⟩
      · rintro ⟨⟨hvalid, hvalids⟩, rfl⟩
        exact ⟨_, _, ⟨hvalid, rfl⟩, ⟨hvalids, rfl⟩, rfl⟩

end Records

/-- A command name, padded with zeros. -/
def commBytes (name : Text) (padding : Nat) : List Nat :=
  Utf8.encode name ++ List.replicate padding 0

/-- A name's buffer is made of bytes. -/
theorem lt_commBytes {name : Text} {padding : Nat} : ∀ b ∈ commBytes name padding, b < 256 := by
  intro b hb
  obtain hb | hb := List.mem_append.mp hb
  · exact Utf8.lt_encode b hb
  · rw [List.eq_of_mem_replicate hb]
    decide

/-- A padded name is read back. -/
theorem comm_hex {name : Text} (padding : Nat) (h : Char.ofNat 0 ∉ name) :
    comm (Utf8.hex (commBytes name padding)) = name := by
  have hname : ∀ b ∈ Utf8.encode name, decide (b ≠ 0) = true := fun b hb =>
    decide_eq_true (Utf8.ne_zero_encode h b hb)
  have hzeros : (List.replicate padding 0).takeWhile (fun b : Nat => decide (b ≠ 0)) = [] := by
    cases padding <;> rfl
  rw [comm, Utf8.fromHex_hex lt_commBytes, commBytes, List.takeWhile_append_of_pos hname, hzeros,
    List.append_nil, Utf8.decode_encode]

/-! ## logs -/

/-- What can stand in a log: printable records, and lines that are no records
and no counters. -/
def LogLine.Printable : LogLine → Prop
  | .record r => r.Printable
  | .other line => (∀ c ∈ line, Python.isBreak c = false) ∧ isRecord line = false ∧
      isSummary line = false

instance : DecidablePred LogLine.Printable
  | .record r => inferInstanceAs (Decidable r.Printable)
  | .other line => decidable_of_iff (line.all (!Python.isBreak ·) = true ∧
      isRecord line = false ∧ isSummary line = false) (by simp [LogLine.Printable])

section Logs

variable {l : List LogLine} {emitted lost conflicts : Nat} {metrics : Metrics} {cpu : Int}
  {events : List Recorded} {counters : Counters}

/-- Words in a row stay on one line. -/
theorem isBreak_unwords {ws : List Text} (h : ∀ w ∈ ws, Fields.Solid w) :
    ∀ c ∈ Python.unwords ws, Python.isBreak c = false := by
  intro c hc
  obtain rfl | ⟨w, hw, hc⟩ := Fields.mem_unwords hc
  · rfl
  · exact Fields.isBreak_of_isSpace ((h w hw).2 c hc)

/-- The keys of the summary are different words. -/
theorem keys_summary : Fields.Keys ((summaryFields emitted lost conflicts).map Prod.fst) := by
  simp only [summaryFields, List.map_cons, List.map_nil]
  decide

/-- No word of the summary has a blank in it. -/
theorem solid_summary : ∀ w ∈ summaryWords emitted lost conflicts, Fields.Solid w := by
  intro w hw
  obtain rfl | hw := List.mem_cons.mp hw
  · decide
  · obtain ⟨p, hp, rfl⟩ := List.mem_map.mp hw
    obtain ⟨hk, hv⟩ := Fields.clean_decimals keys_summary p hp
    exact Fields.solid_word hk hv

/-- The summary is told by its first words. -/
theorem isSummary_summary :
    isSummary (Python.unwords (summaryWords emitted lost conflicts)) = true :=
  rfl

/-- The counters are found in their line. -/
theorem readCounters_summary :
    readCounters
        (Dictionary.ofPairs (Scan.numbers (Python.unwords (summaryWords emitted lost conflicts)))) =
      some ⟨emitted, lost, conflicts⟩ := by
  have htag : Python.unwords (summaryWords emitted lost conflicts) =
      "execution_summary:".toList ++ ' ' ::
        Python.unwords ((Fields.decimals (summaryFields emitted lost conflicts)).map word) := rfl
  have hnames : ∀ f ∈ summaryFields emitted lost conflicts,
      f.1.toList ≠ [] ∧ ∀ c ∈ f.1.toList, Scan.isName c = true := by
    simp only [summaryFields, List.forall_mem_cons, ← List.all_eq_true]
    decide
  have hkeys :
      Dictionary.keys ((summaryFields emitted lost conflicts).map fun f => (f.1.toList, f.2)) =
        counterFields.map String.toList := by
    simp [Dictionary.keys, summaryFields, counterFields]
  have hnodup : (counterFields.map String.toList).Nodup := by decide
  have hsame : sameKeys ((summaryFields emitted lost conflicts).map fun f => (f.1.toList, f.2))
      (counterFields.map String.toList) = true := by
    rw [sameKeys, hkeys]
    decide
  have hget : ∀ {k : String} {n : Nat}, (k, n) ∈ summaryFields emitted lost conflicts →
      Dictionary.get? ((summaryFields emitted lost conflicts).map fun f => (f.1.toList, f.2))
        k.toList = some n :=
    fun hmem => Dictionary.get?_of_mem (hkeys ▸ hnodup) (List.mem_map_of_mem hmem)
  rw [htag, Scan.numbers_tag (by decide), Scan.numbers_unwords hnames,
    Dictionary.ofPairs_of_nodup (hkeys ▸ hnodup), readCounters, if_pos hsame,
    hget (n := emitted) (by simp [summaryFields]), hget (n := lost) (by simp [summaryFields]),
    hget (n := conflicts) (by simp [summaryFields])]
  rfl

/-- The log splits into its lines. -/
theorem lines_log (h : ∀ x ∈ l, x.Printable) : Python.lines (log l lost conflicts) =
    l.map LogLine.text ++ [Python.unwords (summaryWords (records l).length lost conflicts)] := by
  refine Python.lines_unlines fun line hline => ?_
  obtain hline | hline := List.mem_append.mp hline
  · obtain ⟨x, hx, rfl⟩ := List.mem_map.mp hline
    cases x with
    | record r => exact isBreak_unwords (solid_words (h _ hx))
    | other line => exact (h _ hx).1
  · obtain rfl := List.mem_singleton.mp hline
    exact isBreak_unwords solid_summary

/-- Records and the summary are told apart from the other lines. -/
theorem filter_text (h : ∀ x ∈ l, x.Printable) :
    (l.map LogLine.text).filter isRecord = (records l).map Record.line ∧
      (l.map LogLine.text).filter isSummary = [] := by
  induction l with
  | nil => exact ⟨rfl, rfl⟩
  | cons x l ih =>
      obtain ⟨hrecords, hsummary⟩ := ih fun y hy => h y (List.mem_cons_of_mem x hy)
      have hx := h x List.mem_cons_self
      cases x with
      | record r =>
          have hr := isRecord_line r
          simp [LogLine.text, records, LogLine.record?, hr, isRecord_not_summary hr]
            at hrecords hsummary ⊢
          exact ⟨hrecords, hsummary⟩
      | other line =>
          simp [LogLine.text, records, LogLine.record?, hx.2] at hrecords hsummary ⊢
          exact ⟨hrecords, hsummary⟩

/-- **The round trip**: exactly the logs of valid records are accepted, and
their records come out merged by their timestamps. -/
theorem parse_log (h : ∀ x ∈ l, x.Printable) :
    parseExecution (log l lost conflicts) metrics cpu = .ok (events, counters) ↔
      records l ≠ [] ∧ (∀ r ∈ records l, r.Valid metrics cpu) ∧
        events = Stable.sort (·.event.tsNs) ((records l).map (·.recorded metrics)) ∧
        counters = ⟨(records l).length, lost, conflicts⟩ := by
  have hfilter := filter_text h
  have hsummary :
      isSummary (Python.unwords (summaryWords (records l).length lost conflicts)) = true :=
    isSummary_summary
  have hnot : isRecord (Python.unwords (summaryWords (records l).length lost conflicts)) = false :=
    Bool.eq_false_iff.mpr fun hrecord => by simp [isRecord_not_summary hrecord] at hsummary
  have hrecords : (Python.lines (log l lost conflicts)).filter isRecord =
      (records l).map Record.line := by
    rw [lines_log h, List.filter_append, hfilter.1, List.filter_cons_of_neg (by simp [hnot]),
      List.filter_nil, List.append_nil]
  have hcounters : (Python.lines (log l lost conflicts)).filter isSummary =
      [Python.unwords (summaryWords (records l).length lost conflicts)] := by
    rw [lines_log h, List.filter_append, hfilter.2, List.filter_cons_of_pos hsummary,
      List.filter_nil, List.nil_append]
  have hprintable : ∀ r ∈ records l, r.Printable := by
    intro r hr
    obtain ⟨x, hx, hxr⟩ := List.mem_filterMap.mp hr
    cases x with
    | record r' => cases hxr; exact h _ hx
    | other line => contradiction
  rw [parseExecution_eq_ok]
  constructor
  · rintro ⟨⟨es, hes, rfl⟩, ⟨line, hline, hread⟩, -, hne⟩
    rw [hrecords, List.forall₂_map_left_iff] at hes
    obtain ⟨hvalid, rfl⟩ := (readEvents_lines hprintable).mp hes
    rw [hcounters] at hline
    obtain ⟨rfl, -⟩ := List.cons.inj hline
    exact ⟨fun hnil => hne (by rw [hnil]; rfl), hvalid, rfl,
      Option.some.inj (hread.symm.trans readCounters_summary)⟩
  · rintro ⟨hne, hvalid, rfl, rfl⟩
    constructor
    case records =>
        refine ⟨_, ?_, rfl⟩
        rw [hrecords, List.forall₂_map_left_iff]
        exact (readEvents_lines hprintable).mpr ⟨hvalid, rfl⟩
    case summary => exact ⟨_, hcounters, readCounters_summary⟩
    case emitted => rw [hrecords, List.length_map]
    case nonempty =>
        intro hnil
        exact hne (List.map_eq_nil_iff.mp (List.perm_nil.mp (hnil ▸ (Stable.perm_sort _ _).symm)))

/-- The events of one timestamp, in the order of their lines. -/
theorem filter_sort_recorded (rs : List Record) (metrics : Metrics) (t : Int) :
    (Stable.sort (·.event.tsNs) (rs.map (·.recorded metrics))).filter (·.event.tsNs = t) =
      (rs.filter (·.tsNs = t)).map (·.recorded metrics) := by
  rw [Stable.filter_sort, List.filter_map]
  rfl

/-- **The merge**: a log is accepted exactly if it has records and all are valid.
Its events are its records in the order of their timestamps, those of one
timestamp in the order of their lines, so any other interleaving of the same
records, with any other lines between them, makes the same. -/
theorem merged_log {l' : List LogLine} (h : ∀ x ∈ l, x.Printable) (h' : ∀ x ∈ l', x.Printable)
    (hsame : ∀ t, (records l).filter (·.tsNs = t) = (records l').filter (·.tsNs = t)) :
    ((∃ result, parseExecution (log l lost conflicts) metrics cpu = .ok result) ↔
        records l ≠ [] ∧ ∀ r ∈ records l, r.Valid metrics cpu) ∧
      ∀ events counters,
        parseExecution (log l lost conflicts) metrics cpu = .ok (events, counters) →
        parseExecution (log l' lost conflicts) metrics cpu = .ok (events, counters) ∧
        events.Pairwise (·.event.tsNs ≤ ·.event.tsNs) ∧
        (∀ t, events.filter (·.event.tsNs = t) =
          ((records l).filter (·.tsNs = t)).map (·.recorded metrics)) ∧
        counters = ⟨(records l).length, lost, conflicts⟩ := by
  constructor
  · constructor
    · rintro ⟨⟨events, counters⟩, hparse⟩
      obtain ⟨hne, hvalid, -, -⟩ := (parse_log h).mp hparse
      exact ⟨hne, hvalid⟩
    · rintro ⟨hne, hvalid⟩
      exact ⟨_, (parse_log h).mpr ⟨hne, hvalid, rfl, rfl⟩⟩
  intro events counters hparse
  obtain ⟨hne, hvalid, rfl, rfl⟩ := (parse_log h).mp hparse
  have hsort : Stable.sort Record.tsNs (records l) = Stable.sort Record.tsNs (records l') :=
    Stable.sort_eq_of_filter hsame
  have hperm : (records l).Perm (records l') :=
    (Stable.perm_sort Record.tsNs _).symm.trans (hsort ▸ Stable.perm_sort Record.tsNs _)
  refine ⟨(parse_log h').mpr ⟨?_, ?_, ?_, ?_⟩, Stable.pairwise_sort _ _,
    fun t => filter_sort_recorded _ _ t, rfl⟩
  · exact fun hnil => hne (List.perm_nil.mp (hnil ▸ hperm))
  · exact fun r hr => hvalid r (hperm.mem_iff.mpr hr)
  · refine Stable.eq_of_filter (Stable.pairwise_sort _ _) (Stable.pairwise_sort _ _) fun t => ?_
    rw [filter_sort_recorded, filter_sort_recorded, hsame t]
  · rw [hperm.length_eq]

end Logs

/-! ## a log -/

/-- A task of the batch thread's class, or the IMU thread 11. -/
def sampleTask (key : Int) : TaskRecord where
  key := key
  policy := if key = 20 then 0 else 7
  stage := if key = 11 then 0 else 6
  sliceNs := 5000
  lastDsq := if key = 11 then 0x1a01 else 0xbe01
  insertNs := 70
  requestedSliceNs := 0
  commHex := Utf8.hex (commBytes "imu_prop".toList 8)

def sampleRecord (kind tsNs task next : Int) (runnable : Int := 1) (preempt : Int := 0)
    (prevState : Int := 0) (syscall : String := "none") (cpu : Int := 0) : Record where
  kind := kind
  tsNs := tsNs
  urgentKey := 11
  cpu := cpu
  runnable := runnable
  preempt := preempt
  prevState := prevState
  callbackDeltaNs := 0
  syscallId := 230
  syscall := syscall.toList
  task := sampleTask task
  next := sampleTask next

/-- The IMU thread sleeps at 110 and is woken from CPU 1 at 120. -/
def sampleSwitches : List LogLine :=
  [.record (sampleRecord 3 79 11 12), .record (sampleRecord 1 80 20 11),
    .record (sampleRecord 4 109 11 12 0),
    .record (sampleRecord 1 110 11 12 0 0 1 "clock_nanosleep"),
    .record (sampleRecord 1 130 12 20), .record (sampleRecord 3 149 11 12),
    .record (sampleRecord 1 150 20 11), .record (sampleRecord 4 179 11 12),
    .record (sampleRecord 1 180 11 12 1 1 1), .record (sampleRecord 3 209 11 12),
    .record (sampleRecord 1 210 12 11), .record (sampleRecord 4 239 11 12),
    .record (sampleRecord 1 240 11 12)]

def sampleWake : LogLine := .record (sampleRecord 2 120 11 12 1 0 0 "none" 1)

/-- The records of the sample are valid. -/
theorem valid_sample : ∀ r ∈ records (sampleSwitches ++ [sampleWake]), r.Valid sleepMetrics 0 := by
  decide +kernel

/-- A wake-up logged before the switches, and behind them. -/
theorem merged_log_remote : ∃ events counters,
    parseExecution (log (sampleSwitches ++ [sampleWake]) 0 0) sleepMetrics 0 =
        .ok (events, counters) ∧
      parseExecution (log (.other "ready".toList :: sampleWake :: sampleSwitches) 0 0)
        sleepMetrics 0 = .ok (events, counters) := by
  have hmerged := @merged_log (sampleSwitches ++ [sampleWake]) 0 0 sleepMetrics 0
    (.other "ready".toList :: sampleWake :: sampleSwitches) (by decide +kernel)
    (by decide +kernel) (@Stable.filter_eq_of_mem _ _ _ Record.tsNs _ _ (by decide +kernel))
  obtain ⟨⟨events, counters⟩, hparse⟩ := hmerged.1.mpr ⟨by decide +kernel, valid_sample⟩
  exact ⟨events, counters, hparse, (hmerged.2 events counters hparse).1⟩

end ScxSlam.ExecutionTrace
