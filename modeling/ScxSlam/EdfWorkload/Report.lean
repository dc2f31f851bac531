import ScxSlam.EdfWorkload.Workload
import ScxSlam.Lib.Raise

/-!
# ScxSlam.EdfWorkload.Report

What the scripts make of the table: `validate` of `test_edf_loaded.py` and
`summarize_trace` of `report_edf_results.py`, on any text.

`Reported` is what a text says that `validate` has accepted, and `validate`
and `summarizeTrace` are functions of that.
-/

namespace ScxSlam.EdfWorkload

open Csv (Row number)
open Python (Text Raised)
open Raise (require bind_eq_ok require_eq_ok pure_eq_ok)

/-! ## validate -/

/-- A line of the table that `validate` goes through. -/
structure Expected where
  count : Nat
  period : Nat
  cost : Nat

def expected : Task → Expected
  | .a => ⟨14, 50000000, 21000000⟩
  | .b => ⟨10, 70000000, 29500000⟩

/-- The columns of a job that are read. -/
structure Entry where
  release : Int
  start : Int
  finish : Int
  cpu : Int
  deadline : Int
  deriving DecidableEq, Repr

def entry (row : Row) : Except Raised Entry := do
  let release ← number row "release_ns"
  let start ← number row "start_ns"
  let finish ← number row "end_ns"
  let cpu ← number row "cpu_ns"
  let deadline ← number row "deadline_ns"
  return ⟨release, start, finish, cpu, deadline⟩

/-- The loop over the jobs of a task, from the job with index `j` on; the epoch
is `None` before the first of all jobs. -/
def checkJobs (t : Task) : Option Int → Nat → List Row → Except Raised (Option Int)
  | epoch, _, [] => .ok epoch
  | epoch, j, row :: rows => do
      let e ← entry row
      let epoch := epoch.getD e.release
      require (e.release = epoch + j * (expected t).period ∧
        e.deadline = e.release + (expected t).period) (.runtimeError "source window mismatch")
      require ((e.release ≤ e.start ∧ e.start ≤ e.finish) ∧
        (expected t).cost ≤ e.cpu ∧ e.cpu ≤ e.finish - e.start)
        (.runtimeError "invalid execution accounting")
      checkJobs t (some epoch) (j + 1) rows

def checkTask (rows : List Row) (epoch : Option Int) (t : Task) : Except Raised (Option Int) := do
  let jobs ← Csv.select "task" (name t) rows
  let numbers ← jobs.mapM (number · "job")
  require (numbers = (List.range (expected t).count).map fun j : Nat => (j : Int) + 1)
    (.runtimeError "missing/duplicate task jobs")
  checkJobs t epoch 0 jobs

/-- The sum over the jobs of a task that `validate` returns. -/
def misses (t : Task) : List Row → Except Raised Nat
  | [] => .ok 0
  | row :: rows => do
      if (← Csv.field row "task") = some (name t) then
        let finish ← number row "end_ns"
        let deadline ← number row "deadline_ns"
        let n ← misses t rows
        return n + if deadline < finish then 1 else 0
      else misses t rows

def validate (text : Text) : Except Raised (Both Nat) := do
  let rows ← Csv.table text
  require (rows.length = 24) (.runtimeError "expected 24 completed jobs")
  let epoch ← checkTask rows none .a
  let _ ← checkTask rows epoch .b
  let a ← misses .a rows
  let b ← misses .b rows
  return ⟨a, b⟩

/-! ## summarize_trace -/

/-- The metrics of a task. -/
structure Summary where
  completed : Nat
  misses : Nat
  minimumMargin : Int
  minimumMarginJob : Int
  maximumStartDelay : Int
  maximumResponse : Int
  cpu : Int
  deriving DecidableEq, Repr

/-- `int(row[high]) - int(row[low])`. -/
def difference (high low : String) (row : Row) : Except Raised Int := do
  let h ← number row high
  let l ← number row low
  return h - l

/-- `max` of a list, of which there is none if it is empty. -/
def greatest (l : List Int) : Except Raised Int :=
  match l.max? with
  | none => .error .valueError
  | some i => .ok i

/-- `min(range(len(jobs)), key=lambda index: margins[index])`. -/
def worstIndex (margins : List Int) : Except Raised Nat :=
  match Python.leastBy (fun i => margins.getD i 0) (List.range margins.length) with
  | none => .error .valueError
  | some i => .ok i

def summarizeTask (rows : List Row) (misses : Both Nat) (t : Task) : Except Raised Summary := do
  let jobs ← Csv.select "task" (name t) rows
  let margins ← jobs.mapM (difference "deadline_ns" "end_ns")
  let startDelays ← jobs.mapM (difference "start_ns" "release_ns")
  let responseTimes ← jobs.mapM (difference "end_ns" "release_ns")
  let worst ← worstIndex margins
  let job ← number (jobs.getD worst []) "job"
  let maximumStartDelay ← greatest startDelays
  let maximumResponse ← greatest responseTimes
  let cpu ← jobs.mapM (number · "cpu_ns")
  return {
    completed := jobs.length
    misses := misses.get t
    minimumMargin := margins.getD worst 0
    minimumMarginJob := job
    maximumStartDelay := maximumStartDelay
    maximumResponse := maximumResponse
    cpu := cpu.sum }

def summarizeTrace (text : Text) : Except Raised (Both Summary) := do
  let misses ← validate text
  let rows ← Csv.table text
  let a ← summarizeTask rows misses .a
  let b ← summarizeTask rows misses .b
  return ⟨a, b⟩

/-! ## what an accepted text says -/

namespace Entry

def margin (e : Entry) : Int := e.deadline - e.finish

def startDelay (e : Entry) : Int := e.start - e.release

def response (e : Entry) : Int := e.finish - e.release

def late (e : Entry) : Bool := decide (e.deadline < e.finish)

/-- What is checked of the job with index `j`. -/
structure Sound (t : Task) (epoch : Int) (j : Nat) (e : Entry) : Prop where
  release : e.release = epoch + j * period t
  deadline : e.deadline = e.release + period t
  started : e.release ≤ e.start
  ended : e.start ≤ e.finish
  worked : (work t : Int) ≤ e.cpu
  fits : e.cpu ≤ e.finish - e.start

end Entry

/-- The rows of a task are those of its jobs in order. -/
structure Reads (rows : List Row) (t : Task) (epoch : Int) (jobs : List Row)
    (es : List Entry) : Prop where
  selected : Csv.select "task" (name t) rows = .ok jobs
  numbers : jobs.mapM (number · "job") =
    .ok ((List.range (count t)).map fun j : Nat => (j : Int) + 1)
  entries : jobs.mapM entry = .ok es
  sound : ∀ i e, es[i]? = some e → Entry.Sound t epoch i e

section Validate

variable {rows jobs : List Row} {row : Row} {t : Task} {epoch : Int} {es : List Entry} {j : Nat}

/-- The table of the script is that of the program. -/
theorem expected_eq (t : Task) : expected t = ⟨count t, period t, work t⟩ := by
  cases t <;> rfl

/-- With the epoch known the jobs pass if each of them is sound. -/
theorem checkJobs_some {r : Option Int} : checkJobs t (some epoch) j rows = .ok r ↔
    r = some epoch ∧ ∃ es, rows.mapM entry = .ok es ∧
      ∀ i e, es[i]? = some e → Entry.Sound t epoch (j + i) e := by
  induction rows generalizing j with
  | nil =>
      constructor
      · intro h
        cases h
        exact ⟨rfl, [], rfl, by simp⟩
      · rintro ⟨rfl, -⟩
        rfl
  | cons row rows ih =>
      simp only [checkJobs, bind_eq_ok, require_eq_ok, List.mapM_cons, pure_eq_ok, ih, expected_eq,
        Option.getD_some]
      constructor
      · rintro ⟨e, he, -, ⟨hrelease, hdeadline⟩, -, ⟨⟨hstart, hend⟩, hcost, hfits⟩, rfl, es, hes,
          hall⟩
        refine ⟨rfl, e :: es, ⟨e, he, es, hes, rfl⟩, ?_⟩
        intro i e' hi
        cases i with
        | zero =>
            cases hi
            exact ⟨hrelease, hdeadline, hstart, hend, hcost, hfits⟩
        | succ i =>
            have := hall i e' (by simpa using hi)
            rwa [Nat.add_right_comm] at this
      · rintro ⟨rfl, -, ⟨e, he, es, hes, rfl⟩, hall⟩
        have h0 := hall 0 e rfl
        refine ⟨e, he, (), ⟨h0.release, h0.deadline⟩, (),
          ⟨⟨h0.started, h0.ended⟩, h0.worked, h0.fits⟩, rfl, es, hes, ?_⟩
        intro i e' hi
        have := hall (i + 1) e' (by simpa using hi)
        rwa [← Nat.add_assoc, Nat.add_right_comm] at this

/-- The epoch is the release of the first job. -/
theorem checkJobs_none {r : Option Int} (hne : rows ≠ []) :
    checkJobs t none 0 rows = .ok r ↔ ∃ epoch, checkJobs t (some epoch) 0 rows = .ok r := by
  cases rows with
  | nil => contradiction
  | cons row rows =>
      simp only [checkJobs, bind_eq_ok, require_eq_ok, Option.getD_none, Option.getD_some]
      constructor
      · rintro ⟨e, he, h⟩
        exact ⟨e.release, e, he, h⟩
      · rintro ⟨epoch, e, he, -, ⟨hrelease, hdeadline⟩, h⟩
        have heq : e.release = epoch := by simpa using hrelease
        subst heq
        exact ⟨e, he, (), ⟨by simp, hdeadline⟩, h⟩

/-- With the epoch known a task passes if its rows are read. -/
theorem checkTask_some {r : Option Int} : checkTask rows (some epoch) t = .ok r ↔
    r = some epoch ∧ ∃ jobs es, Reads rows t epoch jobs es := by
  simp only [checkTask, bind_eq_ok, require_eq_ok, checkJobs_some, Nat.zero_add, expected_eq]
  constructor
  · rintro ⟨jobs, hjobs, -, hnumbers, -, rfl, rfl, es, hes, hsound⟩
    exact ⟨rfl, jobs, es, hjobs, hnumbers, hes, hsound⟩
  · rintro ⟨rfl, jobs, es, h⟩
    exact ⟨jobs, h.selected, _, h.numbers, (), rfl, rfl, es, h.entries, h.sound⟩

/-- The first row gives the epoch. -/
theorem checkTask_none {r : Option Int} : checkTask rows none t = .ok r ↔
    ∃ epoch, checkTask rows (some epoch) t = .ok r := by
  simp only [checkTask, bind_eq_ok, require_eq_ok]
  have hne : ∀ jobs : List Row, ∀ numbers, jobs.mapM (number · "job") = .ok numbers →
      numbers = (List.range (expected t).count).map (fun j : Nat => (j : Int) + 1) → jobs ≠ [] := by
    rintro jobs numbers h rfl rfl
    rw [List.mapM_nil] at h
    cases t <;> cases h
  constructor
  · rintro ⟨jobs, hjobs, numbers, hnumbers, u, hall, h⟩
    obtain ⟨epoch, h⟩ := (checkJobs_none (hne jobs numbers hnumbers hall)).mp h
    exact ⟨epoch, jobs, hjobs, numbers, hnumbers, u, hall, h⟩
  · rintro ⟨epoch, jobs, hjobs, numbers, hnumbers, u, hall, h⟩
    exact ⟨jobs, hjobs, numbers, hnumbers, u, hall,
      (checkJobs_none (hne jobs numbers hnumbers hall)).mpr ⟨epoch, h⟩⟩

/-- The numbers of a row are those of its entry. -/
theorem number_finish {e : Entry} (h : entry row = .ok e) :
    number row "end_ns" = .ok e.finish ∧ number row "deadline_ns" = .ok e.deadline ∧
      number row "start_ns" = .ok e.start ∧ number row "release_ns" = .ok e.release ∧
      number row "cpu_ns" = .ok e.cpu := by
  simp only [entry, bind_eq_ok, pure_eq_ok] at h
  obtain ⟨release, hrelease, start, hstart, finish, hfinish, cpu, hcpu, deadline, hdeadline,
    rfl⟩ := h
  exact ⟨hfinish, hdeadline, hstart, hrelease, hcpu⟩

/-- A task's misses are its late entries. -/
theorem misses_eq (hjobs : Csv.select "task" (name t) rows = .ok jobs)
    (hes : jobs.mapM entry = .ok es) :
    misses t rows = .ok (es.countP Entry.late) := by
  induction rows generalizing jobs es with
  | nil =>
      cases hjobs
      cases hes
      rfl
  | cons row rows ih =>
      simp only [Csv.select, bind_eq_ok, pure_eq_ok] at hjobs
      obtain ⟨task, htask, rest, hrest, hjobs⟩ := hjobs
      rw [misses, htask]
      by_cases hmine : task = some (name t)
      · rw [if_pos hmine] at hjobs
        subst hjobs
        simp only [List.mapM_cons, bind_eq_ok, pure_eq_ok] at hes
        obtain ⟨e, he, es', hes', rfl⟩ := hes
        obtain ⟨hfinish, hdeadline, -⟩ := number_finish he
        refine bind_eq_ok.mpr ⟨task, rfl, ?_⟩
        rw [if_pos hmine, hfinish, hdeadline, ih hrest hes', List.countP_cons]
        simp [bind, Except.bind, pure, Except.pure, Entry.late]
      · rw [if_neg hmine] at hjobs
        subst hjobs
        refine bind_eq_ok.mpr ⟨task, rfl, ?_⟩
        rw [if_neg hmine]
        exact ih hrest hes

/-- **Validation** is exactly this. -/
theorem validate_eq_ok {text : Text} {m : Both Nat} : validate text = .ok m ↔
    ∃ rows epoch ja jb ea eb, Csv.table text = .ok rows ∧ rows.length = 24 ∧
      Reads rows .a epoch ja ea ∧ Reads rows .b epoch jb eb ∧
      m = ⟨ea.countP Entry.late, eb.countP Entry.late⟩ := by
  simp only [validate, bind_eq_ok, require_eq_ok, checkTask_none, pure_eq_ok]
  constructor
  · rintro ⟨rows, hrows, -, hlength, _, ⟨epoch, ha⟩, _, hb, na, hna, nb, hnb, rfl⟩
    obtain ⟨rfl, ja, ea, ha⟩ := checkTask_some.mp ha
    obtain ⟨rfl, jb, eb, hb⟩ := checkTask_some.mp hb
    rw [misses_eq ha.selected ha.entries] at hna
    rw [misses_eq hb.selected hb.entries] at hnb
    cases hna
    cases hnb
    exact ⟨rows, epoch, ja, jb, ea, eb, hrows, hlength, ha, hb, rfl⟩
  · rintro ⟨rows, epoch, ja, jb, ea, eb, hrows, hlength, ha, hb, rfl⟩
    exact ⟨rows, hrows, (), hlength, some epoch, ⟨epoch, checkTask_some.mpr ⟨rfl, ja, ea, ha⟩⟩,
      some epoch, checkTask_some.mpr ⟨rfl, jb, eb, hb⟩, _, misses_eq ha.selected ha.entries, _,
      misses_eq hb.selected hb.entries, rfl⟩

end Validate

/-! ## the summary of an accepted text -/

/-- The first of the jobs with the least margin. -/
def worst (es : List Entry) : Nat :=
  (Python.leastBy (fun i => (es.map Entry.margin).getD i 0) (List.range es.length)).getD 0

/-- The metrics as a function of the jobs. -/
def summaryOf (es : List Entry) : Summary where
  completed := es.length
  misses := es.countP Entry.late
  minimumMargin := (es.map Entry.margin).getD (worst es) 0
  minimumMarginJob := worst es + 1
  maximumStartDelay := (es.map Entry.startDelay).max?.getD 0
  maximumResponse := (es.map Entry.response).max?.getD 0
  cpu := (es.map Entry.cpu).sum

section Summarize

variable {rows jobs : List Row} {row : Row} {t : Task} {epoch : Int} {es : List Entry}
  {f : Row → Except Raised Int} {g : Entry → Int}

/-- What is read of every job is a function of its entry. -/
theorem mapM_entry (h : jobs.mapM entry = .ok es)
    (hf : ∀ row e, entry row = .ok e → f row = .ok (g e)) :
    jobs.mapM f = .ok (es.map g) := by
  induction jobs generalizing es with
  | nil => cases h; rfl
  | cons row jobs ih =>
      simp only [List.mapM_cons, bind_eq_ok, pure_eq_ok] at h ⊢
      obtain ⟨e, he, es', hes, rfl⟩ := h
      exact ⟨g e, hf row e he, es'.map g, ih hes, rfl⟩

/-- Reading a list keeps its length. -/
theorem length_mapM {α β ε : Type} {f : α → Except ε β} {l : List α} {l' : List β}
    (h : l.mapM f = .ok l') : l'.length = l.length :=
  (Raise.mapM_eq_ok.mp h).length_eq.symm

/-- All jobs of a task are read. -/
theorem Reads.length (h : Reads rows t epoch jobs es) : es.length = count t := by
  rw [length_mapM h.entries, ← length_mapM h.numbers]
  simp

/-- A task has jobs. -/
theorem Reads.ne_nil (h : Reads rows t epoch jobs es) : es ≠ [] := by
  have hlength := h.length
  rintro rfl
  cases t <;> cases hlength

/-- Each job prints its own number. -/
theorem Reads.number (h : Reads rows t epoch jobs es) {i : Nat} (hi : i < jobs.length) :
    number (jobs.getD i []) "job" = .ok ((i : Int) + 1) := by
  have hall := Raise.mapM_eq_ok.mp h.numbers
  have hlength := hall.length_eq
  have := hall.get hi (hlength ▸ hi)
  simpa [List.getD_eq_getElem?_getD, hi] using this

/-- There is a worst job. -/
theorem worst_eq (hne : es ≠ []) :
    Python.leastBy (fun i => (es.map Entry.margin).getD i 0) (List.range es.length) =
      some (worst es) := by
  unfold worst
  cases hmin : Python.leastBy (fun i => (es.map Entry.margin).getD i 0) (List.range es.length) with
  | none =>
      rw [Python.leastBy_eq_none, List.range_eq_nil, List.length_eq_zero_iff] at hmin
      contradiction
  | some i => rfl

/-- The worst entry is found. -/
theorem worst_lt (hne : es ≠ []) : worst es < es.length ∧
    worstIndex (es.map Entry.margin) = .ok (worst es) := by
  have hworst := worst_eq hne
  refine ⟨List.mem_range.mp (Python.leastBy_mem hworst), ?_⟩
  unfold worstIndex
  rw [List.length_map, hworst]

/-- The greatest of some values is their maximum. -/
theorem greatest_eq (hne : es ≠ []) (g : Entry → Int) :
    greatest (es.map g) = .ok ((es.map g).max?.getD 0) := by
  unfold greatest
  cases hmax : (es.map g).max? with
  | none => simp_all
  | some i => rfl

/-- The summary of a task is that of its entries. -/
theorem summarizeTask_eq (h : Reads rows t epoch jobs es) {m : Both Nat}
    (hm : m.get t = es.countP Entry.late) : summarizeTask rows m t = .ok (summaryOf es) := by
  have hread : ∀ row e, entry row = .ok e → difference "deadline_ns" "end_ns" row = .ok e.margin ∧
      difference "start_ns" "release_ns" row = .ok e.startDelay ∧
      difference "end_ns" "release_ns" row = .ok e.response ∧
      Csv.number row "cpu_ns" = .ok e.cpu := by
    intro row e he
    obtain ⟨hfinish, hdeadline, hstart, hrelease, hcpu⟩ := number_finish he
    unfold difference
    rw [hfinish, hdeadline, hstart, hrelease]
    exact ⟨rfl, rfl, rfl, hcpu⟩
  obtain ⟨hworst, hindex⟩ := worst_lt h.ne_nil
  have hjobs : jobs.length = es.length := (length_mapM h.entries).symm
  simp only [summarizeTask, bind_eq_ok, pure_eq_ok]
  refine ⟨jobs, h.selected, _, mapM_entry h.entries fun row e he => (hread row e he).1,
    _, mapM_entry h.entries fun row e he => (hread row e he).2.1,
    _, mapM_entry h.entries fun row e he => (hread row e he).2.2.1,
    worst es, hindex, _, h.number (hjobs ▸ hworst), _, greatest_eq h.ne_nil _,
    _, greatest_eq h.ne_nil _, _, mapM_entry h.entries fun row e he => (hread row e he).2.2.2, ?_⟩
  rw [hm, hjobs]
  rfl

/-- The summary of a text is that of what it says. -/
theorem summarizeTrace_eq_ok {text : Text} {s : Both Summary} : summarizeTrace text = .ok s ↔
    ∃ rows epoch ja jb ea eb, Csv.table text = .ok rows ∧ rows.length = 24 ∧
      Reads rows .a epoch ja ea ∧ Reads rows .b epoch jb eb ∧ s = ⟨summaryOf ea, summaryOf eb⟩ := by
  simp only [summarizeTrace, bind_eq_ok, pure_eq_ok, validate_eq_ok]
  constructor
  · rintro ⟨m, ⟨rows, epoch, ja, jb, ea, eb, hrows, hlength, ha, hb, rfl⟩, rows', hrows', sa, hsa,
      sb, hsb, rfl⟩
    rw [hrows] at hrows'
    cases hrows'
    rw [summarizeTask_eq ha rfl] at hsa
    rw [summarizeTask_eq hb rfl] at hsb
    cases hsa
    cases hsb
    exact ⟨rows, epoch, ja, jb, ea, eb, hrows, hlength, ha, hb, rfl⟩
  · rintro ⟨rows, epoch, ja, jb, ea, eb, hrows, hlength, ha, hb, rfl⟩
    exact ⟨_, ⟨rows, epoch, ja, jb, ea, eb, hrows, hlength, ha, hb, rfl⟩, rows, hrows, _,
      summarizeTask_eq ha rfl, _, summarizeTask_eq hb rfl, rfl⟩

end Summarize

/-! ## what the summary means -/

section Bounds

variable {rows jobs : List Row} {t : Task} {epoch : Int} {es : List Entry} {e : Entry} {i : Nat}

/-- Every entry that was read is sound. -/
theorem Reads.sound_of_mem (h : Reads rows t epoch jobs es) (he : e ∈ es) :
    ∃ i, Entry.Sound t epoch i e := by
  obtain ⟨i, hi⟩ := List.mem_iff_getElem?.mp he
  exact ⟨i, h.sound i e hi⟩

/-- A job that starts late or works long ends late. -/
theorem Entry.Sound.response_add_margin (h : Entry.Sound t epoch i e) :
    e.response + e.margin = period t ∧ (e.late = true ↔ e.margin < 0) ∧
      0 ≤ e.startDelay ∧ e.startDelay + work t ≤ e.response ∧
      (work t : Int) ≤ e.cpu ∧ e.cpu ≤ e.response := by
  obtain ⟨-, hdeadline, hstart, hend, hwork, hfits⟩ := h
  simp only [Entry.response, Entry.margin, Entry.late, Entry.startDelay, decide_eq_true_eq]
  omega

/-- The worst job is an entry with the least margin, and the first such. -/
theorem worst_spec (hne : es ≠ []) : ∃ e ∈ es, es[worst es]? = some e ∧
    (summaryOf es).minimumMargin = e.margin ∧ (∀ e' ∈ es, e.margin ≤ e'.margin) ∧
      ∀ i e', es[i]? = some e' → i < worst es → e.margin < e'.margin := by
  obtain ⟨hlt, -⟩ := worst_lt hne
  have hworst := worst_eq hne
  have hmargin : ∀ i (hi : i < es.length), (es.map Entry.margin).getD i 0 = es[i].margin := by
    intro i hi
    simp [List.getD_eq_getElem?_getD, hi]
  refine ⟨es[worst es], List.getElem_mem hlt, List.getElem?_eq_getElem hlt, hmargin _ hlt, ?_, ?_⟩
  · intro e' he'
    obtain ⟨i, hi, rfl⟩ := List.mem_iff_getElem.mp he'
    have hle := Python.le_of_leastBy hworst (List.mem_range.mpr hi)
    rwa [hmargin _ hlt, hmargin _ hi] at hle
  · intro i e' hi hbefore
    obtain ⟨hilt, rfl⟩ := List.getElem?_eq_some_iff.mp hi
    have hlt' :=
      Python.lt_of_leastBy List.pairwise_lt_range hworst (List.mem_range.mpr hilt) hbefore
    rwa [hmargin _ hlt, hmargin _ hilt] at hlt'

/-- A maximum is reached, and is never passed. -/
theorem max?_spec (hne : es ≠ []) (g : Entry → Int) :
    (∃ e ∈ es, (es.map g).max?.getD 0 = g e) ∧ ∀ e ∈ es, g e ≤ (es.map g).max?.getD 0 := by
  cases hmax : (es.map g).max? with
  | none => simp_all
  | some m =>
      obtain ⟨hmem, hle⟩ := List.max?_eq_some_iff.mp hmax
      obtain ⟨e, he, rfl⟩ := List.mem_map.mp hmem
      exact ⟨⟨e, he, rfl⟩, fun e' he' => hle _ (List.mem_map_of_mem he')⟩

/-- A sum is at least as many times the lower bound. -/
theorem le_sum_of_forall {g : Entry → Int} {c : Int} (h : ∀ e ∈ es, c ≤ g e) :
    es.length * c ≤ (es.map g).sum := by
  induction es with
  | nil => simp
  | cons e es ih =>
      have hrest := ih fun e' he' => h e' (List.mem_cons_of_mem _ he')
      have hfirst := h e List.mem_cons_self
      simp only [List.length_cons, List.map_cons, List.sum_cons, Nat.cast_add, Int.add_mul]
      omega

/-- A sum is at most as many times the upper bound. -/
theorem sum_le_of_forall {g : Entry → Int} {c : Int} (h : ∀ e ∈ es, g e ≤ c) :
    (es.map g).sum ≤ es.length * c := by
  induction es with
  | nil => simp
  | cons e es ih =>
      have hrest := ih fun e' he' => h e' (List.mem_cons_of_mem _ he')
      have hfirst := h e List.mem_cons_self
      simp only [List.length_cons, List.map_cons, List.sum_cons, Nat.cast_add, Int.add_mul]
      omega

/-- What the metrics of a task say of each other. -/
structure Summary.Sound (t : Task) (m : Summary) : Prop where
  completed : m.completed = count t
  job : 1 ≤ m.minimumMarginJob ∧ m.minimumMarginJob ≤ count t
  response : m.minimumMargin + m.maximumResponse = period t
  misses : m.misses ≤ count t ∧ (0 < m.misses ↔ m.minimumMargin < 0)
  startDelay : 0 ≤ m.maximumStartDelay ∧ m.maximumStartDelay + work t ≤ m.maximumResponse
  cpu : (count t : Int) * work t ≤ m.cpu ∧ m.cpu ≤ count t * m.maximumResponse

/-- The summary of entries that were read is sound. -/
theorem Reads.summary_sound (h : Reads rows t epoch jobs es) : (summaryOf es).Sound t := by
  have hne := h.ne_nil
  have hlength := h.length
  have hfacts : ∀ e ∈ es, e.response + e.margin = period t ∧ (e.late = true ↔ e.margin < 0) ∧
      0 ≤ e.startDelay ∧ e.startDelay + work t ≤ e.response ∧ (work t : Int) ≤ e.cpu ∧
      e.cpu ≤ e.response := by
    intro e he
    obtain ⟨i, hi⟩ := h.sound_of_mem he
    exact hi.response_add_margin
  obtain ⟨w, hw, -, hmargin, hleast, -⟩ := worst_spec hne
  obtain ⟨⟨r, hr, hresponse⟩, hmost⟩ := max?_spec hne Entry.response
  obtain ⟨⟨d, hd, hdelay⟩, -⟩ := max?_spec hne Entry.startDelay
  constructor
  case completed => exact hlength
  case job =>
      have := (worst_lt hne).1
      dsimp only [summaryOf]
      omega
  case response =>
      have hwr := hmost w hw
      have hrw := hleast r hr
      have h1 := (hfacts w hw).1
      have h2 := (hfacts r hr).1
      rw [hmargin]
      dsimp only [summaryOf]
      omega
  case misses =>
      refine ⟨hlength ▸ List.countP_le_length, ?_⟩
      rw [hmargin]
      dsimp only [summaryOf]
      rw [List.countP_pos_iff]
      constructor
      · rintro ⟨e, he, hlate⟩
        have := hleast e he
        have := (hfacts e he).2.1.mp hlate
        omega
      · exact fun hneg => ⟨w, hw, (hfacts w hw).2.1.mpr hneg⟩
  case startDelay =>
      obtain ⟨-, -, hpos, hle, -⟩ := hfacts d hd
      have := hmost d hd
      dsimp only [summaryOf]
      omega
  case cpu =>
      dsimp only [summaryOf]
      rw [← hlength]
      exact ⟨le_sum_of_forall fun e he => (hfacts e he).2.2.2.2.1,
        sum_le_of_forall fun e he => (hfacts e he).2.2.2.2.2.trans (hmost e he)⟩

end Bounds

end ScxSlam.EdfWorkload
