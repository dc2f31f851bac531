import ScxSlam.Lib.Python
import ScxSlam.Lib.Raise

/-!
# ScxSlam.Lib.Csv

Python's `csv.reader` and `csv.DictReader` for the default dialect, on a text
that is read line by line.  `read_printed` is the rule for a table that was
printed without quotes, and the values of its rows are those printed.
-/

namespace Csv

open Python (Text Raised)
open Raise (bind_eq_ok pure_eq_ok)

/-- Where the reader is in a record. -/
inductive Mode
  | startRecord
  | startField
  | inField
  | inQuoted
  | quoteInQuoted
  /-- behind the end of a record, inside its line -/
  | eatNewline
  deriving DecidableEq, Repr

/-- The reader: the field and the record begun, and the records read. -/
structure Reader where
  mode : Mode := .startRecord
  field : Text := []
  record : List Text := []
  records : List (List Text) := []
  deriving DecidableEq, Repr

namespace Reader

variable (r : Reader) (c : Char)

/-- A character joins the field. -/
def add (mode : Mode) : Reader := { r with mode := mode, field := r.field ++ [c] }

/-- The field is complete. -/
def save (mode : Mode) : Reader :=
  { r with mode := mode, field := [], record := r.record ++ [r.field] }

/-- A character outside quotes. -/
def plain : Reader :=
  if c = '\n' ∨ c = '\r' then r.save .eatNewline
  else if c = ',' then r.save .startField
  else r.add c .inField

/-- A character; `none` where the reader raises an error. -/
def char : Option Reader :=
  match r.mode with
  | .startRecord | .startField =>
      if r.mode = .startRecord ∧ (c = '\n' ∨ c = '\r') then some { r with mode := .eatNewline }
      else if c = '"' then some { r with mode := .inQuoted }
      else some (r.plain c)
  | .inField => some (r.plain c)
  | .inQuoted => some (if c = '"' then { r with mode := .quoteInQuoted } else r.add c .inQuoted)
  | .quoteInQuoted => some (if c = '"' then r.add c .inQuoted else r.plain c)
  | .eatNewline => if c = '\n' ∨ c = '\r' then some r else none

/-- The record is complete. -/
def finish : Reader :=
  { r with mode := .startRecord, record := [], records := r.records ++ [r.record] }

/-- The end of a line. -/
def endLine : Reader :=
  match r.mode with
  | .startRecord | .eatNewline => r.finish
  | .startField | .inField | .quoteInQuoted => (r.save .startRecord).finish
  | .inQuoted => r

/-- The characters of a text, whose lines end behind each `'\n'`. -/
def text (r : Reader) : Text → Option Reader
  | [] => some (if r.mode = .startRecord then r else r.endLine)
  | c :: rest => (r.char c).bind fun r => (if c = '\n' then r.endLine else r).text rest

/-- The end of the file. -/
def close : List (List Text) :=
  if r.field ≠ [] ∨ r.mode = .inQuoted then (r.save .startRecord).finish.records else r.records

end Reader

/-- The records of a text. -/
def read (text : Text) : Option (List (List Text)) := (Reader.text {} text).map Reader.close

/-- A row of `DictReader`; the value is missing where the record is short. -/
abbrev Row := List (Text × Option Text)

/-- `row[name]`; `none` where there is no such key. -/
def Row.get? (row : Row) (name : Text) : Option (Option Text) :=
  (row.reverse.find? (·.1 = name)).map Prod.snd

/-- `dict(zip(fieldnames, record))`, filled up. -/
def row (names record : List Text) : Row :=
  (names.zip record).map (fun p => (p.1, some p.2)) ++
    (names.drop record.length).map fun name => (name, none)

/-- `list(csv.DictReader(file))`. -/
def rows (text : Text) : Option (List Row) :=
  (read text).map fun
    | [] => []
    | names :: records => (records.filter (· ≠ [])).map (row names)

/-- A line of fields. -/
def line : List Text → Text
  | [] => []
  | [f] => f
  | f :: fs => f ++ ',' :: line fs

/-- A table as it is printed. -/
def printed (table : List (List Text)) : Text := Python.unlines (table.map line)

/-- A field that stands for itself. -/
def Plain (f : Text) : Prop := f ≠ [] ∧ ∀ c ∈ f, c ≠ ',' ∧ c ≠ '"' ∧ c ≠ '\n' ∧ c ≠ '\r'

instance (f : Text) : Decidable (Plain f) :=
  decidable_of_iff
    (f ≠ [] ∧ f.all (fun c => decide (c ≠ ',' ∧ c ≠ '"' ∧ c ≠ '\n' ∧ c ≠ '\r')) = true)
    (by simp [Plain])

section Printed

variable {r : Reader} {f : Text} {fs record : List Text} {table : List (List Text)} {rest : Text}

/-- Plain characters are appended to the field. -/
theorem text_field (hf : ∀ c ∈ f, c ≠ ',' ∧ c ≠ '"' ∧ c ≠ '\n' ∧ c ≠ '\r')
    (hr : r.mode = .inField) :
    r.text (f ++ rest) = ({ r with field := r.field ++ f } : Reader).text rest := by
  induction f generalizing r with
  | nil => simp
  | cons c f ih =>
      obtain ⟨hcomma, -, hlf, hcr⟩ := hf c List.mem_cons_self
      have hchar : r.char c = some (r.add c .inField) := by
        simp [Reader.char, hr, Reader.plain, hcomma, hlf, hcr]
      rw [List.cons_append, Reader.text, hchar, Option.bind_some, if_neg hlf,
        ih (fun c hc => hf c (List.mem_cons_of_mem _ hc)) rfl]
      simp [Reader.add, hr]

/-- A field, from its first character on. -/
theorem text_plain (hf : Plain f) (hr : r.mode = .startRecord ∨ r.mode = .startField)
    (hfield : r.field = []) :
    r.text (f ++ rest) = ({ r with mode := .inField, field := f } : Reader).text rest := by
  obtain ⟨c, f, rfl⟩ := List.exists_cons_of_ne_nil hf.1
  obtain ⟨hcomma, hquote, hlf, hcr⟩ := hf.2 c List.mem_cons_self
  have hchar : r.char c = some (r.add c .inField) := by
    obtain hr | hr := hr <;> simp [Reader.char, hr, Reader.plain, hcomma, hlf, hcr, hquote]
  rw [List.cons_append, Reader.text, hchar, Option.bind_some, if_neg hlf,
    text_field (fun c hc => hf.2 c (List.mem_cons_of_mem _ hc)) rfl]
  simp [Reader.add, hfield]

/-- A line, from the middle of its record on. -/
theorem text_line (hfs : ∀ f ∈ fs, Plain f) (hne : fs ≠ [])
    (hr : r.mode = .startRecord ∨ r.mode = .startField) (hfield : r.field = []) :
    r.text (line fs ++ '\n' :: rest) =
      Reader.text { records := r.records ++ [r.record ++ fs] } rest := by
  induction fs generalizing r with
  | nil => contradiction
  | cons f fs ih =>
      have hf := hfs f List.mem_cons_self
      cases fs with
      | nil =>
          rw [line, text_plain hf hr hfield, Reader.text]
          simp [Reader.char, Reader.plain, Reader.save, Reader.endLine, Reader.finish]
      | cons f' fs =>
          have hrest := ih
            (r := { r with mode := .startField, field := [], record := r.record ++ [f] })
            (fun f hf => hfs f (List.mem_cons_of_mem _ hf)) (List.cons_ne_nil _ _) (.inr rfl) rfl
          have hcomma : ({ r with mode := .inField, field := f } : Reader).char ',' =
              some { r with mode := .startField, field := [], record := r.record ++ [f] } := by
            simp [Reader.char, Reader.plain, Reader.save]
          rw [line, List.append_assoc, text_plain hf hr hfield, List.cons_append, Reader.text,
            hcomma, Option.bind_some, if_neg (by decide), hrest]
          · simp
          · simp

/-- A printed table is read back, record by record. -/
theorem text_printed (htable : ∀ fs ∈ table, fs ≠ [] ∧ ∀ f ∈ fs, Plain f)
    (hr : r.mode = .startRecord) (hfield : r.field = []) (hrecord : r.record = []) :
    r.text (printed table) = some { records := r.records ++ table } := by
  induction table generalizing r with
  | nil =>
      obtain ⟨mode, field, record, records⟩ := r
      cases hr; cases hfield; cases hrecord
      simp [printed, Python.unlines, Reader.text]
  | cons fs table ih =>
      obtain ⟨hne, hfs⟩ := htable fs List.mem_cons_self
      have hprinted : printed (fs :: table) = line fs ++ '\n' :: printed table := by
        simp [printed, Python.unlines]
      rw [hprinted, text_line hfs hne (.inl hr) hfield, hrecord, List.nil_append,
        ih (fun fs hfs => htable fs (List.mem_cons_of_mem _ hfs)) rfl rfl rfl]
      simp

/-- A printed table is read back. -/
theorem read_printed (htable : ∀ fs ∈ table, fs ≠ [] ∧ ∀ f ∈ fs, Plain f) :
    read (printed table) = some table := by
  rw [read, text_printed htable rfl rfl rfl]
  simp [Reader.close]

/-- A record as long as the header. -/
theorem row_eq {names : List Text} (h : record.length = names.length) :
    row names record = (names.zip record).map fun p => (p.1, some p.2) := by
  rw [row, h, List.drop_length, List.map_nil, List.append_nil]

/-- The rows of a printed table with a header. -/
theorem rows_printed {names : List Text} (hnames : names ≠ [] ∧ ∀ f ∈ names, Plain f)
    (htable : ∀ fs ∈ table, fs ≠ [] ∧ ∀ f ∈ fs, Plain f) :
    rows (printed (names :: table)) = some (table.map (row names)) := by
  have hread : read (printed (names :: table)) = some (names :: table) := by
    refine read_printed fun fs hfs => ?_
    obtain rfl | hfs := List.mem_cons.mp hfs
    · exact hnames
    · exact htable fs hfs
  have hall : table.filter (· ≠ []) = table :=
    List.filter_eq_self.mpr fun fs hfs => by simpa using (htable fs hfs).1
  rw [rows, hread, Option.map_some]
  dsimp only
  rw [hall]

/-- A decimal stands for itself. -/
theorem plain_decimal (n : Nat) : Plain (Extract.decimal n) := by
  refine ⟨Python.decimal_ne_nil n, fun c hc => ?_⟩
  have hdigit := Extract.isDigit_of_mem_decimal hc
  refine ⟨?_, ?_, ?_, ?_⟩ <;> exact fun h => by simp [h] at hdigit

/-- A printed number needs no quotes. -/
theorem plain_shown (i : Int) : Plain (Python.shown i) := by
  cases i with
  | ofNat n => exact plain_decimal n
  | negSucc n =>
      refine ⟨List.cons_ne_nil _ _, fun c hc => ?_⟩
      obtain rfl | hc := List.mem_cons.mp hc
      · decide
      · exact (plain_decimal (n + 1)).2 c hc

end Printed

/-! ## rows -/

/-- `row[key]`. -/
def field (row : Row) (key : String) : Except Raised (Option Text) :=
  match row.get? key.toList with
  | none => .error (.keyError key.toList)
  | some v => .ok v

/-- `int(row[key])`. -/
def number (row : Row) (key : String) : Except Raised Int := do
  match ← field row key with
  | none => .error .typeError
  | some text => match Python.int? text with
    | none => .error .valueError
    | some i => .ok i

/-- `list(csv.DictReader(…))`. -/
def table (text : Text) : Except Raised (List Row) :=
  match rows text with
  | none => .error .csvError
  | some rows => .ok rows

/-- `[r for r in rows if r[key] == name]`. -/
def select (key : String) (name : Text) : List Row → Except Raised (List Row)
  | [] => .ok []
  | row :: rows => do
      let value ← field row key
      let selected ← select key name rows
      return if value = some name then row :: selected else selected

section Rows

variable {row : Row} {l l' r r' : List Row} {key : String} {name other : Text} {n : Nat} {i : Int}

/-- A printed number is read back. -/
theorem number_decimal (h : row.get? key.toList = some (some (Extract.decimal n))) :
    number row key = .ok n := by
  unfold number field
  rw [h]
  simp only [bind, Except.bind, Python.int?_decimal]

/-- Rows are selected from two tables in turn. -/
theorem select_append (h : select key name l = .ok r) (h' : select key name l' = .ok r') :
    select key name (l ++ l') = .ok (r ++ r') := by
  induction l generalizing r with
  | nil =>
      cases h
      exact h'
  | cons row l ih =>
      simp only [select, List.cons_append, bind_eq_ok, pure_eq_ok] at h ⊢
      obtain ⟨value, hvalue, rest, hrest, rfl⟩ := h
      refine ⟨value, hvalue, _, ih hrest, ?_⟩
      split <;> simp

/-- Rows of one name. -/
theorem select_of_forall (h : ∀ row ∈ l, field row key = .ok (some other)) :
    select key name l = .ok (if other = name then l else []) := by
  induction l with
  | nil => simp [select]
  | cons row l ih =>
      rw [select, h row List.mem_cons_self, ih fun row hrow => h row (List.mem_cons_of_mem _ hrow)]
      simp only [bind, Except.bind, pure, Except.pure, Option.some.injEq]
      split <;> rfl

end Rows

end Csv
