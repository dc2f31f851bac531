import ScxSlam.Lib.Strtoull
import ScxSlam.PipelineDemo.Demo

/-!
# ScxSlam.PipelineDemo.Options

The microsecond options of `slam_pipeline_demo`.  Two of them take digits
alone and in range; the vision options leave some of the checks out, and
`Lax` says what each of them takes on top.
-/

namespace ScxSlam.PipelineDemo

open Extract

/-! ## the options -/

/-- `errno || !end || *end != '\0'`. -/
def Parsed.bad (p : Parsed) : Bool := p.range || !p.rest.isEmpty

/-- `UINT64_MAX / 1'000ULL`. -/
def maxWorkUs : Nat := (Word.size 64 - 1) / 1000

/-- `!*arg || strspn(arg, "0123456789") != strlen(arg)`. -/
def unspelled (arg : List Char) : Bool :=
  arg.isEmpty || (arg.takeWhile Char.isDigit).length != arg.length

/-- An option with every check. -/
def strictOption (message : String) (arg : List Char) : Except String Nat :=
  let p := strtoull 64 arg
  if unspelled arg || Parsed.bad p || decide (maxWorkUs < p.value) then .error message
  else .ok p.value

/-- `--imu-work-us`. -/
def imuWorkOption : List Char → Except String Nat :=
  strictOption "error: IMU work must be a non-negative integer number of microseconds that fits in nanoseconds\n"

/-- `--vision-budget-us`. -/
def visionBudgetOption (arg : List Char) : Except String Nat :=
  let p := strtoull 64 arg
  if Parsed.bad p then .error "error: vision budget must be an integer number of microseconds\n"
  else if maxWorkUs < p.value then .error "error: vision budget is too large\n"
  else .ok p.value

/-- `--vision-work-us`. -/
def visionWorkOption (arg : List Char) : Except String Nat :=
  let p := strtoull 64 arg
  if Parsed.bad p then .error "error: vision work must be an integer number of microseconds\n"
  else .ok p.value

/-- `--vision-deadline-us`. -/
def visionDeadlineOption (arg : List Char) : Except String Nat :=
  let p := strtoull 64 arg
  if Parsed.bad p || decide (maxWorkUs < p.value) then
    .error "error: vision deadline must be a valid number of microseconds\n"
  else .ok p.value

/-- `--lidar-pre-budget-us`. -/
def lidarPreBudgetOption : List Char → Except String Nat :=
  strictOption "error: LiDAR preprocessing budget must be a non-negative integer number of microseconds that fits in nanoseconds\n"

/-- The five of them. -/
inductive MicrosecondOption
  | imuWork
  | visionBudget
  | visionWork
  | visionDeadline
  | lidarPreBudget
  deriving DecidableEq, Repr

def MicrosecondOption.parse : MicrosecondOption → List Char → Except String Nat
  | .imuWork => imuWorkOption
  | .visionBudget => visionBudgetOption
  | .visionWork => visionWorkOption
  | .visionDeadline => visionDeadlineOption
  | .lidarPreBudget => lidarPreBudgetOption

/-! ## what they take -/

/-- Digits that denote `v` microseconds, which fit in nanoseconds. -/
structure Microseconds (arg : List Char) (v : Nat) : Prop where
  nonempty : arg ≠ []
  digits : ∀ c ∈ arg, c.isDigit = true
  value : Nat.ofDigitChars 10 arg 0 = v
  fits : v * 1000 < Word.size 64

section Parse

variable {arg : List Char} {v : Nat} {o : MicrosecondOption}

/-- Everything was read, and fits. -/
theorem bad_eq_false {p : Parsed} : Parsed.bad p = false ↔ p = ⟨p.value, false, []⟩ := by
  obtain ⟨value, range, rest⟩ := p
  simp [Parsed.bad]

/-- An argument of digits. -/
theorem unspelled_eq_false :
    unspelled arg = false ↔ arg ≠ [] ∧ ∀ c ∈ arg, c.isDigit = true := by
  have hlen : (arg.takeWhile Char.isDigit).length = arg.length ↔ ∀ c ∈ arg, c.isDigit = true := by
    rw [← List.takeWhile_eq_self_iff]
    constructor
    · intro h
      exact (List.takeWhile_prefix _).eq_of_length h
    · intro h
      rw [h]
  simp [unspelled, hlen]

/-- The largest number of microseconds that fits in nanoseconds. -/
theorem le_maxWorkUs : v ≤ maxWorkUs ↔ v * 1000 < Word.size 64 := by
  rw [maxWorkUs, Nat.le_div_iff_mul_le (by decide)]
  have hpos := Word.size_pos 64
  omega

/-- The text is read to its end, as `v`. -/
def ReadAs (arg : List Char) (v : Nat) : Prop := strtoull 64 arg = ⟨v, false, []⟩

/-- What `strtoull` reads to its end. -/
theorem readAs_iff :
    ReadAs arg v ↔ Parsed.bad (strtoull 64 arg) = false ∧ (strtoull 64 arg).value = v := by
  unfold ReadAs
  constructor
  · intro h
    rw [h]
    exact ⟨rfl, rfl⟩
  · rintro ⟨hbad, rfl⟩
    exact bad_eq_false.mp hbad

/-- A check, or the value. -/
theorem check_eq_ok {refused : Prop} [Decidable refused] {message : String} {value : Nat} :
    (if refused then .error message else .ok value : Except String Nat) = .ok v ↔
      ¬ refused ∧ value = v := by
  split <;> simp_all

/-- The vision work takes what `strtoull` reads. -/
theorem visionWorkOption_iff : visionWorkOption arg = .ok v ↔ ReadAs arg v := by
  rw [readAs_iff]
  simp [visionWorkOption, check_eq_ok]

/-- The vision deadline takes what `strtoull` reads, if it fits. -/
theorem visionDeadlineOption_iff :
    visionDeadlineOption arg = .ok v ↔ ReadAs arg v ∧ v * 1000 < Word.size 64 := by
  rw [readAs_iff, ← le_maxWorkUs]
  simp only [visionDeadlineOption, check_eq_ok, Bool.or_eq_true, decide_eq_true_eq, not_or,
    Nat.not_lt, Bool.not_eq_true]
  constructor
  · rintro ⟨⟨hbad, hmax⟩, rfl⟩
    exact ⟨⟨hbad, rfl⟩, hmax⟩
  · rintro ⟨⟨hbad, rfl⟩, hmax⟩
    exact ⟨⟨hbad, hmax⟩, rfl⟩

/-- The vision budget takes what `strtoull` reads, if it fits. -/
theorem visionBudgetOption_iff :
    visionBudgetOption arg = .ok v ↔ ReadAs arg v ∧ v * 1000 < Word.size 64 := by
  rw [readAs_iff, ← le_maxWorkUs]
  unfold visionBudgetOption
  dsimp only
  split
  · next hbad => simp [hbad]
  · next hbad =>
    rw [check_eq_ok, Nat.not_lt]
    constructor
    · rintro ⟨hmax, rfl⟩
      exact ⟨⟨by simpa using hbad, rfl⟩, hmax⟩
    · rintro ⟨⟨-, rfl⟩, hmax⟩
      exact ⟨hmax, rfl⟩

/-- Digits are read as what they denote. -/
theorem readAs_digits (hne : arg ≠ []) (hdigits : ∀ c ∈ arg, c.isDigit = true) :
    ReadAs arg v ↔ Nat.ofDigitChars 10 arg 0 = v ∧ v < Word.size 64 := by
  unfold ReadAs
  rw [strtoull_whole]
  constructor
  · rintro (⟨hnil, -⟩ | ⟨blanks, sign, digits, h, hlt, rfl⟩)
    · contradiction
    · obtain ⟨hblanks, hsign⟩ := h.eq_nil hdigits
      have htext := h.spelled
      rw [hblanks, hsign] at htext
      rw [htext, hsign]
      exact ⟨rfl, hlt⟩
  · rintro ⟨rfl, hlt⟩
    exact .inr ⟨[], [], arg, numeral_digits hne hdigits, hlt, rfl⟩

/-- The strict options take digits that fit. -/
theorem strictOption_iff {message : String} :
    strictOption message arg = .ok v ↔ Microseconds arg v := by
  have hread : strictOption message arg = .ok v ↔
      (arg ≠ [] ∧ ∀ c ∈ arg, c.isDigit = true) ∧ ReadAs arg v ∧ v * 1000 < Word.size 64 := by
    rw [readAs_iff, ← le_maxWorkUs, ← unspelled_eq_false]
    simp only [strictOption, check_eq_ok, Bool.or_eq_true, decide_eq_true_eq, not_or,
      Nat.not_lt, Bool.not_eq_true]
    constructor
    · rintro ⟨⟨⟨hspelled, hbad⟩, hmax⟩, rfl⟩
      exact ⟨hspelled, ⟨hbad, rfl⟩, hmax⟩
    · rintro ⟨hspelled, ⟨hbad, rfl⟩, hmax⟩
      exact ⟨⟨⟨hspelled, hbad⟩, hmax⟩, rfl⟩
  rw [hread]
  constructor
  · rintro ⟨⟨hne, hdigits⟩, hreads, hfits⟩
    exact ⟨hne, hdigits, ((readAs_digits hne hdigits).mp hreads).1, hfits⟩
  · rintro ⟨hne, hdigits, hvalue, hfits⟩
    exact ⟨⟨hne, hdigits⟩, (readAs_digits hne hdigits).mpr ⟨hvalue, by omega⟩, hfits⟩

/-- What each option takes. -/
theorem parse_iff : ∀ {o : MicrosecondOption}, o.parse arg = .ok v ↔ match o with
    | .imuWork | .lidarPreBudget => Microseconds arg v
    | .visionBudget | .visionDeadline => ReadAs arg v ∧ v * 1000 < Word.size 64
    | .visionWork => ReadAs arg v
  | .imuWork | .lidarPreBudget => strictOption_iff
  | .visionBudget => visionBudgetOption_iff
  | .visionDeadline => visionDeadlineOption_iff
  | .visionWork => visionWorkOption_iff

/-- What a `Config` holds of the four options that check the range. -/
theorem parse_fits (ho : o ≠ .visionWork) (h : o.parse arg = .ok v) : v * 1000 < Word.size 64 := by
  have hiff := parse_iff.mp h
  cases o with
  | imuWork | lidarPreBudget => exact hiff.fits
  | visionBudget | visionDeadline => exact hiff.2
  | visionWork => contradiction

/-- Digits that fit are read. -/
theorem Microseconds.readAs (h : Microseconds arg v) : ReadAs arg v := by
  have hfits := h.fits
  exact (readAs_digits h.nonempty h.digits).mpr ⟨h.value, by omega⟩

end Parse

/-! ## exactness -/

/-- An option takes a text exactly if it is digits that fit, as what they
denote, and the work is then no less than asked for. -/
structure Exact (o : MicrosecondOption) (arg : List Char) : Prop where
  takes : ∀ v, o.parse arg = .ok v ↔ Microseconds arg v
  converts : ∀ v, o.parse arg = .ok v → workNs v = v * 1000
  works : ∀ v, o.parse arg = .ok v →
    ∀ (cutoff : Nat) (w w' : WindowCpu) (first : Nat × Nat) (readings : List Sample) elapsed,
      (readings.map (·.cpuElapsed)).Pairwise (· ≤ ·) →
        measuredWorkUs cutoff v w first readings = some (elapsed, w') → v * 1000 ≤ elapsed

/-- The other texts an option takes: none at all, white space or a sign before
digits whose word passes the option's check of the range, and for
`--vision-work-us`, which has none, any word. -/
def Lax (o : MicrosecondOption) (arg : List Char) : Prop :=
  match o with
  | .imuWork | .lidarPreBudget => False
  | .visionBudget | .visionDeadline => arg = [] ∨
      ∃ blanks sign digits, Numeral arg blanks sign digits ∧ blanks ++ sign ≠ [] ∧
        Nat.ofDigitChars 10 digits 0 < Word.size 64 ∧
        signed 64 (decide (sign = ['-'])) (Nat.ofDigitChars 10 digits 0) * 1000 < Word.size 64
  | .visionWork => arg = [] ∨
      ∃ blanks sign digits, Numeral arg blanks sign digits ∧
        Nat.ofDigitChars 10 digits 0 < Word.size 64 ∧
        (blanks ++ sign ≠ [] ∨ Word.size 64 ≤ Nat.ofDigitChars 10 digits 0 * 1000)

section Exact

variable {arg : List Char} {o : MicrosecondOption}

/-- An option that takes digits that fit is exact. -/
theorem Exact.of_takes (h : ∀ v, o.parse arg = .ok v ↔ Microseconds arg v) : Exact o arg := by
  have hconverts : ∀ v, o.parse arg = .ok v → workNs v = v * 1000 :=
    fun v hv => Word.mul_of_lt ((h v).mp hv).fits
  refine ⟨h, hconverts, ?_⟩
  intro v hv cutoff w w' first readings elapsed hclock hwork
  rw [← hconverts v hv]
  exact le_measuredWorkUs hclock hwork

/-- A numeral of more than digits denotes no microseconds. -/
theorem Numeral.not_microseconds {blanks sign digits : List Char} {v : Nat}
    (h : Numeral arg blanks sign digits) (hne : blanks ++ sign ≠ []) : ¬ Microseconds arg v := by
  intro hv
  obtain ⟨rfl, rfl⟩ := h.eq_nil hv.digits
  exact hne rfl

/-- What is read to its end and is no microseconds: nothing, more than digits,
or digits that do not fit. -/
theorem misread_iff {P : Nat → Prop} :
    (∃ v, (ReadAs arg v ∧ P v) ∧ ¬ Microseconds arg v) ↔ arg = [] ∧ P 0 ∨
      ∃ blanks sign digits, Numeral arg blanks sign digits ∧
        Nat.ofDigitChars 10 digits 0 < Word.size 64 ∧
        P (signed 64 (decide (sign = ['-'])) (Nat.ofDigitChars 10 digits 0)) ∧
        (blanks ++ sign ≠ [] ∨ Word.size 64 ≤ Nat.ofDigitChars 10 digits 0 * 1000) := by
  constructor
  · rintro ⟨v, ⟨hread, hP⟩, hnot⟩
    obtain ⟨hnil, rfl⟩ | ⟨blanks, sign, digits, h, hlt, rfl⟩ := strtoull_whole.mp hread
    · exact .inl ⟨hnil, hP⟩
    · refine .inr ⟨blanks, sign, digits, h, hlt, hP, ?_⟩
      by_cases hmore : blanks ++ sign = []
      · obtain ⟨rfl, rfl⟩ := List.append_eq_nil_iff.mp hmore
        have htext : arg = digits := h.spelled
        subst htext
        refine .inr (Nat.le_of_not_lt fun hfits => hnot ?_)
        exact ⟨h.nonempty, h.digits, rfl, hfits⟩
      · exact .inl hmore
  · rintro (⟨rfl, hP⟩ | ⟨blanks, sign, digits, h, hlt, hP, hmore⟩)
    · exact ⟨0, ⟨rfl, hP⟩, fun hv => hv.nonempty rfl⟩
    · refine ⟨_, ⟨strtoull_whole.mpr (.inr ⟨blanks, sign, digits, h, hlt, rfl⟩), hP⟩, ?_⟩
      obtain hmore | hrange := hmore
      · exact Numeral.not_microseconds h hmore
      · intro hv
        obtain ⟨rfl, rfl⟩ := h.eq_nil hv.digits
        have htext : arg = digits := h.spelled
        have hvalue := hv.value
        have hfits := hv.fits
        rw [htext] at hvalue
        omega

/-- An option without the check of the spelling misreads what is left. -/
theorem exact_iff_not_misread {P : Nat → Prop}
    (hparse : ∀ v, o.parse arg = .ok v ↔ ReadAs arg v ∧ P v)
    (hP : ∀ v, v * 1000 < Word.size 64 → P v) :
    Exact o arg ↔ ¬ ∃ v, (ReadAs arg v ∧ P v) ∧ ¬ Microseconds arg v := by
  constructor
  · rintro h ⟨v, hread, hnot⟩
    exact hnot ((h.takes v).mp ((hparse v).mpr hread))
  · intro h
    refine .of_takes fun v => ⟨?_, ?_⟩
    · intro hv
      by_contra hnot
      exact h ⟨v, (hparse v).mp hv, hnot⟩
    · intro hv
      exact (hparse v).mpr ⟨hv.readAs, hP v hv.fits⟩

/-- The two options that check the range and not the spelling. -/
theorem misread_fits_iff : (∃ v, (ReadAs arg v ∧ v * 1000 < Word.size 64) ∧ ¬ Microseconds arg v) ↔
    arg = [] ∨ ∃ blanks sign digits, Numeral arg blanks sign digits ∧ blanks ++ sign ≠ [] ∧
      Nat.ofDigitChars 10 digits 0 < Word.size 64 ∧
      signed 64 (decide (sign = ['-'])) (Nat.ofDigitChars 10 digits 0) * 1000 < Word.size 64 := by
  rw [misread_iff]
  constructor
  · rintro (⟨hnil, -⟩ | ⟨blanks, sign, digits, h, hlt, hfits, hmore | hrange⟩)
    · exact .inl hnil
    · exact .inr ⟨blanks, sign, digits, h, hmore, hlt, hfits⟩
    · refine .inr ⟨blanks, sign, digits, h, ?_, hlt, hfits⟩
      intro hnil
      obtain ⟨rfl, rfl⟩ := List.append_eq_nil_iff.mp hnil
      exact absurd hfits (Nat.not_lt_of_le hrange)
  · rintro (hnil | ⟨blanks, sign, digits, h, hmore, hlt, hfits⟩)
    · exact .inl ⟨hnil, by decide⟩
    · exact .inr ⟨blanks, sign, digits, h, hlt, hfits, .inl hmore⟩

/-- **Microsecond options**: an option is exact on the texts it is not lax
about. -/
theorem microsecond_options_exact (o : MicrosecondOption) (arg : List Char) :
    Exact o arg ↔ ¬ Lax o arg := by
  cases o with
  | imuWork | lidarPreBudget => exact ⟨fun _ => id, fun _ => .of_takes fun v => parse_iff⟩
  | visionBudget | visionDeadline =>
      rw [exact_iff_not_misread (fun v => parse_iff) fun v hv => hv, misread_fits_iff]
      rfl
  | visionWork =>
      have hparse : ∀ v, MicrosecondOption.visionWork.parse arg = .ok v ↔ ReadAs arg v ∧ True :=
        fun v => parse_iff.trans (and_iff_left trivial).symm
      rw [exact_iff_not_misread hparse fun _ _ => trivial, misread_iff]
      simp [Lax]

/-- One microsecond more than fits, which `--vision-work-us` takes; its work
ends after 384 nanoseconds. -/
theorem microsecond_options_overrun : ¬ ∀ o arg, Exact o arg := by
  intro h
  have htaken : MicrosecondOption.visionWork.parse ['1', '8', '4', '4', '6', '7', '4', '4', '0',
      '7', '3', '7', '0', '9', '5', '5', '2'] = .ok 18446744073709552 := by decide
  have hfits := ((h _ _).takes _).mp htaken |>.fits
  revert hfits
  decide

end Exact

end ScxSlam.PipelineDemo
