import Mathlib.Data.List.TakeWhile
import ScxSlam.Lib.Word

/-!
# ScxSlam.Lib.Extract

Formatted extraction of unsigned words from a character stream, as `operator>>`
of the C++ library does it in the classic locale: leading white space is
skipped, a sign and digits are read, and the stream remembers whether it has
met its end or a word it could not read.

`extract_decimal` is the rule for text that was printed: a printed word is
read back, and the rest of the stream is left alone.
-/

namespace Extract

/-- A character stream: what is left to read, `eofbit`, and `failbit`. -/
structure Stream where
  rest : List Char
  eof : Bool := false
  fail : Bool := false
  deriving DecidableEq, Repr

/-- `isspace`. -/
def isSpace (c : Char) : Bool := c = ' ' ∨ 9 ≤ c.toNat ∧ c.toNat ≤ 13

/-- An optional sign: whether it is a minus, and what follows it. -/
def readSign : List Char → Bool × List Char
  | '-' :: text => (true, text)
  | '+' :: text => (false, text)
  | text => (false, text)

/-- `input >> x` for a word of `w` bits; `none` where it fails. -/
def extract (w : Nat) (s : Stream) : Option Nat × Stream :=
  if s.eof || s.fail then (none, { s with fail := true })
  else
    match s.rest.dropWhile isSpace with
    | [] => (none, { rest := [], eof := true, fail := true })
    | text =>
        let (negative, text) := readSign text
        let digits := text.takeWhile Char.isDigit
        let rest := text.dropWhile Char.isDigit
        let value := Nat.ofDigitChars 10 digits 0
        let s := { rest := rest, eof := rest.isEmpty }
        if digits = [] ∨ Word.size w ≤ value then (none, { s with fail := true })
        else (some (if negative then Word.sub w 0 value else value), s)

/-- The characters of a natural. -/
def decimal (n : Nat) : List Char := Nat.toDigits 10 n

variable {w n : Nat} {text : List Char}

/-- A printed number is made of digits. -/
theorem isDigit_of_mem_decimal {c : Char} (h : c ∈ decimal n) : c.isDigit = true :=
  Nat.isDigit_of_mem_toDigits (by decide) (by decide) h

/-- The digits of a printed number stand for it. -/
theorem ofDigitChars_decimal : Nat.ofDigitChars 10 (decimal n) 0 = n :=
  Nat.ofDigitChars_ten_toDigits

/-- No digit is white space. -/
theorem isSpace_of_isDigit {c : Char} (h : c.isDigit = true) : isSpace c = false := by
  have hle : 48 ≤ c.toNat := by
    simp only [Char.isDigit, Bool.and_eq_true, decide_eq_true_eq] at h
    exact h.1
  have hne : c ≠ ' ' := fun hc => by simp [hc] at hle
  simp [isSpace, hne]
  omega

/-- Digits carry no sign. -/
theorem readSign_of_isDigit {c : Char} (h : c.isDigit = true) :
    readSign (c :: text) = (false, c :: text) := by
  unfold readSign
  split
  case h_1 heq =>
      cases heq
      contradiction
  case h_2 heq =>
      cases heq
      contradiction
  case h_3 => rfl

/-- White space up to the end of the stream holds no word. -/
theorem extract_space {space : List Char} (hspace : ∀ c ∈ space, isSpace c = true) :
    extract w { rest := space } = (none, { rest := [], eof := true, fail := true }) := by
  have hskip : space.dropWhile isSpace = [] := by
    rw [List.dropWhile_eq_nil_iff]
    exact hspace
  simp [extract, hskip]

/-- Reading a sign takes one character at most. -/
theorem length_readSign_le (text : List Char) : (readSign text).2.length ≤ text.length := by
  unfold readSign
  split <;> simp

/-- Extraction consumes what it reads. -/
theorem length_extract {s s' : Stream} {v : Nat} (h : extract w s = (some v, s')) :
    s'.rest.length < s.rest.length := by
  unfold extract at h
  split at h
  · simp at h
  · split at h
    · simp at h
    · dsimp only at h
      split at h
      · simp at h
      · next hok =>
        obtain ⟨-, rfl⟩ := Prod.mk.inj h
        generalize hskip : s.rest.dropWhile isSpace = skipped at hok ⊢
        have hle : skipped.length ≤ s.rest.length :=
          hskip ▸ (List.dropWhile_suffix isSpace).length_le
        have hsign := length_readSign_le skipped
        generalize (readSign skipped).2 = number at hok hsign ⊢
        have hsplit := congrArg List.length
          (List.takeWhile_append_dropWhile (p := Char.isDigit) (l := number))
        rw [List.length_append] at hsplit
        have hpos : 0 < (number.takeWhile Char.isDigit).length :=
          List.length_pos_iff.mpr fun hnil => hok (.inl hnil)
        dsimp only
        omega

/-! ## numerals -/

/-- A word with its sign. -/
def signed (w : Nat) (negative : Bool) (value : Nat) : Nat :=
  if negative then Word.sub w 0 value else value

/-- A text is a numeral: white space, a sign and digits. -/
structure Numeral (text blanks sign digits : List Char) : Prop where
  spelled : text = blanks ++ (sign ++ digits)
  blanks : ∀ c ∈ blanks, isSpace c = true
  sign : sign = [] ∨ sign = ['+'] ∨ sign = ['-']
  nonempty : digits ≠ []
  digits : ∀ c ∈ digits, c.isDigit = true

section Numeral

variable {w v : Nat} {text blanks sign digits rest : List Char}

/-- What a sign is. -/
theorem readSign_eq (text : List Char) : ∃ sign, text = sign ++ (readSign text).2 ∧
    (sign = [] ∨ sign = ['+'] ∨ sign = ['-']) ∧
      (readSign text).1 = decide (sign = ['-']) := by
  unfold readSign
  split
  · exact ⟨['-'], rfl, .inr (.inr rfl), rfl⟩
  · exact ⟨['+'], rfl, .inr (.inl rfl), rfl⟩
  · exact ⟨[], rfl, .inl rfl, rfl⟩

/-- A sign or a digit ends the white space. -/
theorem dropWhile_signed (hblanks : ∀ c ∈ blanks, isSpace c = true)
    (hsign : sign = [] ∨ sign = ['+'] ∨ sign = ['-']) (hdigits : ∀ c ∈ digits, c.isDigit = true)
    (hne : sign ++ digits ≠ []) :
    (blanks ++ (sign ++ digits) ++ rest).dropWhile isSpace = sign ++ digits ++ rest := by
  rw [List.append_assoc, List.dropWhile_append_of_pos hblanks]
  obtain rfl | rfl | rfl := hsign
  · obtain ⟨d, ds, rfl⟩ := List.exists_cons_of_ne_nil hne
    have hd : d.isDigit = true := hdigits d List.mem_cons_self
    exact List.dropWhile_cons_of_neg (by simp [isSpace_of_isDigit hd])
  · exact List.dropWhile_cons_of_neg (by decide)
  · exact List.dropWhile_cons_of_neg (by decide)

/-- The sign is read, and the digits after it. -/
theorem readSign_signed (hsign : sign = [] ∨ sign = ['+'] ∨ sign = ['-'])
    (hdigits : ∀ c ∈ digits, c.isDigit = true) (hne : sign ++ digits ≠ []) :
    readSign (sign ++ digits ++ rest) = (decide (sign = ['-']), digits ++ rest) := by
  obtain rfl | rfl | rfl := hsign
  · obtain ⟨d, ds, rfl⟩ := List.exists_cons_of_ne_nil hne
    exact readSign_of_isDigit (hdigits d List.mem_cons_self)
  · rfl
  · rfl

/-- A numeral is not empty. -/
theorem Numeral.signed_ne_nil (h : Numeral text blanks sign digits) : sign ++ digits ≠ [] :=
  fun hnil => h.nonempty (List.append_eq_nil_iff.mp hnil).2

/-- Digits alone are a numeral. -/
theorem numeral_digits (hne : digits ≠ []) (hdigits : ∀ c ∈ digits, c.isDigit = true) :
    Numeral digits [] [] digits :=
  ⟨rfl, nofun, .inl rfl, hne, hdigits⟩

/-- White space and signs are no digits. -/
theorem Numeral.eq_nil (h : Numeral text blanks sign digits)
    (hdigits : ∀ c ∈ text, c.isDigit = true) : blanks = [] ∧ sign = [] := by
  rw [h.spelled] at hdigits
  constructor
  · refine List.eq_nil_iff_forall_not_mem.mpr fun c hc => ?_
    have hspace := isSpace_of_isDigit (hdigits c (List.mem_append_left _ hc))
    rw [h.blanks c hc] at hspace
    cases hspace
  · obtain hsign | hsign | hsign := h.sign
    · exact hsign
    · have hplus := hdigits '+' (by simp [hsign])
      contradiction
    · have hminus := hdigits '-' (by simp [hsign])
      contradiction

end Numeral

/-! ## what an extraction reads -/

/-- The digits end here. -/
def Stops (rest : List Char) : Prop := ∀ c ∈ rest.head?, c.isDigit = false

/-- A numeral at the front of a text, its word, and what follows. -/
structure Reading (w : Nat) (text blanks sign digits rest : List Char) (v : Nat) : Prop where
  spelled : text = blanks ++ (sign ++ digits) ++ rest
  numeral : Numeral (blanks ++ (sign ++ digits)) blanks sign digits
  fits : Nat.ofDigitChars 10 digits 0 < Word.size w
  word : v = signed w (decide (sign = ['-'])) (Nat.ofDigitChars 10 digits 0)
  stops : Stops rest

/-- White space, a sign and digits up to the end, with no digits or too many. -/
structure Spent (w : Nat) (text blanks sign digits : List Char) : Prop where
  spelled : text = blanks ++ (sign ++ digits)
  blanks : ∀ c ∈ blanks, isSpace c = true
  sign : sign = [] ∨ sign = ['+'] ∨ sign = ['-']
  unread : digits = [] ∨ Word.size w ≤ Nat.ofDigitChars 10 digits 0
  digits : ∀ c ∈ digits, c.isDigit = true

section Reading

variable {w v : Nat} {text blanks sign digits rest : List Char} {s s' : Stream}

/-- Digits stop in front of anything else. -/
theorem stops_cons {c : Char} (hc : c.isDigit = false) : Stops (c :: rest) := by
  intro c' hc'
  cases hc'
  exact hc

/-- Digits stop where they have been dropped. -/
theorem stops_dropWhile (text : List Char) : Stops (text.dropWhile Char.isDigit) := by
  intro c hc
  have hhead := List.head?_dropWhile_not Char.isDigit text
  rw [Option.mem_def] at hc
  rw [hc] at hhead
  simpa using hhead

/-- All digits are taken, and no more. -/
theorem Stops.takeWhile (h : Stops rest) (hdigits : ∀ c ∈ digits, c.isDigit = true) :
    (digits ++ rest).takeWhile Char.isDigit = digits ∧
      (digits ++ rest).dropWhile Char.isDigit = rest := by
  rw [List.takeWhile_append_of_pos hdigits, List.dropWhile_append_of_pos hdigits]
  cases rest with
  | nil => exact ⟨List.append_nil digits, rfl⟩
  | cons c rest =>
      have hc : ¬ c.isDigit = true := by
        rw [h c rfl]
        decide
      rw [List.takeWhile_cons_of_neg hc, List.dropWhile_cons_of_neg hc, List.append_nil]
      exact ⟨rfl, rfl⟩

/-- Behind the white space and the sign of a good stream. -/
theorem extract_number {negative : Bool} {number : List Char}
    (hbody : text.dropWhile isSpace ≠ [])
    (hread : readSign (text.dropWhile isSpace) = (negative, number)) :
    extract w { rest := text } =
      let digits := number.takeWhile Char.isDigit
      let rest := number.dropWhile Char.isDigit
      if digits = [] ∨ Word.size w ≤ Nat.ofDigitChars 10 digits 0 then
        (none, { rest := rest, eof := rest.isEmpty, fail := true })
      else (some (signed w negative (Nat.ofDigitChars 10 digits 0)),
        { rest := rest, eof := rest.isEmpty }) := by
  unfold extract
  rw [if_neg (by simp)]
  split
  · next heq => exact absurd heq hbody
  · rw [hread]
    rfl

/-- A good stream gives the word of the numeral in front. -/
theorem Reading.extract (h : Reading w text blanks sign digits rest v) :
    Extract.extract w { rest := text } = (some v, { rest := rest, eof := rest.isEmpty }) := by
  have hne := h.numeral.signed_ne_nil
  have hskip : text.dropWhile isSpace = sign ++ digits ++ rest := by
    rw [h.spelled]
    exact dropWhile_signed h.numeral.blanks h.numeral.sign h.numeral.digits hne
  have hread : readSign (text.dropWhile isSpace) = (decide (sign = ['-']), digits ++ rest) := by
    rw [hskip]
    exact readSign_signed h.numeral.sign h.numeral.digits hne
  have hbody : text.dropWhile isSpace ≠ [] := by
    rw [hskip]
    exact fun hnil => hne (List.append_eq_nil_iff.mp hnil).1
  obtain ⟨htake, hdrop⟩ := h.stops.takeWhile h.numeral.digits
  rw [extract_number hbody hread, htake, hdrop, h.word]
  exact if_neg (not_or.mpr ⟨h.numeral.nonempty, Nat.not_le_of_lt h.fits⟩)

/-- **Round trip**: a printed word is read back, up to the character that ends
it. -/
theorem extract_decimal {n : Nat} {space : List Char} {c : Char}
    (hspace : ∀ c ∈ space, isSpace c = true) (hc : c.isDigit = false) (hn : n < Word.size w) :
    Extract.extract w { rest := space ++ decimal n ++ c :: text } =
      (some n, { rest := c :: text }) := by
  have hvalue : Nat.ofDigitChars 10 (decimal n) 0 = n := ofDigitChars_decimal
  have hreading : Reading w (space ++ decimal n ++ c :: text) space [] (decimal n) (c :: text) n :=
    { spelled := rfl
      numeral := ⟨rfl, hspace, .inl rfl, Nat.toDigits_ne_nil, fun _ hx => isDigit_of_mem_decimal hx⟩
      fits := by rwa [hvalue]
      word := hvalue.symm
      stops := stops_cons hc }
  exact hreading.extract

/-- A spent stream gives nothing, and has met its end. -/
theorem Spent.extract (h : Spent w text blanks sign digits) :
    (Extract.extract w { rest := text }).1 = none ∧
      (Extract.extract w { rest := text }).2.eof = true := by
  by_cases hne : sign ++ digits = []
  · have htext := h.spelled
    rw [hne, List.append_nil] at htext
    rw [htext, extract_space h.blanks]
    exact ⟨rfl, rfl⟩
  · have hskip : text.dropWhile isSpace = sign ++ digits ++ [] := by
      rw [h.spelled, ← List.append_nil (blanks ++ (sign ++ digits))]
      exact dropWhile_signed h.blanks h.sign h.digits hne
    have hread : readSign (text.dropWhile isSpace) = (decide (sign = ['-']), digits ++ []) := by
      rw [hskip]
      exact readSign_signed h.sign h.digits hne
    have hbody : text.dropWhile isSpace ≠ [] := by
      rw [hskip, List.append_nil]
      exact hne
    have hnil : Stops [] := nofun
    obtain ⟨htake, hdrop⟩ := hnil.takeWhile h.digits
    rw [extract_number hbody hread, htake, hdrop]
    dsimp only
    rw [if_pos h.unread]
    exact ⟨rfl, rfl⟩

/-- **Extraction**: a good stream has a numeral in front, or it is spent, or
nothing can be read and its end is not met. -/
theorem extract_cases (w : Nat) (text : List Char) :
    (∃ blanks sign digits rest v, Reading w text blanks sign digits rest v) ∨
    (∃ blanks sign digits, Spent w text blanks sign digits) ∨
    (Extract.extract w { rest := text }).1 = none ∧
      (Extract.extract w { rest := text }).2.eof = false := by
  obtain ⟨sign, hsign, hsigns, hnegative⟩ := readSign_eq (text.dropWhile isSpace)
  generalize hread : readSign (text.dropWhile isSpace) = read at hsign hnegative
  obtain ⟨negative, number⟩ := read
  have hspelled : text = text.takeWhile isSpace ++ (sign ++ number.takeWhile Char.isDigit) ++
      number.dropWhile Char.isDigit := by
    rw [List.append_assoc, List.append_assoc, List.takeWhile_append_dropWhile, ← hsign,
      List.takeWhile_append_dropWhile]
  have hblanks : ∀ c ∈ text.takeWhile isSpace, isSpace c = true :=
    fun c hc => List.mem_takeWhile_imp hc
  have hdigits : ∀ c ∈ number.takeWhile Char.isDigit, c.isDigit = true :=
    fun c hc => List.mem_takeWhile_imp hc
  by_cases hunread : number.takeWhile Char.isDigit = [] ∨
      Word.size w ≤ Nat.ofDigitChars 10 (number.takeWhile Char.isDigit) 0
  · refine .inr ?_
    by_cases hend : number.dropWhile Char.isDigit = []
    · rw [hend, List.append_nil] at hspelled
      exact .inl ⟨_, _, _, hspelled, hblanks, hsigns, hunread, hdigits⟩
    · have hbody : text.dropWhile isSpace ≠ [] := by
        intro hnil
        rw [hnil] at hsign
        have hnumber : number = [] := (List.append_eq_nil_iff.mp hsign.symm).2
        rw [hnumber] at hend
        exact hend rfl
      rw [extract_number hbody hread]
      dsimp only
      rw [if_pos hunread]
      exact .inr ⟨rfl, by simpa using hend⟩
  · obtain ⟨hne, hfits⟩ := not_or.mp hunread
    exact .inl ⟨_, _, _, _, _, hspelled, ⟨rfl, hblanks, hsigns, hne, hdigits⟩,
      Nat.lt_of_not_le hfits, rfl, stops_dropWhile number⟩

end Reading

end Extract
