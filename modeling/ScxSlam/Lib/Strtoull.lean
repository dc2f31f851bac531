import ScxSlam.Lib.Extract

/-!
# ScxSlam.Lib.Strtoull

`strtoull` in base ten, for words of `w` bits: leading white space is skipped,
a minus negates the word, too many digits are a range error, and without any
digit nothing is read at all.

`strtoull_whole` says which texts are read to their end, and as what.
-/

namespace Extract

/-- The value, whether `errno` is `ERANGE`, and what `end` points at. -/
structure Parsed where
  value : Nat
  range : Bool
  rest : List Char
  deriving DecidableEq, Repr

/-- `strtoull(text, &end, 10)`. -/
def strtoull (w : Nat) (text : List Char) : Parsed :=
  let (negative, number) := readSign (text.dropWhile isSpace)
  let digits := number.takeWhile Char.isDigit
  let value := Nat.ofDigitChars 10 digits 0
  if digits = [] then { value := 0, range := false, rest := text }
  else
    let rest := number.dropWhile Char.isDigit
    if Word.size w ≤ value then { value := Word.size w - 1, range := true, rest := rest }
    else { value := signed w negative value, range := false, rest := rest }

/-! ## whole texts -/

section Whole

variable {w v : Nat} {text blanks sign digits : List Char}

/-- A numeral is read to its end. -/
theorem Numeral.strtoull (h : Numeral text blanks sign digits)
    (hv : Nat.ofDigitChars 10 digits 0 < Word.size w) : Extract.strtoull w text =
      ⟨signed w (decide (sign = ['-'])) (Nat.ofDigitChars 10 digits 0), false, []⟩ := by
  have hskip : text.dropWhile isSpace = sign ++ digits ++ [] := by
    rw [h.spelled, ← List.append_nil (blanks ++ (sign ++ digits))]
    exact dropWhile_signed h.blanks h.sign h.digits h.signed_ne_nil
  have hread : readSign (sign ++ digits ++ []) = (decide (sign = ['-']), digits ++ []) :=
    readSign_signed h.sign h.digits h.signed_ne_nil
  rw [List.append_nil] at hskip
  rw [List.append_nil, List.append_nil] at hread
  have htake : digits.takeWhile Char.isDigit = digits := List.takeWhile_eq_self_iff.mpr h.digits
  have hdrop : digits.dropWhile Char.isDigit = [] := List.dropWhile_eq_nil_iff.mpr h.digits
  simp only [Extract.strtoull, hskip, hread, htake, hdrop, if_neg h.nonempty,
    if_neg (Nat.not_le_of_lt hv)]

/-- **Whole texts**: what `strtoull` reads to its end without a range error is
a numeral, or nothing at all. -/
theorem strtoull_whole : strtoull w text = ⟨v, false, []⟩ ↔ text = [] ∧ v = 0 ∨
    ∃ blanks sign digits, Numeral text blanks sign digits ∧
      Nat.ofDigitChars 10 digits 0 < Word.size w ∧
      v = signed w (decide (sign = ['-'])) (Nat.ofDigitChars 10 digits 0) := by
  constructor
  · intro h
    obtain ⟨sign, hsign, hsigns, hnegative⟩ := readSign_eq (text.dropWhile isSpace)
    unfold strtoull at h
    generalize readSign (text.dropWhile isSpace) = read at h hsign hnegative
    obtain ⟨negative, number⟩ := read
    dsimp only at h hsign hnegative
    have hnumber := List.takeWhile_append_dropWhile (p := Char.isDigit) (l := number)
    split at h
    · cases h
      exact .inl ⟨rfl, rfl⟩
    · next hne =>
      split at h
      · cases h
      · next hrange =>
        obtain ⟨rfl, hrest⟩ := (Parsed.mk.injEq ..).mp h |>.imp id And.right
        rw [hrest, List.append_nil] at hnumber
        refine .inr ⟨text.takeWhile isSpace, sign, number.takeWhile Char.isDigit, ?_,
          Nat.lt_of_not_le hrange, by rw [hnegative]⟩
        constructor
        case spelled =>
            rw [hnumber, ← hsign]
            exact List.takeWhile_append_dropWhile.symm
        case blanks => exact fun c hc => List.mem_takeWhile_imp hc
        case sign => exact hsigns
        case nonempty => exact hne
        case digits => exact fun c hc => List.mem_takeWhile_imp hc
  · rintro (⟨rfl, rfl⟩ | ⟨blanks, sign, digits, h, hv, rfl⟩)
    · rfl
    · exact h.strtoull hv

end Whole

end Extract
