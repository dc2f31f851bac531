import Mathlib.Data.List.DropRight
import ScxSlam.Lib.Dictionary
import ScxSlam.Lib.Extract

/-!
# ScxSlam.Lib.Python

What Python makes of a text: `splitlines`, `split`, `split(sep)` and `int`, with
the digits and the white space of Unicode; and `min` with a key.

Each function has a rule for text that was printed: lines are read back from
lines, words from words with blanks between them, and numbers from their
decimals.
-/

namespace Python

/-- A text. -/
abbrev Text := List Char

/-- What is raised. -/
inductive Raised
  | csvError
  | keyError (key : Text)
  | valueError
  | typeError
  | attributeError
  | stopIteration
  | runtimeError (message : String)
  deriving DecidableEq, Repr

/-! ## numbers -/

/-- `str.isspace` for a character. -/
def isSpace (c : Char) : Bool :=
  let n := c.toNat
  (9 ≤ n ∧ n ≤ 13) ∨ (28 ≤ n ∧ n ≤ 32) ∨ (0x2000 ≤ n ∧ n ≤ 0x200a) ∨
    n ∈ [0x85, 0xa0, 0x1680, 0x2028, 0x2029, 0x202f, 0x205f, 0x3000]

/-- White space around a numeral; `int` refuses the separators of ASCII, which
`str.isspace` counts as white space. -/
def isBlank (c : Char) : Bool := isSpace c && !decide (28 ≤ c.toNat ∧ c.toNat ≤ 31)

/-- The zeros of the digits beyond ASCII in Unicode 15; nine digits follow each. -/
def zeros : List Nat :=
  [0x660, 0x6f0, 0x7c0, 0x966, 0x9e6, 0xa66, 0xae6, 0xb66, 0xbe6, 0xc66, 0xce6, 0xd66, 0xde6,
    0xe50, 0xed0, 0xf20, 0x1040, 0x1090, 0x17e0, 0x1810, 0x1946, 0x19d0, 0x1a80, 0x1a90, 0x1b50,
    0x1bb0, 0x1c40, 0x1c50, 0xa620, 0xa8d0, 0xa900, 0xa9d0, 0xa9f0, 0xaa50, 0xabf0, 0xff10,
    0x104a0, 0x10d30, 0x11066, 0x110f0, 0x11136, 0x111d0, 0x112f0, 0x11450, 0x114d0, 0x11650,
    0x116c0, 0x11730, 0x118e0, 0x11950, 0x11c50, 0x11d50, 0x11da0, 0x11f50, 0x16a60, 0x16ac0,
    0x16b50, 0x1d7ce, 0x1d7d8, 0x1d7e2, 0x1d7ec, 0x1d7f6, 0x1e140, 0x1e2f0, 0x1e4f0, 0x1e950,
    0x1fbf0]

/-- `unicodedata.decimal`; `none` where a character is no decimal digit. -/
def digit? (c : Char) : Option Nat :=
  if c.isDigit then some (c.toNat - '0'.toNat)
  else if c.toNat < 128 then none
  else (zeros.find? fun z => z ≤ c.toNat ∧ c.toNat < z + 10).map (c.toNat - ·)

/-- `str.isdecimal` for a character, and `\d`. -/
def isDecimal (c : Char) : Bool := (digit? c).isSome

/-- The number that digits stand for. -/
def value (digits : Text) : Nat := digits.foldl (fun n c => 10 * n + (digit? c).getD 0) 0

/-- The digits of a numeral without the single underscores between them;
`after` is whether a digit stands in front. -/
def ungroup (after : Bool) : Text → Option Text
  | [] => if after then some [] else none
  | c :: text =>
      if isDecimal c then (ungroup true text).map (c :: ·)
      else if c = '_' ∧ after then ungroup false text
      else none

/-- `int`, without the limit that newer interpreters put on the number of digits. -/
def int? (text : Text) : Option Int :=
  let (negative, number) := Extract.readSign ((text.dropWhile isBlank).rdropWhile isBlank)
  (ungroup false number).map fun digits => if negative then -(value digits : Int) else value digits

/-- What is printed of an integer. -/
def shown : Int → Text
  | .ofNat n => Extract.decimal n
  | .negSucc n => '-' :: Extract.decimal (n + 1)

section Numbers

variable {c : Char} {text : Text} {n : Nat} {i : Int}

/-- No digit is white space. -/
theorem isSpace_of_isDigit (h : c.isDigit = true) : isSpace c = false := by
  simp only [Char.isDigit, Bool.and_eq_true, decide_eq_true_eq] at h
  have hlo : 48 ≤ c.toNat := h.1
  have hhi : c.toNat ≤ 57 := h.2
  simp [isSpace]
  omega

/-- What is no white space is not stripped. -/
theorem isBlank_of_isSpace (h : isSpace c = false) : isBlank c = false := by
  rw [isBlank, h, Bool.false_and]

/-- The value of an ASCII digit. -/
theorem digit?_of_isDigit (h : c.isDigit = true) : digit? c = some (c.toNat - '0'.toNat) :=
  if_pos h

/-- The ASCII digits are decimals. -/
theorem isDecimal_of_isDigit (h : c.isDigit = true) : isDecimal c = true := by
  rw [isDecimal, digit?_of_isDigit h, Option.isSome_some]

/-- White space is no digit. -/
theorem isDecimal_of_isSpace (h : isSpace c = true) : isDecimal c = false := by
  have hdigit : c.isDigit = false := by
    by_contra hnot
    rw [isSpace_of_isDigit (by simpa using hnot)] at h
    contradiction
  rw [isDecimal, digit?, if_neg (by rw [hdigit]; exact Bool.false_ne_true)]
  split
  · rfl
  · have hnone : zeros.find? (fun z => z ≤ c.toNat ∧ c.toNat < z + 10) = none := by
      refine List.find?_eq_none.mpr ?_
      simp [isSpace] at h
      simp [zeros]
      omega
    rw [hnone]
    rfl

/-- ASCII digits read as they do elsewhere. -/
theorem value_of_isDigit (h : ∀ c ∈ text, c.isDigit = true) :
    value text = Nat.ofDigitChars 10 text 0 := by
  rw [value, Nat.ofDigitChars_eq_foldl]
  refine List.foldl_ext _ _ _ fun n c hc => ?_
  rw [digit?_of_isDigit (h c hc), Option.getD_some]

/-- A printed number stands for itself. -/
theorem value_decimal (n : Nat) : value (Extract.decimal n) = n :=
  (value_of_isDigit fun _ => Extract.isDigit_of_mem_decimal).trans Extract.ofDigitChars_decimal

/-- A printed number has a digit. -/
theorem decimal_ne_nil (n : Nat) : Extract.decimal n ≠ [] := by
  unfold Extract.decimal
  rw [Nat.toDigits_eq_if (by decide)]
  split <;> simp

/-- Text without white space at its ends. -/
theorem strip_eq (h : ∀ c ∈ text, isSpace c = false) :
    (text.dropWhile isBlank).rdropWhile isBlank = text := by
  have hblank : ∀ c ∈ text, isBlank c = false := fun c hc => isBlank_of_isSpace (h c hc)
  have hleft : text.dropWhile isBlank = text := by
    cases text with
    | nil => rfl
    | cons c text => rw [List.dropWhile_cons_of_neg (by simp [hblank c List.mem_cons_self])]
  rw [hleft, List.rdropWhile_eq_self_iff]
  intro hne
  simp [hblank _ (List.getLast_mem hne)]

/-- Digits alone have no separator to lose. -/
theorem ungroup_digits (after : Bool) (h : ∀ c ∈ text, c.isDigit = true)
    (hne : text ≠ [] ∨ after = true) : ungroup after text = some text := by
  induction text generalizing after with
  | nil =>
      rw [ungroup, if_pos (hne.resolve_left (by simp))]
  | cons c text ih =>
      rw [ungroup, if_pos (isDecimal_of_isDigit (h c List.mem_cons_self)),
        ih true (fun c hc => h c (List.mem_cons_of_mem _ hc)) (.inr rfl), Option.map_some]

/-- A printed number is read back. -/
theorem int?_decimal (n : Nat) : int? (Extract.decimal n) = some (n : Int) := by
  have hdigits : ∀ c ∈ Extract.decimal n, c.isDigit = true :=
    fun _ => Extract.isDigit_of_mem_decimal
  have hstrip := strip_eq fun c hc => isSpace_of_isDigit (hdigits c hc)
  obtain ⟨c, text, htext⟩ := List.exists_cons_of_ne_nil (decimal_ne_nil n)
  have hsign : Extract.readSign (Extract.decimal n) = (false, Extract.decimal n) := by
    rw [htext]
    exact Extract.readSign_of_isDigit (hdigits c (by rw [htext]; exact List.mem_cons_self))
  unfold int?
  rw [hstrip, hsign]
  dsimp only
  rw [ungroup_digits false hdigits (.inl (decimal_ne_nil n)), Option.map_some, value_decimal]
  rfl

/-- A printed number is read back. -/
theorem int?_shown (i : Int) : int? (shown i) = some i := by
  cases i with
  | ofNat n => exact int?_decimal n
  | negSucc n =>
      have hdigits : ∀ c ∈ Extract.decimal (n + 1), c.isDigit = true := fun _ =>
        Extract.isDigit_of_mem_decimal
      have hclear : ∀ c ∈ '-' :: Extract.decimal (n + 1), isSpace c = false := by
        intro c hc
        obtain rfl | hc := List.mem_cons.mp hc
        · rfl
        · exact isSpace_of_isDigit (hdigits c hc)
      have hsign : Extract.readSign ('-' :: Extract.decimal (n + 1)) =
          (true, Extract.decimal (n + 1)) := rfl
      unfold int? shown
      rw [strip_eq hclear, hsign]
      dsimp only
      rw [ungroup_digits false hdigits (.inl (decimal_ne_nil _)), Option.map_some, value_decimal]
      rfl

example : int? "-٤_2 ".toList = some (-42) := by decide

end Numbers

/-! ## lines -/

/-- A line boundary of `splitlines`. -/
def isBreak (c : Char) : Bool :=
  c.toNat ∈ [10, 11, 12, 13, 28, 29, 30, 0x85, 0x2028, 0x2029]

/-- `splitlines`, the line begun so far in front of it. -/
def linesFrom (line : Text) : Text → List Text
  | [] => if line = [] then [] else [line]
  | '\r' :: '\n' :: text => line :: linesFrom [] text
  | c :: text => if isBreak c then line :: linesFrom [] text else linesFrom (line ++ [c]) text

/-- `splitlines`. -/
def lines (text : Text) : List Text := linesFrom [] text

/-- Lines as they are printed. -/
def unlines (ls : List Text) : Text := ls.flatMap (· ++ ['\n'])

section Lines

variable {line rest : Text} {ls : List Text}

/-- A line ends at its line feed. -/
theorem linesFrom_line (start : Text) (hline : ∀ c ∈ line, isBreak c = false) :
    linesFrom start (line ++ '\n' :: rest) = (start ++ line) :: linesFrom [] rest := by
  induction line generalizing start with
  | nil =>
      rw [List.nil_append, List.append_nil, linesFrom]
      · rfl
      · simp
  | cons c line ih =>
      have hc : isBreak c = false := hline c List.mem_cons_self
      have hcr : c ≠ '\r' := fun h => by simp [h, isBreak] at hc
      rw [List.cons_append, linesFrom]
      · rw [hc, if_neg Bool.false_ne_true, ih _ fun c h => hline c (List.mem_cons_of_mem _ h),
          List.append_assoc, List.singleton_append]
      · intro text h
        cases h
        exact absurd rfl hcr

/-- Printed lines are read back. -/
theorem lines_unlines (h : ∀ line ∈ ls, ∀ c ∈ line, isBreak c = false) :
    lines (unlines ls) = ls := by
  induction ls with
  | nil => rfl
  | cons line ls ih =>
      unfold lines unlines at *
      rw [List.flatMap_cons, List.append_assoc, List.singleton_append,
        linesFrom_line [] (h line List.mem_cons_self), List.nil_append,
        ih fun l hl => h l (List.mem_cons_of_mem _ hl)]

end Lines

/-! ## words -/

/-- `split`. -/
def words (text : Text) : List Text := (text.splitOnP isSpace).filter (· ≠ [])

/-- `split(sep, 1)`. -/
def cut (sep : Char) (text : Text) : List Text :=
  match text.dropWhile (· ≠ sep) with
  | [] => [text]
  | _ :: rest => [text.takeWhile (· ≠ sep), rest]

/-- Words with a blank between them. -/
def unwords : List Text → Text
  | [] => []
  | [w] => w
  | w :: ws => w ++ ' ' :: unwords ws

section Words

variable {word rest : Text} {ws : List Text} {sep : Char}

/-- A word ends at its blank. -/
theorem words_word (hne : word ≠ []) (hword : ∀ c ∈ word, isSpace c = false) :
    words (word ++ ' ' :: rest) = word :: words rest := by
  have hspace : isSpace ' ' = true := rfl
  rw [words, List.splitOnP_append_cons word rest hspace, List.splitOnP_eq_singleton hword,
    List.filter_append]
  simp [hne, words]

/-- Printed words are read back. -/
theorem words_unwords (h : ∀ w ∈ ws, w ≠ [] ∧ ∀ c ∈ w, isSpace c = false) :
    words (unwords ws) = ws := by
  induction ws with
  | nil => rfl
  | cons w ws ih =>
      obtain ⟨hne, hword⟩ := h w List.mem_cons_self
      have hrest := ih fun w hw => h w (List.mem_cons_of_mem _ hw)
      cases ws with
      | nil =>
          rw [unwords, words, List.splitOnP_eq_singleton hword]
          simp [hne]
      | cons w' ws => rw [unwords, words_word hne hword, hrest]; simp

/-- A word without the separator is cut off at the first one. -/
theorem cut_append (h : sep ∉ word) : cut sep (word ++ sep :: rest) = [word, rest] := by
  have htake : ∀ c ∈ word, decide (c ≠ sep) = true := by
    intro c hc
    exact decide_eq_true fun hcs => h (hcs ▸ hc)
  rw [cut, List.dropWhile_append_of_pos htake, List.dropWhile_cons_of_neg (by simp)]
  dsimp only
  rw [List.takeWhile_append_of_pos htake, List.takeWhile_cons_of_neg (by simp), List.append_nil]

/-- `split(sep)`. -/
def parts (sep : Char) (text : Text) : List Text := text.splitOnP (· == sep)

/-- Two words without the separator are the parts of their line. -/
theorem parts_append (h : sep ∉ word) (h' : sep ∉ rest) :
    parts sep (word ++ sep :: rest) = [word, rest] := by
  have hnone : ∀ text : Text, sep ∉ text → ∀ c ∈ text, (c == sep) = false := by
    intro text hsep c hc
    simp only [beq_eq_false_iff_ne]
    exact fun h => hsep (h ▸ hc)
  rw [parts, List.splitOnP_append_cons word rest (by simp),
    List.splitOnP_eq_singleton (hnone word h), List.splitOnP_eq_singleton (hnone rest h')]
  rfl

end Words

/-! ## the least of a list -/

/-- `min(l, key=key)`: the first of those with the least key. -/
def leastBy {α : Type} (key : α → Int) : List α → Option α
  | [] => none
  | a :: l => match leastBy key l with
    | none => some a
    | some b => if key b < key a then some b else some a

section Least

variable {α : Type} {key : α → Int} {l : List α} {a b : α}

/-- Only the empty list has no least element. -/
theorem leastBy_eq_none : leastBy key l = none ↔ l = [] := by
  cases l with
  | nil => simp [leastBy]
  | cons a l =>
      simp only [leastBy]
      split
      · simp
      · split <;> simp

/-- The least element is one of the list. -/
theorem leastBy_mem (h : leastBy key l = some b) : b ∈ l := by
  induction l with
  | nil => cases h
  | cons a l ih =>
      simp only [leastBy] at h
      split at h
      · cases h
        exact List.mem_cons_self
      · next c hc =>
        split at h
        · exact List.mem_cons_of_mem _ (ih (hc.trans h))
        · cases h
          exact List.mem_cons_self

/-- No element has a smaller key. -/
theorem le_of_leastBy (h : leastBy key l = some b) (ha : a ∈ l) : key b ≤ key a := by
  induction l generalizing b with
  | nil => cases h
  | cons c l ih =>
      simp only [leastBy] at h
      split at h
      · next hnone =>
        rw [leastBy_eq_none.mp hnone] at ha
        cases h
        obtain rfl := List.mem_singleton.mp ha
        exact Int.le_refl _
      · next d hd =>
        split at h <;> cases h <;> obtain rfl | ha := List.mem_cons.mp ha
        · omega
        · exact ih hd ha
        · omega
        · have := ih hd ha
          omega

/-- What stands before it has a greater key. -/
theorem lt_of_leastBy {l : List Nat} {key : Nat → Int} {a b : Nat} (hl : l.Pairwise (· < ·))
    (h : leastBy key l = some b) (ha : a ∈ l) (hab : a < b) : key b < key a := by
  induction l generalizing b with
  | nil => cases h
  | cons c l ih =>
      obtain ⟨hfirst, hl⟩ := List.pairwise_cons.mp hl
      have hc : c ≤ a := by
        obtain rfl | ha := List.mem_cons.mp ha
        · exact Nat.le_refl _
        · exact Nat.le_of_lt (hfirst a ha)
      simp only [leastBy] at h
      split at h
      · cases h
        omega
      · next d hd =>
        split at h <;> cases h
        · next hlt =>
          obtain rfl | ha := List.mem_cons.mp ha
          · exact hlt
          · exact ih hl hd ha hab
        · omega

end Least

/-! ## dictionaries -/

/-- A dictionary whose keys are texts. -/
abbrev Dict (α : Type) := Dictionary Text α

end Python
