import ScxSlam.Lib.Fields

/-!
# ScxSlam.Lib.Scan

Going through a sequence from the left: where something can be read off the
front it is, and else one element is passed over.

`re.findall` of a regular expression goes through a text in this way, and
`bytes.decode` through its bytes.  A line of printed numbers is found by the
pattern `([a-z_]+)=(\d+)(?=\s|$)`.
-/

namespace Scan

open Python (Text)
open Fields (word decimals)

/-! ## scanning -/

section Scan

variable {α β : Type} {read : List α → Option (β × Nat)} {pass : α → List β} {l rest : List α}
  {b : β}

/-- What is read from a sequence; `skip` elements are of what was read last. -/
def scan (read : List α → Option (β × Nat)) (pass : α → List β) (skip : Nat) : List α → List β
  | [] => []
  | a :: l => match skip with
      | skip + 1 => scan read pass skip l
      | 0 => match read (a :: l) with
          | some (b, n) => b :: scan read pass (n - 1) l
          | none => pass a ++ scan read pass 0 l

/-- What was read is passed over. -/
theorem scan_skip (l rest : List α) :
    scan read pass l.length (l ++ rest) = scan read pass 0 rest := by
  induction l with
  | nil => rfl
  | cons a l ih =>
      rw [List.length_cons, List.cons_append, scan]
      exact ih

/-- Something is read off the front. -/
theorem scan_read (hne : l ≠ []) (h : read (l ++ rest) = some (b, l.length)) :
    scan read pass 0 (l ++ rest) = b :: scan read pass 0 rest := by
  obtain ⟨a, l, rfl⟩ := List.exists_cons_of_ne_nil hne
  rw [List.cons_append] at h ⊢
  rw [scan, h]
  dsimp only
  rw [List.length_cons, Nat.add_sub_cancel, scan_skip]

/-- Nothing is. -/
theorem scan_pass (h : ∀ (s : List α), s ≠ [] → s <:+ l → read (s ++ rest) = none) :
    scan read pass 0 (l ++ rest) = l.flatMap pass ++ scan read pass 0 rest := by
  induction l with
  | nil => rfl
  | cons a l ih =>
      have hnone := h (a :: l) (by simp) (List.suffix_refl _)
      rw [List.cons_append] at hnone ⊢
      rw [scan, hnone]
      dsimp only
      rw [ih fun s hs hsuffix => h s hs (hsuffix.trans (List.suffix_cons a l)), List.flatMap_cons,
        List.append_assoc]

end Scan

/-! ## numbers in a line -/

/-- `[a-z_]`. -/
def isName (c : Char) : Bool := c.isLower || c == '_'

/-- `([a-z_]+)=(\d+)(?=\s|$)` in front of a text, with the length of the match. -/
def number? (text : Text) : Option ((Text × Nat) × Nat) :=
  let name := text.takeWhile isName
  match text.dropWhile isName with
  | [] => none
  | c :: value =>
      let digits := value.takeWhile Python.isDecimal
      if c = '=' ∧ name ≠ [] ∧ digits ≠ [] ∧
          (value.dropWhile Python.isDecimal).head?.all Python.isSpace then
        some ((name, Python.value digits), name.length + 1 + digits.length)
      else none

/-- `re.findall` of it. -/
def numbers (text : Text) : List (Text × Nat) := scan number? (fun _ => []) 0 text

section Numbers

variable {name rest : Text} {n : Nat} {fields : List (String × Nat)}

/-- A printed number is read off the front. -/
theorem number?_word (hne : name ≠ []) (hname : ∀ c ∈ name, isName c = true)
    (hrest : rest.head?.all Python.isSpace = true) :
    number? (word (name, Extract.decimal n) ++ rest) =
      some ((name, n), (word (name, Extract.decimal n)).length) := by
  have hdigits : ∀ c ∈ Extract.decimal n, Python.isDecimal c = true := fun _ hc =>
    Python.isDecimal_of_isDigit (Extract.isDigit_of_mem_decimal hc)
  have hspace : ∀ c ∈ rest.head?, Python.isDecimal c = false := fun c hc =>
    Python.isDecimal_of_isSpace ((Option.all_eq_true _ _).mp hrest c hc)
  have htake : rest.takeWhile Python.isDecimal = [] := by
    cases rest with
    | nil => rfl
    | cons c rest => rw [List.takeWhile_cons_of_neg (by simp [hspace c rfl])]
  have hdrop : rest.dropWhile Python.isDecimal = rest := by
    cases rest with
    | nil => rfl
    | cons c rest => rw [List.dropWhile_cons_of_neg (by simp [hspace c rfl])]
  have heq : isName '=' = false := rfl
  unfold number? word
  rw [List.append_assoc, List.cons_append, List.takeWhile_append_of_pos hname,
    List.dropWhile_append_of_pos hname, List.takeWhile_cons_of_neg (by simp [heq]),
    List.dropWhile_cons_of_neg (by simp [heq])]
  dsimp only
  rw [List.takeWhile_append_of_pos hdigits, List.dropWhile_append_of_pos hdigits, htake, hdrop,
    List.append_nil, List.append_nil, if_pos ⟨rfl, hne, Python.decimal_ne_nil n, hrest⟩,
    Python.value_decimal]
  simp only [List.length_append, List.length_cons, Nat.add_assoc, Nat.add_comm 1]

/-- Where the name ends, in a word with a blank behind it. -/
theorem mem_of_dropWhile {c : Char} {value : Text}
    (h : (name ++ ' ' :: rest).dropWhile isName = c :: value) : c ∈ name ∨ c = ' ' := by
  induction name with
  | nil =>
      rw [List.nil_append, List.dropWhile_cons_of_neg (by decide)] at h
      exact .inr (List.cons.inj h).1.symm
  | cons d name ih =>
      rw [List.cons_append, List.dropWhile_cons] at h
      split at h
      · exact (ih h).imp_left (List.mem_cons_of_mem d)
      · exact .inl (List.mem_cons.mpr (.inl (List.cons.inj h).1.symm))

/-- A word without an equality sign holds no number. -/
theorem numbers_tag (hname : '=' ∉ name) : numbers (name ++ ' ' :: rest) = numbers rest := by
  have hblank : number? (' ' :: rest) = none := rfl
  unfold numbers
  rw [scan_pass, List.flatMap_eq_nil_iff.mpr fun _ _ => rfl, List.nil_append, scan, hblank]
  · rfl
  intro s hs hsuffix
  unfold number?
  dsimp only
  split
  · rfl
  · next c value heq =>
    refine if_neg fun h => ?_
    obtain hc | hc := mem_of_dropWhile heq
    · exact hname (h.1 ▸ hsuffix.subset hc)
    · rw [h.1] at hc
      contradiction

/-- Printed numbers are found. -/
theorem numbers_unwords
    (hfields : ∀ f ∈ fields, f.1.toList ≠ [] ∧ ∀ c ∈ f.1.toList, isName c = true) :
    numbers (Python.unwords ((decimals fields).map word)) =
      fields.map fun f => (f.1.toList, f.2) := by
  induction fields with
  | nil => rfl
  | cons f fields ih =>
      obtain ⟨hne, hname⟩ := hfields f List.mem_cons_self
      have hrest := ih fun f hf => hfields f (List.mem_cons_of_mem _ hf)
      have hword : word (f.1.toList, Extract.decimal f.2) ≠ [] := by simp [word]
      cases fields with
      | nil =>
          have hread := @number?_word f.1.toList [] f.2 hne hname rfl
          have hfound : numbers (word (f.1.toList, Extract.decimal f.2) ++ []) =
              (f.1.toList, f.2) :: numbers [] := scan_read hword hread
          rw [List.append_nil] at hfound
          exact hfound
      | cons f' fields =>
          have hunwords : Python.unwords ((decimals (f :: f' :: fields)).map word) =
              word (f.1.toList, Extract.decimal f.2) ++
                ' ' :: Python.unwords ((decimals (f' :: fields)).map word) := rfl
          have hread := @number?_word f.1.toList
            (' ' :: Python.unwords ((decimals (f' :: fields)).map word)) f.2 hne hname rfl
          rw [hunwords, numbers, scan_read hword hread, List.map_cons, ← hrest]
          exact congrArg _ (@numbers_tag [] _ List.not_mem_nil)

end Numbers

end Scan
