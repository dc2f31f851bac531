import ScxSlam.Lib.Extract

/-!
# ScxSlam.Lib.Words

A text split at white space.  Everything about `words` follows from two
equations: white space in front belongs to no word, and a word ends at the
first white space.
-/

namespace Extract

/-- The words of a text. -/
def words (text : List Char) : List (List Char) := (text.splitOnP isSpace).filter (· ≠ [])

/-- White space, or the end. -/
def Breaks (rest : List Char) : Prop := ∀ c ∈ rest.head?, isSpace c = true

section Words

variable {text blanks word rest : List Char} {ws : List (List Char)} {c : Char}

/-- White space in front is skipped. -/
theorem words_cons_space (hc : isSpace c = true) (text : List Char) :
    words (c :: text) = words text := by
  have hsplit := List.splitOnP_append_cons [] text hc
  rw [List.nil_append] at hsplit
  rw [words, hsplit, List.filter_append]
  rfl

/-- White space in front is skipped. -/
theorem words_blanks (hblanks : ∀ c ∈ blanks, isSpace c = true) (text : List Char) :
    words (blanks ++ text) = words text := by
  induction blanks with
  | nil => rfl
  | cons c blanks ih =>
      rw [List.cons_append, words_cons_space (hblanks c List.mem_cons_self)]
      exact ih fun c hc => hblanks c (List.mem_cons_of_mem _ hc)

/-- White space has no words. -/
theorem words_eq_nil (hblanks : ∀ c ∈ blanks, isSpace c = true) : words blanks = [] := by
  rw [← List.append_nil blanks, words_blanks hblanks]
  rfl

/-- A word in front. -/
theorem words_word (hne : word ≠ []) (hword : ∀ c ∈ word, isSpace c = false)
    (hrest : Breaks rest) : words (word ++ rest) = word :: words rest := by
  cases rest with
  | nil =>
      rw [List.append_nil, words, List.splitOnP_eq_singleton hword]
      simp [hne, words]
  | cons c rest =>
      have hc : isSpace c = true := hrest c rfl
      rw [words_cons_space hc, words, List.splitOnP_append_cons word rest hc,
        List.splitOnP_eq_singleton hword, List.filter_append]
      simp [hne, words]

/-- A text is white space, or there is a word behind it. -/
theorem words_cases (text : List Char) : (∀ c ∈ text, isSpace c = true) ∨
    ∃ blanks word rest, text = blanks ++ (word ++ rest) ∧ (∀ c ∈ blanks, isSpace c = true) ∧
      word ≠ [] ∧ (∀ c ∈ word, isSpace c = false) ∧ Breaks rest := by
  by_cases hall : text.dropWhile isSpace = []
  · exact .inl (List.dropWhile_eq_nil_iff.mp hall)
  · refine .inr ⟨text.takeWhile isSpace, (text.dropWhile isSpace).takeWhile (!isSpace ·),
      (text.dropWhile isSpace).dropWhile (!isSpace ·), ?_, ?_, ?_, ?_, ?_⟩
    · rw [List.takeWhile_append_dropWhile, List.takeWhile_append_dropWhile]
    · exact fun c hc => List.mem_takeWhile_imp hc
    · obtain ⟨c, rest, hc⟩ := List.exists_cons_of_ne_nil hall
      have hhead := List.head?_dropWhile_not isSpace text
      rw [hc] at hhead ⊢
      have hspace : isSpace c = false := by simpa using hhead
      rw [List.takeWhile_cons_of_pos (by simp [hspace])]
      exact List.cons_ne_nil _ _
    · intro c hc
      have hspace := List.mem_takeWhile_imp hc
      simpa using hspace
    · intro c hc
      have hhead := List.head?_dropWhile_not (!isSpace ·) (text.dropWhile isSpace)
      rw [Option.mem_def] at hc
      rw [hc] at hhead
      simpa using hhead

/-- The first word of a text. -/
theorem words_eq_cons (h : words text = word :: ws) :
    ∃ blanks rest, text = blanks ++ (word ++ rest) ∧ (∀ c ∈ blanks, isSpace c = true) ∧
      word ≠ [] ∧ Breaks rest ∧ words rest = ws := by
  obtain hall | ⟨blanks, word', rest, rfl, hblanks, hne, hword, hrest⟩ := words_cases text
  · rw [words_eq_nil hall] at h
    cases h
  · rw [words_blanks hblanks, words_word hne hword hrest] at h
    cases h
    exact ⟨blanks, rest, rfl, hblanks, hne, hrest, rfl⟩

/-- What is in no word is white space. -/
theorem mem_words (hc : c ∈ text) (hspace : isSpace c = false) : ∃ w ∈ words text, c ∈ w := by
  induction h : text.length using Nat.strong_induction_on generalizing text with
  | _ n ih =>
    obtain hall | ⟨blanks, word, rest, rfl, hblanks, hne, hword, hrest⟩ := words_cases text
    · rw [hall c hc] at hspace
      cases hspace
    · rw [words_blanks hblanks, words_word hne hword hrest]
      obtain hc | hc := List.mem_append.mp hc
      · rw [hblanks c hc] at hspace
        cases hspace
      · obtain hc | hc := List.mem_append.mp hc
        · exact ⟨word, List.mem_cons_self, hc⟩
        · have hpos := List.length_pos_iff.mpr hne
          obtain ⟨w, hw, hcw⟩ := ih rest.length (by simp at h; omega) hc rfl
          exact ⟨w, List.mem_cons_of_mem _ hw, hcw⟩

end Words

end Extract
