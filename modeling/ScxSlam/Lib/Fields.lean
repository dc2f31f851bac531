import ScxSlam.Lib.Python
import ScxSlam.Lib.Raise

/-!
# ScxSlam.Lib.Fields

Lines of `key=value` words: how they are printed, and what Python reads from
them with `split`, `dict` and `int`.
-/

namespace Fields

open Python (Text Dict Raised)
open Raise (bind_eq_ok pure_eq_ok)

/-! ## printing -/

/-- `key=value`. -/
def word (p : Text × Text) : Text := p.1 ++ '=' :: p.2

/-- Numbers as they are printed. -/
def decimals (fields : List (String × Nat)) : List (Text × Text) :=
  fields.map fun p => (p.1.toList, Extract.decimal p.2)

/-- The same, as they are read. -/
def ints (fields : List (String × Nat)) : Dict Int := fields.map fun p => (p.1.toList, (p.2 : Int))

/-! ## reading -/

/-- `dict(… for x in words)`, where `split` is what makes a pair of a word. -/
def read (split : Text → List Text) (words : List Text) : Except Raised (Dict Text) := do
  let pairs ← words.mapM fun w => match split w with
    | [k, v] => Except.ok (k, v)
    | _ => Except.error Raised.valueError
  return Dictionary.ofPairs pairs

/-- `{k: int(v) for k, v in fields.items()}`. -/
def numbers (fields : Dict Text) : Except Raised (Dict Int) :=
  fields.mapM fun p => match Python.int? p.2 with
    | some i => .ok (p.1, i)
    | none => .error .valueError

/-- `d[key]`. -/
def item {α : Type} (d : Dict α) (key : Text) : Except Raised α :=
  match d.get? key with
  | some v => .ok v
  | none => .error (.keyError key)

/-- `text.startswith(start)`. -/
def startsWith (start : String) (text : Text) : Bool := start.toList.isPrefixOf text

/-! ## what was printed is read back -/

/-- A text without blanks and equality signs. -/
def clean (t : Text) : Bool := t.all fun c => !Python.isSpace c && c != '='

/-- Keys that can be told apart. -/
def Keys (keys : List String) : Prop :=
  (∀ k ∈ keys, clean k.toList = true) ∧ (keys.map String.toList).Nodup

instance (keys : List String) : Decidable (Keys keys) :=
  inferInstanceAs (Decidable ((∀ k ∈ keys, clean k.toList = true) ∧ (keys.map String.toList).Nodup))

section Read

variable {t k v name : Text} {key : String} {fields : List (String × Nat)} {ws : List Text}
  {pairs : List (Text × Text)}

/-- Clean text has neither blanks nor separators. -/
theorem isSpace_of_clean {c : Char} (h : clean t = true) (hc : c ∈ t) :
    Python.isSpace c = false ∧ c ≠ '=' := by
  have := List.all_eq_true.mp h c hc
  simpa using this

/-- A printed number is clean. -/
theorem clean_decimal (n : Nat) : clean (Extract.decimal n) = true := by
  refine List.all_eq_true.mpr fun c hc => ?_
  have hdigit := Extract.isDigit_of_mem_decimal hc
  have hspace := Python.isSpace_of_isDigit hdigit
  have heq : c ≠ '=' := fun h => by simp [h] at hdigit
  simp [hspace, heq]

/-- Clean text has no separator. -/
theorem not_mem_of_clean (h : clean t = true) : '=' ∉ t :=
  fun hmem => (isSpace_of_clean h hmem).2 rfl

/-- The two ways of splitting a word make its pair. -/
theorem split_word (hk : clean k = true) (hv : clean v = true) :
    Python.cut '=' (word (k, v)) = [k, v] ∧ Python.parts '=' (word (k, v)) = [k, v] :=
  ⟨Python.cut_append (not_mem_of_clean hk),
    Python.parts_append (not_mem_of_clean hk) (not_mem_of_clean hv)⟩

/-- A way of splitting that makes its pair of every word. -/
def Splits (split : Text → List Text) : Prop :=
  ∀ k v, clean k = true → clean v = true → split (word (k, v)) = [k, v]

/-- Cutting at the first separator splits a word. -/
theorem splits_cut : Splits (Python.cut '=') := fun _ _ hk hv => (split_word hk hv).1

/-- Cutting at every separator splits a word. -/
theorem splits_parts : Splits (Python.parts '=') := fun _ _ hk hv => (split_word hk hv).2

/-- The words of clean pairs with different keys are read back. -/
theorem read_map {split : Text → List Text} (hsplit : Splits split)
    (hclean : ∀ p ∈ pairs, clean p.1 = true ∧ clean p.2 = true)
    (hkeys : (Dictionary.keys pairs).Nodup) :
    read split (pairs.map word) = .ok pairs := by
  have hpairs : (pairs.map word).mapM (fun w => match split w with
      | [k, v] => Except.ok (k, v)
      | _ => Except.error Raised.valueError) = .ok pairs := by
    refine Raise.mapM_of_getElem? (by simp) fun i w p hw hp => ?_
    rw [List.getElem?_map, hp] at hw
    cases hw
    obtain ⟨hk, hv⟩ := hclean p (List.mem_of_getElem? hp)
    rw [hsplit p.1 p.2 hk hv]
  unfold read
  rw [hpairs]
  simp only [bind, Except.bind, pure, Except.pure, Dictionary.ofPairs_of_nodup hkeys]

/-- Fewer keys are still different. -/
theorem Keys.tail {keys : List String} (h : Keys (key :: keys)) : Keys keys :=
  ⟨fun k hk => h.1 k (List.mem_cons_of_mem _ hk), (List.nodup_cons.mp h.2).2⟩

/-- Printing numbers changes no key. -/
theorem keys_decimals :
    Dictionary.keys (decimals fields) = (fields.map Prod.fst).map String.toList := by
  simp [Dictionary.keys, decimals]

/-- Printed numbers under clean keys are clean pairs. -/
theorem clean_decimals (h : Keys (fields.map Prod.fst)) :
    ∀ p ∈ decimals fields, clean p.1 = true ∧ clean p.2 = true := by
  intro p hp
  obtain ⟨f, hf, rfl⟩ := List.mem_map.mp hp
  exact ⟨h.1 f.1 (List.mem_map_of_mem hf), clean_decimal f.2⟩

/-- A line of numbers. -/
theorem read_decimals {split : Text → List Text} (hsplit : Splits split)
    (h : Keys (fields.map Prod.fst)) :
    read split ((decimals fields).map word) = .ok (decimals fields) :=
  read_map hsplit (clean_decimals h) (keys_decimals ▸ h.2)

/-- A line of numbers behind a name. -/
theorem read_named {split : Text → List Text} (hsplit : Splits split) (hname : clean name = true)
    (h : Keys (key :: fields.map Prod.fst)) :
    read split (((key.toList, name) :: decimals fields).map word) =
      .ok ((key.toList, name) :: decimals fields) := by
  refine read_map hsplit (fun p hp => ?_) ?_
  · obtain rfl | hp := List.mem_cons.mp hp
    · exact ⟨h.1 key List.mem_cons_self, hname⟩
    · exact clean_decimals h.tail p hp
  · have := h.2
    rw [List.map_cons, ← keys_decimals] at this
    exact this

/-- Printed numbers are read back. -/
theorem numbers_decimals : numbers (decimals fields) = .ok (ints fields) := by
  refine Raise.mapM_of_getElem? (by simp [decimals, ints]) fun i p q hp hq => ?_
  unfold decimals at hp
  unfold ints at hq
  rw [List.getElem?_map, Option.map_eq_some_iff] at hp
  obtain ⟨f, hf, rfl⟩ := hp
  rw [List.getElem?_map, hf] at hq
  cases hq
  simp [Python.int?_decimal]

/-- A number by its key. -/
theorem item_ints {n : Nat} (h : Keys (fields.map Prod.fst)) (hmem : (key, n) ∈ fields) :
    item (ints fields) key.toList = .ok (n : Int) := by
  have hkeys : Dictionary.keys (ints fields) = (fields.map Prod.fst).map String.toList := by
    simp [Dictionary.keys, ints]
  have hget : (ints fields).get? key.toList = some (n : Int) :=
    Dictionary.get?_of_mem (hkeys ▸ h.2) (List.mem_map.mpr ⟨(key, n), hmem, rfl⟩)
  rw [item, hget]

/-- The name taken out again. -/
theorem drop_named (h : Keys (key :: fields.map Prod.fst)) :
    Dictionary.drop ((key.toList, name) :: decimals fields) key.toList = decimals fields := by
  have hother : ∀ p ∈ decimals fields, decide (p.1 ≠ key.toList) = true := by
    intro p hp
    have hnot := (List.nodup_cons.mp h.2).1
    rw [← keys_decimals] at hnot
    exact decide_eq_true fun heq => hnot (heq ▸ List.mem_map_of_mem hp)
  unfold Dictionary.drop
  rw [List.filter_cons_of_neg (by simp), List.filter_eq_self.mpr hother]

/-! ## lines -/

/-- A word that can stand in a line. -/
def Solid (w : Text) : Prop := w ≠ [] ∧ ∀ c ∈ w, Python.isSpace c = false

-- through `all`: a quantifier over `Char` may be decided by going through every character
instance (w : Text) : Decidable (Solid w) :=
  decidable_of_iff (w ≠ [] ∧ w.all (!Python.isSpace ·) = true) (by simp [Solid])

/-- The word of a clean pair has no blank in it. -/
theorem solid_word (hk : clean k = true) (hv : clean v = true) : Solid (word (k, v)) := by
  refine ⟨by simp [word], fun c hc => ?_⟩
  obtain hc | hc := List.mem_append.mp hc
  · exact (isSpace_of_clean hk hc).1
  · obtain rfl | hc := List.mem_cons.mp hc
    · rfl
    · exact (isSpace_of_clean hv hc).1

/-- Every line break is white space. -/
theorem isBreak_of_isSpace {c : Char} (h : Python.isSpace c = false) :
    Python.isBreak c = false := by
  simp [Python.isSpace, Python.isBreak] at h ⊢
  omega

/-- A character of a line is a blank or belongs to a word. -/
theorem mem_unwords {c : Char} (h : c ∈ Python.unwords ws) : c = ' ' ∨ ∃ w ∈ ws, c ∈ w := by
  induction ws with
  | nil => contradiction
  | cons w ws ih =>
      cases ws with
      | nil => exact .inr ⟨w, List.mem_cons_self, h⟩
      | cons w' ws =>
          rw [Python.unwords] at h
          · obtain h | h := List.mem_append.mp h
            · exact .inr ⟨w, List.mem_cons_self, h⟩
            · obtain rfl | h := List.mem_cons.mp h
              · exact .inl rfl
              · obtain rfl | ⟨w, hw, hc⟩ := ih h
                · exact .inl rfl
                · exact .inr ⟨w, List.mem_cons_of_mem _ hw, hc⟩
          · simp

/-- A line begins with its first key. -/
theorem prefix_unwords (k v : Text) (ws : List Text) :
    k ++ ['='] <+: Python.unwords (word (k, v) :: ws) := by
  cases ws with
  | nil => exact ⟨v, by simp [Python.unwords, word]⟩
  | cons w ws => exact ⟨v ++ ' ' :: Python.unwords (w :: ws), by simp [Python.unwords, word]⟩

/-- A line begins with its first key. -/
theorem startsWith_key {start : String} (h : start.toList = k ++ ['=']) :
    startsWith start (Python.unwords (word (k, v) :: ws)) = true := by
  rw [startsWith, h]
  exact List.isPrefixOf_iff_prefix.mpr (prefix_unwords k v ws)

/-- A line begins with no other key. -/
theorem not_startsWith_key {start : String} (h : ¬start.toList <+: k ++ ['='])
    (h' : ¬k ++ ['='] <+: start.toList) :
    startsWith start (Python.unwords (word (k, v) :: ws)) = false := by
  refine Bool.eq_false_iff.mpr fun hstart => ?_
  obtain h₁ | h₁ := List.prefix_or_prefix_of_prefix (List.isPrefixOf_iff_prefix.mp hstart)
    (prefix_unwords k v ws)
  · exact h h₁
  · exact h' h₁

/-- A line begins with its first word. -/
theorem startsWith_tag {start : String} {w : Text} (h : start.toList = t ++ [' ']) :
    startsWith start (Python.unwords (t :: w :: ws)) = true := by
  rw [startsWith, h]
  exact List.isPrefixOf_iff_prefix.mpr ⟨Python.unwords (w :: ws), by simp [Python.unwords]⟩

/-- The lines of a printed text, and their words. -/
theorem lines_words {lines : List (List Text)} (h : ∀ ws ∈ lines, ∀ w ∈ ws, Solid w) :
    Python.lines (Python.unlines (lines.map Python.unwords)) = lines.map Python.unwords ∧
      ∀ ws ∈ lines, Python.words (Python.unwords ws) = ws := by
  refine ⟨Python.lines_unlines fun line hline c hc => ?_,
    fun ws hws => Python.words_unwords (h ws hws)⟩
  obtain ⟨ws, hws, rfl⟩ := List.mem_map.mp hline
  obtain rfl | ⟨w, hw, hc⟩ := mem_unwords hc
  · rfl
  · exact isBreak_of_isSpace ((h ws hws w hw).2 c hc)

end Read

end Fields
