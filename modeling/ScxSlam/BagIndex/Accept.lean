import Mathlib.Data.List.Forall2
import ScxSlam.BagIndex.RoundTrip
import ScxSlam.Lib.Words

/-!
# ScxSlam.BagIndex.Accept

Which files `SourceJobIndex` accepts.  Its loop ends with the first word it
cannot read, and the test behind it tells a failure at the end of the file
from any other: an unreadable word that touches the end passes for the end.
`Reads` is what the loop takes, `WellFormed` what a file should be.
-/

namespace ScxSlam.BagIndex

open Extract

/-! ## what the loop takes -/

/-- Pairs of numerals, stamps going up and ordinals counting on, and then
nothing that can be read before the end. -/
inductive Reads : Nat → Nat → List Nat → List Char → Prop
  | spent {n previous : Nat} {text blanks sign digits : List Char}
      (h : Spent 64 text blanks sign digits) : Reads n previous [] text
  | entry {n previous stamp : Nat} {stamps : List Nat}
      {text blanks₁ sign₁ digits₁ rest blanks₂ sign₂ digits₂ tail : List Char}
      (hstamp : Reading 64 text blanks₁ sign₁ digits₁ rest stamp)
      (hordinal : Reading 64 rest blanks₂ sign₂ digits₂ tail (n + 1)) (hlt : previous < stamp)
      (htail : Reads (n + 1) stamp stamps tail) : Reads n previous (stamp :: stamps) text

section Loop

variable {path : String} {input out : Stream} {index index' : SourceJobIndex}
  {n previous : Nat} {stamps : List Nat} {text rest : List Char}

/-- At its end a stream gives nothing, whether it has met it or not. -/
theorem extract_isEmpty (rest : List Char) :
    extract 64 { rest := rest, eof := rest.isEmpty } = extract 64 { rest := rest } := by
  cases rest <;> rfl

/-- The keys stay behind the last stamp. -/
theorem keys_append {stamp ordinal : Nat} (hkeys : ∀ p ∈ index.entries, p.1 ≤ previous)
    (hlt : previous < stamp) : ∀ p ∈ index.entries ++ [(stamp, ordinal)], p.1 ≤ stamp := by
  intro p hp
  obtain hp | hp := List.mem_append.mp hp
  · exact Nat.le_of_lt (Nat.lt_of_le_of_lt (hkeys p hp) hlt)
  · rw [List.mem_singleton.mp hp]

theorem Reads.readLoop (h : Reads n previous stamps text)
    (hin : extract 64 input = extract 64 { rest := text }) (hn : index.entries.length = n)
    (hkeys : ∀ p ∈ index.entries, p.1 ≤ previous) :
    ∃ out index', readLoop path input index previous = .ok (out, index') ∧ out.eof = true ∧
      index'.entries.length = n + stamps.length := by
  induction h generalizing input index with
  | spent h =>
      obtain ⟨hnone, heof⟩ := h.extract
      unfold BagIndex.readLoop
      rw [← hin] at hnone heof
      split
      · next input' heq =>
        rw [heq] at heof
        exact ⟨input', index, rfl, heof, hn⟩
      · next heq =>
        rw [heq] at hnone
        cases hnone
  | @entry n previous stamp stamps text _ _ _ rest _ _ _ tail hstamp hordinal hlt htail ih =>
      have hfirst := hin.trans hstamp.extract
      have hsecond := (extract_isEmpty rest).trans hordinal.extract
      have hnew : index.emplace stamp (n + 1) = { entries := index.entries ++ [(stamp, n + 1)] } :=
        emplace_new fun p hp => Nat.lt_of_le_of_lt (hkeys p hp) hlt
      obtain ⟨out, index', hloop, heof, hlen⟩ := @ih { rest := tail, eof := tail.isEmpty }
        { entries := index.entries ++ [(stamp, n + 1)] } (extract_isEmpty tail) (by simp [hn])
        (keys_append hkeys hlt)
      refine ⟨out, index', ?_, heof, ?_⟩
      · unfold BagIndex.readLoop
        split
        · next heq =>
          rw [hfirst] at heq
          cases heq
        · next stamp' input' heq =>
          rw [hfirst] at heq
          cases heq
          split
          · next heq =>
            rw [hsecond] at heq
            cases heq
          · next ordinal input' heq =>
            rw [hsecond] at heq
            cases heq
            rw [if_neg (by omega), hnew]
            exact hloop
      · rw [hlen, List.length_cons]
        omega

theorem readLoop_reads (hin : extract 64 input = extract 64 { rest := text })
    (hkeys : ∀ p ∈ index.entries, p.1 ≤ previous)
    (h : readLoop path input index previous = .ok (out, index')) (heof : out.eof = true) :
    ∃ stamps, Reads index.entries.length previous stamps text ∧
      index'.entries.length = index.entries.length + stamps.length := by
  induction hlen : text.length using Nat.strong_induction_on
    generalizing text input index previous with
  | _ k ih =>
    unfold readLoop at h
    obtain ⟨_, _, _, rest, stamp, hstamp⟩ | ⟨_, _, _, hspent⟩ | ⟨hnone, hmore⟩ :=
      extract_cases 64 text
    · have hfirst := hin.trans hstamp.extract
      split at h
      · next heq =>
        rw [hfirst] at heq
        cases heq
      · next stamp' input' heq =>
        rw [hfirst] at heq
        cases heq
        split at h
        · cases h
        · next ordinal input' heq =>
          split at h
          · cases h
          · next hvalid =>
            obtain ⟨hlt, hordinal⟩ : previous < stamp ∧ ordinal = index.entries.length + 1 := by
              omega
            obtain ⟨_, _, _, tail, v, hread⟩ | ⟨_, _, _, hspent⟩ | ⟨hnone, -⟩ :=
              extract_cases 64 rest
            · rw [extract_isEmpty, hread.extract] at heq
              cases heq
              have hnew : index.emplace stamp ordinal =
                  { entries := index.entries ++ [(stamp, ordinal)] } :=
                emplace_new fun p hp => Nat.lt_of_le_of_lt (hkeys p hp) hlt
              rw [hnew] at h
              have hshorter : tail.length < k := by
                have h₁ := congrArg List.length hstamp.spelled
                have h₂ := congrArg List.length hread.spelled
                have hpos := List.length_pos_iff.mpr hread.numeral.nonempty
                simp only [List.length_append] at h₁ h₂
                omega
              obtain ⟨stamps, hreads, hentries⟩ := ih tail.length hshorter (extract_isEmpty tail)
                (keys_append hkeys hlt) h rfl
              simp only [List.length_append, List.length_singleton] at hreads hentries
              refine ⟨stamp :: stamps, .entry hstamp (hordinal ▸ hread) hlt hreads, ?_⟩
              rw [hentries, List.length_cons]
              omega
            · obtain ⟨hnone, -⟩ := hspent.extract
              rw [extract_isEmpty] at heq
              rw [heq] at hnone
              cases hnone
            · rw [extract_isEmpty] at heq
              rw [heq] at hnone
              cases hnone
    · obtain ⟨hnone, -⟩ := hspent.extract
      rw [← hin] at hnone
      split at h
      · cases h
        exact ⟨[], .spent hspent, rfl⟩
      · next heq =>
        rw [heq] at hnone
        cases hnone
    · rw [← hin] at hnone hmore
      split at h
      · next input' heq =>
        cases h
        rw [heq, heof] at hmore
        cases hmore
      · next heq =>
        rw [heq] at hnone
        cases hnone

/-- The constructor accepts what its loop takes, if that is anything. -/
theorem make_iff (hpath : path ≠ "") (content : List Char) :
    (∃ index, SourceJobIndex.make path (some content) = .ok index) ↔
      ∃ stamps, stamps ≠ [] ∧ Reads 0 0 stamps content := by
  unfold SourceJobIndex.make
  rw [if_neg hpath]
  dsimp only
  constructor
  · rintro ⟨index, h⟩
    split at h
    · cases h
    · next out index' hloop =>
      split at h
      · cases h
      · next hvalid =>
        obtain ⟨heof, hentries⟩ := not_or.mp hvalid
        have hkeys : ∀ p ∈ ({} : SourceJobIndex).entries, p.1 ≤ 0 := nofun
        obtain ⟨stamps, hreads, hlen⟩ := readLoop_reads rfl hkeys hloop (by simpa using heof)
        refine ⟨stamps, ?_, hreads⟩
        rintro rfl
        exact hentries (List.length_eq_zero_iff.mp hlen)
  · rintro ⟨stamps, hne, hreads⟩
    have hkeys : ∀ p ∈ ({} : SourceJobIndex).entries, p.1 ≤ 0 := nofun
    obtain ⟨out, index, hloop, heof, hlen⟩ :=
      @Reads.readLoop path { rest := content } {} _ _ _ _ hreads rfl rfl hkeys
    have hentries : index.entries ≠ [] := by
      intro hnil
      rw [hnil, List.length_nil, Nat.zero_add] at hlen
      exact hne (List.length_eq_zero_iff.mp hlen.symm)
    refine ⟨index, ?_⟩
    rw [hloop]
    dsimp only
    rw [if_neg (not_or.mpr ⟨by simp [heof], hentries⟩)]

end Loop

/-! ## what a file should be -/

/-- Digits that denote a word. -/
structure Denotes (word : List Char) (v : Nat) : Prop where
  nonempty : word ≠ []
  digits : ∀ c ∈ word, c.isDigit = true
  value : Nat.ofDigitChars 10 word 0 = v
  fits : v < Word.size 64

/-- Stamps with their ordinals. -/
def listing (n : Nat) (stamps : List Nat) : List Nat :=
  (stamps.zipIdx (n + 1)).flatMap fun (stamp, ordinal) => [stamp, ordinal]

/-- The words of a text are stamps, going up, with their ordinals. -/
structure Listed (n previous : Nat) (stamps : List Nat) (text : List Char) : Prop where
  increasing : (previous :: stamps).Pairwise (· < ·)
  pairs : List.Forall₂ Denotes (words text) (listing n stamps)

/-- `s1 1 s2 2 ... sn n`, and nothing else. -/
def WellFormed (content : List Char) : Prop := ∃ stamps, stamps ≠ [] ∧ Listed 0 0 stamps content

/-- A file that is taken and carries a sign, or digits that are no word. -/
def Misread (content : List Char) : Prop :=
  (∃ stamps, stamps ≠ [] ∧ Reads 0 0 stamps content) ∧
    ((∃ c ∈ content, c = '+' ∨ c = '-') ∨
      ∃ w ∈ words content, (∀ c ∈ w, c.isDigit = true) ∧
        Word.size 64 ≤ Nat.ofDigitChars 10 w 0)

section Format

variable {n previous v : Nat} {stamps : List Nat} {text content blanks word rest : List Char}

theorem Breaks.stops (h : Breaks rest) : Stops rest := by
  intro c hc
  by_contra hdigit
  have hspace := isSpace_of_isDigit (by simpa using hdigit : c.isDigit = true)
  rw [h c hc] at hspace
  cases hspace

theorem Denotes.reading (h : Denotes word v) (hblanks : ∀ c ∈ blanks, isSpace c = true)
    (hrest : Breaks rest) : Reading 64 (blanks ++ (word ++ rest)) blanks [] word rest v where
  spelled := by rw [List.nil_append, List.append_assoc]
  numeral := ⟨rfl, hblanks, .inl rfl, h.nonempty, h.digits⟩
  fits := h.value ▸ h.fits
  word := h.value.symm
  stops := Breaks.stops hrest

/-- A well-formed file is taken. -/
theorem Listed.reads (h : Listed n previous stamps text) : Reads n previous stamps text := by
  induction stamps generalizing n previous text with
  | nil =>
      have hnil := List.forall₂_nil_right_iff.mp h.pairs
      obtain hall | ⟨blanks, word, rest, rfl, hblanks, hne, hword, hrest⟩ := words_cases text
      · exact .spent ⟨(List.append_nil text).symm, hall, .inl rfl, .inl rfl, nofun⟩
      · rw [words_blanks hblanks, words_word hne hword hrest] at hnil
        cases hnil
  | cons stamp stamps ih =>
      obtain ⟨hlt, hincreasing⟩ := List.pairwise_cons.mp h.increasing
      have hwords := h.pairs
      rw [listing, List.zipIdx_cons, List.flatMap_cons] at hwords
      obtain ⟨w₁, ws₁, hstamp, hrest₁, hw₁⟩ := List.forall₂_cons_right_iff.mp hwords
      obtain ⟨w₂, ws₂, hordinal, hrest₂, hw₂⟩ := List.forall₂_cons_right_iff.mp hrest₁
      rw [hw₂] at hw₁
      obtain ⟨blanks₁, rest₁, rfl, hblanks₁, -, hbreaks₁, htail₁⟩ := words_eq_cons hw₁
      obtain ⟨blanks₂, rest₂, rfl, hblanks₂, -, hbreaks₂, htail₂⟩ := words_eq_cons htail₁
      refine .entry (hstamp.reading hblanks₁ hbreaks₁) (hordinal.reading hblanks₂ hbreaks₂)
        (hlt stamp List.mem_cons_self) (ih ⟨hincreasing, ?_⟩)
      rw [htail₂]
      exact hrest₂

theorem Listed.denotes (h : Listed n previous stamps text) {w : List Char} (hw : w ∈ words text) :
    ∃ v, Denotes w v := by
  obtain ⟨i, hi, rfl⟩ := List.getElem_of_mem hw
  have hlen := h.pairs.length_eq
  exact ⟨_, h.pairs.get hi (hlen ▸ hi)⟩

/-- A well-formed file has neither signs nor too many digits. -/
theorem Listed.plain (h : Listed n previous stamps text) :
    ¬ ((∃ c ∈ text, c = '+' ∨ c = '-') ∨
      ∃ w ∈ words text, (∀ c ∈ w, c.isDigit = true) ∧
        Word.size 64 ≤ Nat.ofDigitChars 10 w 0) := by
  rintro (⟨c, hc, hsign⟩ | ⟨w, hw, -, hlarge⟩)
  · have hspace : isSpace c = false := by
      obtain rfl | rfl := hsign <;> decide
    obtain ⟨w, hw, hcw⟩ := mem_words hc hspace
    obtain ⟨v, hdenotes⟩ := h.denotes hw
    have hdigit := hdenotes.digits c hcw
    obtain rfl | rfl := hsign <;> revert hdigit <;> decide
  · obtain ⟨v, hdenotes⟩ := h.denotes hw
    have hfits := hdenotes.fits
    have hvalue := hdenotes.value
    omega

/-- What an optional sign is made of. -/
theorem sign_of_mem {sign : List Char} (hsign : sign = [] ∨ sign = ['+'] ∨ sign = ['-']) {c : Char}
    (hc : c ∈ sign) : c = '+' ∨ c = '-' := by
  obtain rfl | rfl | rfl := hsign
  · contradiction
  · exact .inl (List.mem_singleton.mp hc)
  · exact .inr (List.mem_singleton.mp hc)

theorem sign_eq_nil {sign : List Char} (hsign : sign = [] ∨ sign = ['+'] ∨ sign = ['-'])
    (hnone : ∀ c ∈ sign, ¬ (c = '+' ∨ c = '-')) : sign = [] :=
  List.eq_nil_iff_forall_not_mem.mpr fun c hc => hnone c hc (sign_of_mem hsign hc)

/-- The characters of a reading. -/
theorem Reading.chars {sign digits : List Char} (h : Reading 64 text blanks sign digits rest v)
    {c : Char} (hc : c ∈ text) :
    isSpace c = true ∨ (c = '+' ∨ c = '-') ∨ c.isDigit = true ∨ c ∈ rest := by
  rw [h.spelled] at hc
  obtain hc | hc := List.mem_append.mp hc
  · obtain hc | hc := List.mem_append.mp hc
    · exact .inl (h.numeral.blanks c hc)
    · obtain hc | hc := List.mem_append.mp hc
      · exact .inr (.inl (sign_of_mem h.numeral.sign hc))
      · exact .inr (.inr (.inl (h.numeral.digits c hc)))
  · exact .inr (.inr (.inr hc))

/-- A taken text is white space, signs and digits. -/
theorem Reads.chars (h : Reads n previous stamps text) {c : Char} (hc : c ∈ text) :
    isSpace c = true ∨ (c = '+' ∨ c = '-') ∨ c.isDigit = true := by
  induction h with
  | @spent _ _ _ blanks sign digits h =>
      rw [h.spelled] at hc
      obtain hc | hc := List.mem_append.mp hc
      · exact .inl (h.blanks c hc)
      · obtain hc | hc := List.mem_append.mp hc
        · exact .inr (.inl (sign_of_mem h.sign hc))
        · exact .inr (.inr (h.digits c hc))
  | entry hstamp hordinal hlt htail ih =>
      obtain hc | hc | hc | hc := Reading.chars hstamp hc
      · exact .inl hc
      · exact .inr (.inl hc)
      · exact .inr (.inr hc)
      · obtain hc | hc | hc | hc := Reading.chars hordinal hc
        · exact .inl hc
        · exact .inr (.inl hc)
        · exact .inr (.inr hc)
        · exact ih hc

/-- A reading without a sign is a word in front. -/
theorem Reading.denotes {sign digits : List Char} (h : Reading 64 text blanks sign digits rest v)
    (hsigns : ∀ c ∈ text, ¬ (c = '+' ∨ c = '-')) (hrest : Breaks rest) :
    Denotes digits v ∧ words text = digits :: words rest := by
  have hspelled := h.spelled
  obtain rfl : sign = [] :=
    sign_eq_nil h.numeral.sign fun c hc => hsigns c (by simp [hspelled, hc])
  have hfits := h.fits
  have hword : v = Nat.ofDigitChars 10 digits 0 := h.word
  rw [← hword] at hfits
  refine ⟨⟨h.numeral.nonempty, h.numeral.digits, hword.symm, hfits⟩, ?_⟩
  rw [hspelled, List.nil_append, List.append_assoc, words_blanks h.numeral.blanks]
  exact words_word h.numeral.nonempty
    (fun c hc => isSpace_of_isDigit (h.numeral.digits c hc)) hrest

/-- Without signs and too many digits, a spent stream has only blanks. -/
theorem words_spent {sign digits : List Char} (h : Spent 64 text blanks sign digits)
    (hsigns : ∀ c ∈ text, ¬ (c = '+' ∨ c = '-'))
    (hlarge : ∀ w ∈ words text, (∀ c ∈ w, c.isDigit = true) →
      Nat.ofDigitChars 10 w 0 < Word.size 64) : words text = [] := by
  have hspelled := h.spelled
  obtain rfl : sign = [] := sign_eq_nil h.sign fun c hc => hsigns c (by simp [hspelled, hc])
  rw [List.nil_append] at hspelled
  have hdigits : digits = [] := by
    by_contra hne
    have hword : words text = [digits] := by
      have hend : Breaks [] := nofun
      have hlast := words_word hne (fun c hc => isSpace_of_isDigit (h.digits c hc)) hend
      rw [List.append_nil] at hlast
      rw [hspelled, words_blanks h.blanks, hlast]
      rfl
    have hfits := hlarge digits (by rw [hword]; exact List.mem_cons_self) h.digits
    exact absurd (h.unread.resolve_left hne) (Nat.not_le_of_lt hfits)
  rw [hspelled, hdigits, List.append_nil, words_eq_nil h.blanks]

/-- A taken file without signs and too many digits is well-formed. -/
theorem Reads.listed (h : Reads n previous stamps text)
    (hsigns : ∀ c ∈ text, ¬ (c = '+' ∨ c = '-'))
    (hlarge : ∀ w ∈ words text, (∀ c ∈ w, c.isDigit = true) →
      Nat.ofDigitChars 10 w 0 < Word.size 64) : Listed n previous stamps text := by
  induction h with
  | spent h =>
      refine ⟨List.pairwise_singleton _ _, ?_⟩
      rw [words_spent h hsigns hlarge]
      exact .nil
  | @entry n previous stamp stamps text _ _ _ rest _ _ _ tail hstamp hordinal hlt htail ih =>
      have hchars : ∀ c ∈ text, isSpace c = true ∨ c.isDigit = true := by
        intro c hc
        obtain hc' | hc' | hc' := (Reads.entry hstamp hordinal hlt htail).chars hc
        · exact .inl hc'
        · exact absurd hc' (hsigns c hc)
        · exact .inr hc'
      have hrest : ∀ c ∈ rest, c ∈ text := fun c hc => by
        rw [hstamp.spelled]
        exact List.mem_append_right _ hc
      have htails : ∀ c ∈ tail, c ∈ rest := fun c hc => by
        rw [hordinal.spelled]
        exact List.mem_append_right _ hc
      have hbreaks : ∀ {l : List Char}, (∀ c ∈ l, c ∈ text) → Stops l → Breaks l := by
        intro l hl hstops c hc
        refine (hchars c (hl c (List.mem_of_mem_head? hc))).resolve_right ?_
        rw [hstops c hc]
        exact Bool.false_ne_true
      obtain ⟨hd₁, hw₁⟩ := Reading.denotes hstamp hsigns (hbreaks hrest hstamp.stops)
      obtain ⟨hd₂, hw₂⟩ := Reading.denotes hordinal (fun c hc => hsigns c (hrest c hc))
        (hbreaks (fun c hc => hrest c (htails c hc)) hordinal.stops)
      have hlisted := ih (fun c hc => hsigns c (hrest c (htails c hc))) fun w hw => by
        refine hlarge w ?_
        rw [hw₁, hw₂]
        exact List.mem_cons_of_mem _ (List.mem_cons_of_mem _ hw)
      constructor
      case increasing =>
          refine List.pairwise_cons.mpr ⟨?_, hlisted.increasing⟩
          intro x hx
          obtain rfl | hx := List.mem_cons.mp hx
          · exact hlt
          · exact Nat.lt_trans hlt ((List.pairwise_cons.mp hlisted.increasing).1 x hx)
      case pairs =>
          rw [hw₁, hw₂, listing, List.zipIdx_cons, List.flatMap_cons]
          exact .cons hd₁ (.cons hd₂ hlisted.pairs)

/-- **Acceptance**: the constructor tells well-formed files from others unless
the file is misread. -/
theorem index_accepts_iff {path : String} (hpath : path ≠ "") (content : List Char) :
    ((∃ index, SourceJobIndex.make path (some content) = .ok index) ↔ WellFormed content) ↔
      ¬ Misread content := by
  rw [make_iff hpath]
  constructor
  · rintro h ⟨hreads, hflaw⟩
    obtain ⟨stamps, -, hlisted⟩ := h.mp hreads
    exact hlisted.plain hflaw
  · intro h
    constructor
    · rintro ⟨stamps, hne, hreads⟩
      refine ⟨stamps, hne, hreads.listed ?_ ?_⟩
      · exact fun c hc hsign => h ⟨⟨stamps, hne, hreads⟩, .inl ⟨c, hc, hsign⟩⟩
      · intro w hw hdigits
        by_contra hlarge
        exact h ⟨⟨stamps, hne, hreads⟩, .inr ⟨w, hw, hdigits, Nat.le_of_not_lt hlarge⟩⟩
    · rintro ⟨stamps, hne, hlisted⟩
      exact ⟨stamps, hne, hlisted.reads⟩

end Format

/-- A second stamp that is no word, at the end of the file. -/
def cutOff : List Char := ['5', ' ', '1', '\n'] ++ decimal (Word.size 64)

theorem cutOff_misread : Misread cutOff := by
  have hstamp : Reading 64 cutOff [] [] ['5'] ([' ', '1', '\n'] ++ decimal (Word.size 64)) 5 :=
    ⟨rfl, ⟨rfl, nofun, .inl rfl, by decide, List.forall_mem_singleton.mpr rfl⟩, by decide,
      by decide, stops_cons rfl⟩
  have hordinal : Reading 64 ([' ', '1', '\n'] ++ decimal (Word.size 64)) [' '] [] ['1']
      (['\n'] ++ decimal (Word.size 64)) 1 :=
    ⟨rfl, ⟨rfl, List.forall_mem_singleton.mpr rfl, .inl rfl, by decide,
      List.forall_mem_singleton.mpr rfl⟩, by decide, by decide, stops_cons rfl⟩
  have hdigits : ∀ c ∈ decimal (Word.size 64), c.isDigit = true :=
    fun c hc => isDigit_of_mem_decimal hc
  have hspent : Spent 64 (['\n'] ++ decimal (Word.size 64)) ['\n'] [] (decimal (Word.size 64)) :=
    ⟨rfl, List.forall_mem_singleton.mpr rfl, .inl rfl,
      .inr (Nat.le_of_eq ofDigitChars_decimal.symm), hdigits⟩
  refine ⟨⟨[5], by decide, .entry hstamp hordinal (by decide) (.spent hspent)⟩, .inr ?_⟩
  refine ⟨decimal (Word.size 64), by decide, hdigits, Nat.le_of_eq ofDigitChars_decimal.symm⟩

theorem index_accepts_iff_refuted : ¬ ∀ (path : String) (content : List Char), path ≠ "" →
    ((∃ index, SourceJobIndex.make path (some content) = .ok index) ↔ WellFormed content) := by
  intro h
  have hpath : "topic-0.tsv" ≠ "" := by decide
  have hwell := (h "topic-0.tsv" cutOff hpath).mp ((make_iff hpath cutOff).mpr cutOff_misread.1)
  obtain ⟨stamps, -, hlisted⟩ := hwell
  exact hlisted.plain cutOff_misread.2

theorem index_accepts_iff_cutOff :
    ¬ ((∃ index, SourceJobIndex.make "topic-0.tsv" (some cutOff) = .ok index) ↔
      WellFormed cutOff) := by
  have hpath : "topic-0.tsv" ≠ "" := by decide
  exact fun h => (index_accepts_iff hpath cutOff).mp h cutOff_misread

end ScxSlam.BagIndex
