import ScxSlam.BagIndex.Index

/-!
# ScxSlam.BagIndex.RoundTrip

Writer and reader agree: an index file that was written is accepted, and the
reader finds every timestamp of the topic under its ordinal.
-/

namespace ScxSlam.BagIndex

open Extract

/-! ## what is written -/

/-- Positive and strictly increasing. -/
def Increasing (l : List Int) : Prop := l.Pairwise (· < ·) ∧ ∀ x ∈ l, 0 < x

/-- The check against the last element is a check against all of them. -/
theorem Increasing.concat {l : List Int} {x : Int} (h : Increasing l) (hpos : 0 < x)
    (hlast : ∀ y, l.getLast? = some y → y < x) : Increasing (l ++ [x]) := by
  constructor
  · refine List.pairwise_append.mpr ⟨h.1, List.pairwise_singleton .., ?_⟩
    intro a ha b hb
    rw [List.mem_singleton.mp hb]
    obtain ⟨y, hy⟩ : ∃ y, l.getLast? = some y :=
      Option.isSome_iff_exists.mp (List.getLast?_isSome.mpr (List.ne_nil_of_mem ha))
    obtain ⟨init, hinit⟩ := List.getLast?_eq_some_iff.mp hy
    have hyx := hlast y hy
    have hpair := h.1
    rw [hinit] at ha hpair
    obtain ha | ha := List.mem_append.mp ha
    · have := (List.pairwise_append.mp hpair).2.2 a ha y (List.mem_singleton_self y)
      omega
    · rw [List.mem_singleton.mp ha]
      exact hyx
  · intro a ha
    obtain ha | ha := List.mem_append.mp ha
    · exact h.2 a ha
    · rw [List.mem_singleton.mp ha]
      exact hpos

section Writer

variable {args : Args} {e e' : Scan} {messages : List Message} {topic : String}

theorem headers_cons_same {m : Message} {stamp : Time} (h : m.header = some stamp) :
    headers m.topic (m :: messages) = stamp :: headers m.topic messages :=
  List.filterMap_cons_some (by rw [if_pos rfl, h])

theorem headers_cons_other {m : Message} (h : m.topic ≠ topic) :
    headers topic (m :: messages) = headers topic messages :=
  List.filterMap_cons_none (if_neg h)

/-- A message the loop of `main` accepts leaves every index increasing. -/
theorem Increasing.add {t : String} {ns : Int} (h : Increasing (e.indexes topic)) (hpos : 0 < ns)
    (hlast : ∀ y, (e.indexes t).getLast? = some y → y < ns) :
    Increasing ((e.add t ns).indexes topic) := by
  unfold Scan.add
  dsimp only
  split
  · next heq => exact h.concat hpos (heq ▸ hlast)
  · exact h

/-- The loop of `main` with an index directory reads the whole bag. -/
theorem scan_spec (hdir : args.indexDir = true) (h : scan args e messages = .ok e') :
    (∀ topic ∈ args.topics,
      e'.indexes topic = e.indexes topic ++ (headers topic messages).map sourceNs) ∧
    (∀ topic, Increasing (e.indexes topic) → Increasing (e'.indexes topic)) ∧
    ∀ topic, topic ∈ e.wanted ∨ e.indexes topic ≠ [] →
      topic ∈ e'.wanted ∨ e'.indexes topic ≠ [] := by
  induction messages generalizing e with
  | nil =>
      cases h
      exact ⟨fun topic _ => (List.append_nil _).symm, fun _ h => h, fun _ h => h⟩
  | cons m rest ih =>
      unfold scan at h
      rw [if_neg (by simp [hdir])] at h
      split at h
      · next hskip =>
        have hother : m.topic ∉ args.topics := by simpa [hdir] using hskip
        obtain ⟨h1, h2, h3⟩ := ih h
        refine ⟨fun topic ht => ?_, h2, h3⟩
        have hne : m.topic ≠ topic := fun heq => hother (heq ▸ ht)
        rw [h1 topic ht, headers_cons_other hne]
      · split at h
        · contradiction
        · next stamp hheader =>
          split at h
          · contradiction
          · next hpos =>
            split at h
            · contradiction
            · next hlast =>
              obtain ⟨h1, h2, h3⟩ := ih h
              have hlast : ∀ y, (e.indexes m.topic).getLast? = some y → y < sourceNs stamp := by
                intro y hy
                simpa [hy] using hlast
              refine ⟨fun topic ht => ?_, fun topic hinc => ?_, fun topic hw => ?_⟩
              · rw [h1 topic ht]
                by_cases heq : m.topic = topic
                · subst heq
                  simp [headers_cons_same hheader, Scan.add]
                · simp [headers_cons_other heq, Scan.add, Ne.symm heq]
              · exact h2 topic (hinc.add (by omega) hlast)
              · refine h3 topic ?_
                by_cases heq : topic = m.topic
                · exact .inr (by simp [Scan.add, heq])
                · simpa [Scan.add, heq] using hw

/-- What `main` writes, and what it has checked. -/
theorem sourceEpoch_spec {bag : Bag} {out : Output} (hdir : args.indexDir = true)
    (h : sourceEpoch args bag = .ok out) :
    out.files = args.topics.map (fun topic =>
      indexText ((headers topic bag.messages).map sourceNs)) ∧
    ∀ topic ∈ args.topics, headers topic bag.messages ≠ [] ∧
      Increasing ((headers topic bag.messages).map sourceNs) := by
  simp only [sourceEpoch, bind, Except.bind, pure, Except.pure] at h
  split at h
  · contradiction
  · split at h
    · contradiction
    · next e hscan =>
      split at h
      · contradiction
      · next hwanted =>
        cases h
        have hwanted : e.wanted = [] := by simpa using hwanted
        obtain ⟨h1, h2, h3⟩ := scan_spec hdir hscan
        have hindex : ∀ topic ∈ args.topics,
            e.indexes topic = (headers topic bag.messages).map sourceNs :=
          fun topic ht => h1 topic ht
        constructor
        · exact List.map_congr_left fun topic ht => congrArg indexText (hindex topic ht)
        · intro topic ht
          rw [← hindex topic ht]
          refine ⟨fun hnil => ?_, h2 topic ⟨.nil, nofun⟩⟩
          obtain hin | hin := h3 topic (.inl (by simpa using ht))
          · rw [hwanted] at hin
            contradiction
          · rw [hindex topic ht, hnil] at hin
            contradiction

end Writer

/-! ## what is read -/

theorem formatted_of_pos {x : Int} (h : 0 < x) : formatted x = decimal x.toNat := by
  cases x with
  | ofNat n => rfl
  | negSucc n => exact absurd h (by omega)

/-- What the reader keeps of an index file. -/
def entriesOf (stamps : List Int) (start : Nat) : List (Nat × Nat) :=
  (stamps.zipIdx start).map fun (stamp, ordinal) => (stamp.toNat, ordinal)

section Reader

variable {stamps : List Int} {path : String}

/-- An entry with a new key is appended. -/
theorem emplace_new {index : SourceJobIndex} {key value : Nat}
    (h : ∀ p ∈ index.entries, p.1 < key) :
    index.emplace key value = { entries := index.entries ++ [(key, value)] } := by
  have hfind : index.find key = none := by
    refine List.find?_eq_none.mpr fun p hp => ?_
    have := h p hp
    simp only [decide_eq_true_eq]
    omega
  simp [SourceJobIndex.emplace, hfind]

/-- The loop of the constructor on the lines it has not read yet. -/
theorem readLoop_lines {index : SourceJobIndex} {previous : Nat} {space : List Char}
    (hspace : ∀ c ∈ space, isSpace c = true) (hinc : ((previous : Int) :: stamps).Pairwise (· < ·))
    (hkeys : ∀ p ∈ index.entries, p.1 ≤ previous) (hword : ∀ x ∈ stamps, x < Word.size 64)
    (hlen : index.entries.length + stamps.length < Word.size 64) :
    readLoop path { rest := space ++ linesFrom (index.entries.length + 1) stamps } index previous =
      .ok ({ rest := [], eof := true, fail := true },
        { entries := index.entries ++ entriesOf stamps (index.entries.length + 1) }) := by
  induction stamps generalizing index previous space with
  | nil =>
      have hend := extract_space (w := 64) hspace
      unfold readLoop
      split
      · next input heq =>
        simp only [linesFrom, List.zipIdx_nil, List.flatMap_nil, List.append_nil, hend] at heq
        cases heq
        simp [entriesOf]
      · next heq => simp [linesFrom, hend] at heq
  | cons x stamps ih =>
      obtain ⟨hlt, hinc'⟩ := List.pairwise_cons.mp hinc
      have hprev : (previous : Int) < x := hlt x (List.mem_cons_self ..)
      have hxword := hword x (List.mem_cons_self ..)
      have hordinal : index.entries.length + 1 < Word.size 64 := by
        rw [List.length_cons] at hlen
        omega
      generalize htail : linesFrom (index.entries.length + 1 + 1) stamps = tail
      have htext : space ++ linesFrom (index.entries.length + 1) (x :: stamps) =
          space ++ decimal x.toNat ++
            '\t' :: (decimal (index.entries.length + 1) ++ '\n' :: tail) := by
        rw [← htail]
        simp [linesFrom, line, formatted_of_pos (by omega : 0 < x)]
      have hstamp := @extract_decimal 64
        (decimal (index.entries.length + 1) ++ '\n' :: tail) x.toNat space '\t' hspace rfl
        (by omega)
      have hord : extract 64
          { rest := '\t' :: (decimal (index.entries.length + 1) ++ '\n' :: tail) } =
          (some (index.entries.length + 1), { rest := '\n' :: tail }) :=
        @extract_decimal _ tail _ ['\t'] '\n' (List.forall_mem_singleton.mpr rfl) rfl hordinal
      rw [htext]
      unfold readLoop
      split
      · next heq =>
        rw [hstamp] at heq
        cases heq
      · next stamp input heq =>
        rw [hstamp] at heq
        cases heq
        split
        · next heq =>
          rw [hord] at heq
          cases heq
        · next ordinal input heq =>
          rw [hord] at heq
          cases heq
          have hnew : index.emplace x.toNat (index.entries.length + 1) =
              { entries := index.entries ++ [(x.toNat, index.entries.length + 1)] } :=
            emplace_new fun p hp => by
              have := hkeys p hp
              omega
          rw [if_neg (by omega), hnew]
          have hrest := @ih { entries := index.entries ++ [(x.toNat, index.entries.length + 1)] }
            x.toNat ['\n'] (List.forall_mem_singleton.mpr rfl) ?_ ?_ ?_ ?_
          · simp only [List.length_append, List.length_singleton] at hrest
            rw [htail] at hrest
            rw [← List.singleton_append, hrest]
            simp [entriesOf]
          · have htonat : (x.toNat : Int) = x := Int.toNat_of_nonneg (by omega)
            rw [htonat]
            exact hinc'
          · intro p hp
            obtain hp | hp := List.mem_append.mp hp
            · have := hkeys p hp
              omega
            · rw [List.mem_singleton.mp hp]
          · exact fun y hy => hword y (List.mem_cons_of_mem _ hy)
          · simp only [List.length_append, List.length_singleton]
            rw [List.length_cons] at hlen
            omega

/-- Strictly increasing words are no more than their bound. -/
theorem length_le_of_increasing {previous bound : Int}
    (hinc : (previous :: stamps).Pairwise (· < ·)) (hword : ∀ x ∈ stamps, x ≤ bound)
    (hprev : previous ≤ bound) : previous + stamps.length ≤ bound := by
  induction stamps generalizing previous with
  | nil => simpa using hprev
  | cons x stamps ih =>
      obtain ⟨hlt, hinc'⟩ := List.pairwise_cons.mp hinc
      have hx := hlt x (List.mem_cons_self ..)
      have hrest := ih hinc' (fun y hy => hword y (List.mem_cons_of_mem _ hy))
        (hword x (List.mem_cons_self ..))
      rw [List.length_cons]
      push_cast
      omega

/-- A written index file is accepted. -/
theorem make_indexText (hpath : path ≠ "") (hne : stamps ≠ []) (hinc : Increasing stamps)
    (hword : ∀ x ∈ stamps, x < Word.size 64) :
    SourceJobIndex.make path (some (indexText stamps)) =
      .ok { entries := entriesOf stamps 1 } := by
  have hzero : (((0 : Nat) : Int) :: stamps).Pairwise (· < ·) :=
    List.pairwise_cons.mpr ⟨fun x hx => by simpa using hinc.2 x hx, hinc.1⟩
  have hsize : (0 : Int) < Word.size 64 := by exact_mod_cast Word.size_pos 64
  have hbound : ∀ x ∈ stamps, x ≤ Word.size 64 - 1 := fun x hx => Int.le_sub_one_of_lt (hword x hx)
  have hlength := length_le_of_increasing hzero hbound (by omega)
  have hread := @readLoop_lines stamps path {} 0 [] nofun hzero nofun hword
    (by simp only [List.length_nil]; omega)
  have hentries : entriesOf stamps 1 ≠ [] := by simpa [entriesOf] using hne
  simp only [List.nil_append, List.length_nil, Nat.zero_add] at hread
  simp only [SourceJobIndex.make, if_neg hpath, indexText, hread]
  simp [hentries]

/-- Every timestamp is found under its ordinal. -/
theorem find_entriesOf {start k : Nat} {x : Int} (hinc : Increasing stamps)
    (hk : stamps[k]? = some x) :
    (entriesOf stamps start).find? (·.1 = x.toNat) = some (x.toNat, start + k) := by
  obtain ⟨hpair, hpos⟩ := hinc
  induction stamps generalizing start k with
  | nil => simp at hk
  | cons y stamps ih =>
      obtain ⟨hlt, hpair'⟩ := List.pairwise_cons.mp hpair
      cases k with
      | zero =>
          have hyx : y = x := by simpa using hk
          simp [entriesOf, hyx]
      | succ k =>
          have hk : stamps[k]? = some x := by simpa using hk
          have hyx := hlt x (List.mem_of_getElem? hk)
          have hy := hpos y (List.mem_cons_self ..)
          have hne : ¬y.toNat = x.toNat := by omega
          have hrest := @ih (start + 1) k hk hpair' fun z hz => hpos z (List.mem_cons_of_mem _ hz)
          simp only [entriesOf, List.zipIdx_cons, List.map_cons, List.find?_cons, hne,
            decide_false] at hrest ⊢
          rw [hrest]
          simp
          omega

/-- Nothing else is found. -/
theorem find_entriesOf_none {start key : Nat} (h : ∀ x ∈ stamps, x.toNat ≠ key) :
    (entriesOf stamps start).find? (·.1 = key) = none := by
  refine List.find?_eq_none.mpr fun p hp => ?_
  obtain ⟨q, hq, rfl⟩ := List.mem_map.mp hp
  simpa using h q.1 (List.fst_mem_of_mem_zipIdx hq)

end Reader

/-! ## the timestamps of the two sides -/

/-- Inside the range of ROS time the reader's arithmetic is the writer's. -/
theorem sourceStampNs_eq {stamp : Time} (h : stamp.Ranged) :
    sourceStampNs stamp = .ok (sourceNs stamp).toNat ∧ sourceNs stamp < Word.size 64 := by
  obtain ⟨h1, h2, h3⟩ := h
  have hsec : (stamp.sec.toNat : Int) = stamp.sec := Int.toNat_of_nonneg h1
  have hsize : Word.size 64 = 18446744073709551616 := rfl
  have hns : (sourceNs stamp).toNat = stamp.sec.toNat * 1000000000 + stamp.nanosec := by
    unfold sourceNs
    omega
  constructor
  · rw [sourceStampNs, if_neg (by omega), hns, Nat.mod_eq_of_lt (by omega)]
  · unfold sourceNs
    omega

/-- The identity of a timestamp in the index of a topic. -/
theorem jobId_entriesOf {stamps : List Int} {key c : Nat} (hne : stamps ≠ []) :
    ({ entries := entriesOf stamps 1 } : SourceJobIndex).jobId key c =
      match (entriesOf stamps 1).find? (·.1 = key) with
      | none => .error "timestamp absent from bag index"
      | some found => .ok found.2 := by
  have hentries : entriesOf stamps 1 ≠ [] := by simpa [entriesOf] using hne
  simp only [SourceJobIndex.jobId, if_neg hentries]
  rfl

end ScxSlam.BagIndex
