import Mathlib.Data.List.TakeWhile
import Mathlib.Tactic.Common

/-!
# ScxSlam.Lib.Account

An account of every item that ever entered a queue with one consumer.

A queue forgets what left it.  The account keeps one entry for each item that
was offered, in the order of the offers, with what became of it: it waits, it
was pruned where it stood, the consumer holds it, or the consumer is done with
it.  Each operation of the queue is an operation of the account that changes
the fate of the entries it concerns and nothing else, so counting entries
gives every conservation law, and the consumer's order is the order of the
entries.
-/

namespace ScxSlam.Account

/-! ## entries -/

/-- What became of an item, and when; `kept` tells what the consumer finished
from what it threw away. -/
inductive Fate
  | waiting
  | pruned (time : Nat)
  | held (taken : Nat)
  | closed (taken time : Nat) (kept : Bool)
  deriving DecidableEq, Repr

structure Entry (α : Type) where
  item : α
  offered : Nat
  fate : Fate := .waiting
  deriving DecidableEq, Repr

namespace Entry

variable {α : Type}

def isWaiting (e : Entry α) : Bool := e.fate = .waiting

/-- An entry that waits has an item and the time of its offer. -/
theorem eq_of_isWaiting {e : Entry α} (h : e.isWaiting = true) :
    ∃ y o, e = ⟨y, o, .waiting⟩ :=
  ⟨e.item, e.offered, by rw [← of_decide_eq_true h]⟩

def prunedAt (e : Entry α) : Option Nat :=
  match e.fate with
  | .pruned t => some t
  | _ => none

def takenAt (e : Entry α) : Option Nat :=
  match e.fate with
  | .held t | .closed t _ _ => some t
  | _ => none

def keptAt (e : Entry α) : Option Nat :=
  match e.fate with
  | .closed _ t true => some t
  | _ => none

def droppedAt (e : Entry α) : Option Nat :=
  match e.fate with
  | .closed _ t false => some t
  | _ => none

/-- The times of an entry are in order and not in the future. -/
def Timed (now : Nat) (e : Entry α) : Prop :=
  match e.fate with
  | .waiting => e.offered ≤ now
  | .pruned t | .held t => e.offered ≤ t ∧ t ≤ now
  | .closed t t' _ => e.offered ≤ t ∧ t ≤ t' ∧ t' ≤ now

/-- What was stamped in time stays so. -/
theorem Timed.mono {now now' : Nat} {e : Entry α} (h : e.Timed now) (hle : now ≤ now') :
    e.Timed now' := by
  unfold Timed at *
  cases hf : e.fate <;> simp only [hf] at h ⊢ <;> omega

def prune (now : Nat) (p : α → Bool) (e : Entry α) : Entry α :=
  if e.isWaiting && p e.item then { e with fate := .pruned now } else e

def take (now : Nat) (e : Entry α) : Entry α := { e with fate := .held now }

def close (now : Nat) (kept : Bool) (e : Entry α) : Entry α :=
  match e.fate with
  | .held t => { e with fate := .closed t now kept }
  | _ => e

/-- Pruning changes no item. -/
@[simp] theorem item_prune (now : Nat) (p : α → Bool) (e : Entry α) :
    (e.prune now p).item = e.item := by
  unfold prune
  split <;> rfl

/-- Pruning takes the entries it is told to out of the waiting. -/
@[simp] theorem isWaiting_prune (now : Nat) (p : α → Bool) (e : Entry α) :
    (e.prune now p).isWaiting = (e.isWaiting && !p e.item) := by
  unfold prune
  cases hw : e.isWaiting <;> cases hp : p e.item <;> simp [isWaiting] at hw ⊢ <;> exact hw

/-- Closing changes no item. -/
@[simp] theorem item_close (now : Nat) (kept : Bool) (e : Entry α) :
    (e.close now kept).item = e.item := by
  unfold close
  split <;> rfl

end Entry

/-! ## the account -/

/-- The entries the consumer is past, the one it holds, and those after it. -/
structure Book (α : Type) where
  settled : List (Entry α) := []
  current : Option (Entry α) := none
  waiting : List (Entry α) := []
  deriving DecidableEq, Repr

namespace Book

variable {α : Type}

/-- Every entry, in the order of the offers. -/
def entries (b : Book α) : List (Entry α) := b.settled ++ b.current.toList ++ b.waiting

/-- What the queue holds. -/
def queued (b : Book α) : List α := (b.waiting.filter (·.isWaiting)).map (·.item)

/-- What the consumer finished, in its order. -/
def kept (b : Book α) : List α := (b.settled.filter (·.keptAt.isSome)).map (·.item)

def count (q : Entry α → Bool) (b : Book α) : Nat := b.entries.countP q

/-- An item is pushed. -/
def offer (now : Nat) (x : α) (b : Book α) : Book α :=
  { b with waiting := b.waiting ++ [{ item := x, offered := now }] }

/-- The queue drops what `p` says. -/
def prune (now : Nat) (p : α → Bool) (b : Book α) : Book α :=
  { b with waiting := b.waiting.map (Entry.prune now p) }

/-- The consumer takes the head of the queue. -/
def take (now : Nat) (b : Book α) : Book α :=
  match b.waiting.dropWhile (!·.isWaiting) with
  | [] => b
  | e :: rest =>
      { settled := b.settled ++ b.waiting.takeWhile (!·.isWaiting)
        current := some (e.take now)
        waiting := rest }

/-- The consumer is done with its item. -/
def close (now : Nat) (kept : Bool) (b : Book α) : Book α :=
  match b.current with
  | none => b
  | some e => { b with settled := b.settled ++ [e.close now kept], current := none }

/-- The consumer is past what it is past, holds at most one item, and the rest
waits or was pruned. -/
structure Sound (now : Nat) (b : Book α) : Prop where
  settled : ∀ e ∈ b.settled, e.isWaiting = false ∧ ∀ t, e.fate ≠ .held t
  current : ∀ e ∈ b.current, ∃ t, e.fate = .held t
  waiting : ∀ e ∈ b.waiting, e.isWaiting = true ∨ ∃ t, e.fate = .pruned t
  timed : ∀ e ∈ b.entries, e.Timed now

variable {b : Book α} {now : Nat} {x : α} {p : α → Bool} {rest : List α} {e : Entry α}

/-- An entry is settled, the one at hand, or waiting. -/
@[simp] theorem mem_entries :
    e ∈ b.entries ↔ e ∈ b.settled ∨ e ∈ b.current ∨ e ∈ b.waiting := by
  simp [entries]

/-- What was stamped in time stays so. -/
theorem Sound.mono {now' : Nat} (h : b.Sound now) (hle : now ≤ now') : b.Sound now' :=
  { h with timed := fun e he => (h.timed e he).mono hle }

/-- The empty book. -/
theorem sound_empty (now : Nat) : ({} : Book α).Sound now :=
  ⟨nofun, nofun, nofun, nofun⟩

/-! ## offers -/

/-- An offered item comes last. -/
@[simp] theorem items_offer (b : Book α) (now : Nat) (x : α) :
    (b.offer now x).entries.map (·.item) = b.entries.map (·.item) ++ [x] := by
  simp [entries, offer]

@[simp] theorem queued_offer (b : Book α) (now : Nat) (x : α) :
    (b.offer now x).queued = b.queued ++ [x] := by
  simp [queued, offer, Entry.isWaiting]

@[simp] theorem current_offer (b : Book α) (now : Nat) (x : α) :
    (b.offer now x).current = b.current := rfl

@[simp] theorem kept_offer (b : Book α) (now : Nat) (x : α) : (b.offer now x).kept = b.kept := rfl

/-- One more entry is counted, if it counts. -/
theorem count_offer (q : Entry α → Bool) (b : Book α) (now : Nat) (x : α) :
    count q (b.offer now x) = count q b + (q { item := x, offered := now }).toNat := by
  unfold count
  rw [show (b.offer now x).entries = b.entries ++ [{ item := x, offered := now }] by
    simp [entries, offer], List.countP_append, List.countP_singleton]
  cases q { item := x, offered := now } <;> rfl

/-- Offering keeps the book. -/
theorem Sound.offer (h : b.Sound now) (x : α) : (b.offer now x).Sound now where
  settled := h.settled
  current := h.current
  waiting e he := by
    obtain he | he := List.mem_append.mp he
    · exact h.waiting e he
    · cases List.mem_singleton.mp he
      exact .inl rfl
  timed e he := by
    obtain he | he | he := mem_entries.mp he
    · exact h.timed e (mem_entries.mpr (.inl he))
    · exact h.timed e (mem_entries.mpr (.inr (.inl he)))
    · obtain he | he := List.mem_append.mp he
      · exact h.timed e (mem_entries.mpr (.inr (.inr he)))
      · cases List.mem_singleton.mp he
        exact Nat.le_refl now

/-! ## pruning -/

/-- Pruning loses no item. -/
@[simp] theorem items_prune (b : Book α) (now : Nat) (p : α → Bool) :
    (b.prune now p).entries.map (·.item) = b.entries.map (·.item) := by
  simp [entries, prune, Function.comp_def]

/-- What is pruned leaves the queue. -/
@[simp] theorem queued_prune (b : Book α) (now : Nat) (p : α → Bool) :
    (b.prune now p).queued = b.queued.filter (!p ·) := by
  unfold queued prune
  dsimp only
  induction b.waiting with
  | nil => rfl
  | cons e l ih =>
      rw [List.map_cons, List.filter_cons, List.filter_cons, Entry.isWaiting_prune]
      cases hw : e.isWaiting with
      | false => simpa using ih
      | true => cases hp : p e.item <;> simp [hp, ih]

@[simp] theorem current_prune (b : Book α) (now : Nat) (p : α → Bool) :
    (b.prune now p).current = b.current := rfl

@[simp] theorem kept_prune (b : Book α) (now : Nat) (p : α → Bool) :
    (b.prune now p).kept = b.kept := rfl

/-- Pruning counts the items it drops, where it is counted at all. -/
theorem count_prune {q : Entry α → Bool} {c : Bool}
    (hq : ∀ y o, q ⟨y, o, .pruned now⟩ = (q ⟨y, o, .waiting⟩ || c))
    (hc : c = true → ∀ y o, q ⟨y, o, .waiting⟩ = false) :
    count q (b.prune now p) = count q b + if c then b.queued.countP p else 0 := by
  have hwaiting : (b.waiting.map (Entry.prune now p)).countP q =
      b.waiting.countP q + if c then b.queued.countP p else 0 := by
    unfold queued
    induction b.waiting with
    | nil => cases c <;> rfl
    | cons e l ih =>
        rw [List.map_cons, List.countP_cons, List.countP_cons, ih, List.filter_cons]
        unfold Entry.prune
        cases hw : e.isWaiting with
        | false =>
            simp only [Bool.false_and, Bool.false_eq_true, if_false]
            omega
        | true =>
            obtain ⟨y, o, rfl⟩ := Entry.eq_of_isWaiting hw
            cases hp : p y with
            | false =>
                cases c
                · simp
                · simp [hp]
                  omega
            | true =>
                cases c with
                | false => simp [hq y o]
                | true =>
                    simp [hq y o, hc rfl y o, hp]
                    omega
  simp only [count, entries, prune, List.countP_append, hwaiting]
  omega

/-- Pruning keeps the book. -/
theorem Sound.prune (h : b.Sound now) (p : α → Bool) : (b.prune now p).Sound now where
  settled := h.settled
  current := h.current
  waiting e he := by
    obtain ⟨e', he', rfl⟩ := List.mem_map.mp he
    unfold Entry.prune
    split
    · exact .inr ⟨now, rfl⟩
    · exact h.waiting e' he'
  timed e he := by
    obtain he | he | he := mem_entries.mp he
    · exact h.timed e (mem_entries.mpr (.inl he))
    · exact h.timed e (mem_entries.mpr (.inr (.inl he)))
    · obtain ⟨e', he', rfl⟩ := List.mem_map.mp he
      have ht := h.timed e' (mem_entries.mpr (.inr (.inr he')))
      unfold Entry.prune
      split
      · next hp =>
        have hw : e'.fate = .waiting := by
          simpa [Entry.isWaiting] using (Bool.and_eq_true_iff.mp hp).1
        simp only [Entry.Timed, hw] at ht
        exact ⟨ht, Nat.le_refl now⟩
      · exact ht

/-! ## taking -/

/-- What taking does to the account of a queue that is not empty. -/
theorem take_spec (h : b.queued = x :: rest) :
    ∃ e before after, b.waiting = before ++ e :: after ∧ e.isWaiting = true ∧ e.item = x ∧
      b.take now =
        { settled := b.settled ++ before, current := some (e.take now), waiting := after } ∧
      (∀ e' ∈ before, e'.isWaiting = false) := by
  obtain ⟨settled, current, waiting⟩ := b
  simp only [queued] at h
  have hsplit :=
    List.takeWhile_append_dropWhile (p := fun e : Entry α => !e.isWaiting) (l := waiting)
  have hbefore : ∀ e' ∈ waiting.takeWhile (!·.isWaiting), e'.isWaiting = false := by
    intro e' he'
    simpa using List.mem_takeWhile_imp he'
  have hfilter : (waiting.dropWhile (!·.isWaiting)).filter (·.isWaiting) =
      waiting.filter (·.isWaiting) := by
    have hnil : (waiting.takeWhile (!·.isWaiting)).filter (·.isWaiting) = [] :=
      List.filter_eq_nil_iff.mpr fun e' he' => by simp [hbefore e' he']
    conv_rhs => rw [← hsplit, List.filter_append, hnil, List.nil_append]
  unfold take
  dsimp only
  cases hdrop : waiting.dropWhile (!·.isWaiting) with
  | nil =>
      rw [← hfilter, hdrop] at h
      contradiction
  | cons e after =>
      have hhead : e.isWaiting = true := by
        have hne : waiting.dropWhile (!·.isWaiting) ≠ [] := by simp [hdrop]
        have hnot := List.head_dropWhile_not (fun e : Entry α => !e.isWaiting) hne
        simpa [hdrop] using hnot
      rw [← hfilter, hdrop, List.filter_cons_of_pos hhead, List.map_cons, List.cons.injEq] at h
      exact ⟨e, _, after, by rw [← hdrop, hsplit], hhead, h.1, rfl, hbefore⟩

/-- There is nothing to take from an empty queue. -/
theorem take_of_queued_nil (h : b.queued = []) : b.take now = b := by
  have hdrop : b.waiting.dropWhile (!·.isWaiting) = [] := by
    rw [List.dropWhile_eq_nil_iff]
    intro e he
    have hfilter : b.waiting.filter (·.isWaiting) = [] := List.map_eq_nil_iff.mp h
    simpa using List.filter_eq_nil_iff.mp hfilter e he
  unfold take
  rw [hdrop]

/-- The head of the queue is taken. -/
theorem queued_take (h : b.queued = x :: rest) : (b.take now).queued = rest := by
  obtain ⟨e, before, after, hw, he, -, htake, hbefore⟩ := @take_spec α b now x rest h
  have hnil : before.filter (·.isWaiting) = [] :=
    List.filter_eq_nil_iff.mpr fun e' he' => by simp [hbefore e' he']
  rw [queued, hw, List.filter_append, hnil, List.nil_append, List.filter_cons_of_pos he,
    List.map_cons] at h
  rw [htake]
  exact (List.cons.inj h).2

/-- The head of the queue is the item at hand. -/
theorem current_take (h : b.queued = x :: rest) :
    ∃ e, (b.take now).current = some e ∧ e.item = x := by
  obtain ⟨e, before, after, -, -, hx, htake, -⟩ := @take_spec α b now x rest h
  exact ⟨e.take now, by rw [htake], hx⟩

/-- Taking keeps the entries but for the fate of one of them. -/
theorem entries_take (h : b.queued = x :: rest) (hcurrent : b.current = none) :
    ∃ e before after, b.entries = before ++ e :: after ∧ e.isWaiting = true ∧
      (b.take now).entries = before ++ e.take now :: after := by
  obtain ⟨e, before, after, hw, he, -, htake, -⟩ := @take_spec α b now x rest h
  refine ⟨e, b.settled ++ before, after, ?_, he, ?_⟩
  · simp [entries, hw, hcurrent]
  · simp [entries, htake]

/-- Taking changes no item, and keeps their order. -/
theorem items_take (h : b.queued = x :: rest) (hcurrent : b.current = none) :
    (b.take now).entries.map (·.item) = b.entries.map (·.item) := by
  obtain ⟨e, before, after, hb, -, htake⟩ := @entries_take α b now x rest h hcurrent
  rw [hb, htake]
  simp [Entry.take]

/-- A count that looks at what is taken goes up by the entry taken. -/
theorem count_take {q : Entry α → Bool} {c : Bool} (h : b.queued = x :: rest)
    (hcurrent : b.current = none)
    (hq : ∀ y o, q ⟨y, o, .held now⟩ = (q ⟨y, o, .waiting⟩ || c))
    (hc : c = true → ∀ y o, q ⟨y, o, .waiting⟩ = false) :
    count q (b.take now) = count q b + c.toNat := by
  obtain ⟨e, before, after, hb, he, htake⟩ := @entries_take α b now x rest h hcurrent
  obtain ⟨y, o, rfl⟩ := Entry.eq_of_isWaiting he
  unfold count
  rw [hb, htake]
  simp only [List.countP_append, List.countP_cons, Entry.take, hq y o]
  cases c with
  | false => simp
  | true =>
      simp [hc rfl y o]
      omega

/-- Taking closes nothing. -/
theorem Sound.kept_take (hs : b.Sound now) (h : b.queued = x :: rest) :
    (b.take now).kept = b.kept := by
  obtain ⟨e, before, after, hw, -, -, htake, hbefore⟩ := @take_spec α b now x rest h
  have hnil : before.filter (·.keptAt.isSome) = [] := by
    refine List.filter_eq_nil_iff.mpr fun e' he' => ?_
    obtain hwait | ⟨t, ht⟩ := hs.waiting e' (hw ▸ List.mem_append_left _ he')
    · rw [hbefore e' he'] at hwait
      contradiction
    · simp [Entry.keptAt, ht]
  rw [kept, htake]
  simp [kept, List.filter_append, hnil]

/-- Taking keeps the book. -/
theorem Sound.take (hs : b.Sound now) (h : b.queued = x :: rest) : (b.take now).Sound now := by
  obtain ⟨e, before, after, hw, he, -, htake, hbefore⟩ := @take_spec α b now x rest h
  rw [htake]
  constructor
  case settled =>
      intro e' he'
      obtain he' | he' := List.mem_append.mp he'
      · exact hs.settled e' he'
      · refine ⟨hbefore e' he', fun t ht => ?_⟩
        obtain hwait | ⟨t', ht'⟩ := hs.waiting e' (hw ▸ List.mem_append_left _ he')
        · rw [hbefore e' he'] at hwait
          contradiction
        · rw [ht'] at ht
          contradiction
  case current =>
      intro e' he'
      cases he'
      exact ⟨now, rfl⟩
  case waiting => exact fun e' he' => hs.waiting e' (hw ▸ by simp [he'])
  case timed =>
      intro e' he'
      have hmem : ∀ e'', e'' ∈ b.settled ∨ e'' ∈ before ++ e :: after → e''.Timed now := by
        rintro e'' (he'' | he'')
        · exact hs.timed e'' (mem_entries.mpr (.inl he''))
        · exact hs.timed e'' (mem_entries.mpr (.inr (.inr (hw ▸ he''))))
      obtain he' | he' | he' := mem_entries.mp he'
      · obtain he' | he' := List.mem_append.mp he'
        · exact hmem e' (.inl he')
        · exact hmem e' (.inr (List.mem_append_left _ he'))
      · cases he'
        have ht := hmem e (.inr (by simp))
        have hfate : e.fate = .waiting := by simpa [Entry.isWaiting] using he
        simp only [Entry.Timed, hfate] at ht
        exact ⟨ht, Nat.le_refl now⟩
      · exact hmem e' (.inr (by simp [he']))

/-! ## closing -/

/-- Closing keeps the entries but for the fate of the one that was held. -/
theorem entries_close (kept : Bool) (h : b.current = some e) :
    ∃ before after, b.entries = before ++ e :: after ∧
      (b.close now kept).entries = before ++ e.close now kept :: after := by
  refine ⟨b.settled, b.waiting, ?_, ?_⟩
  · simp [entries, h]
  · simp [entries, close, h]

/-- Closing changes no item, and keeps their order. -/
theorem items_close (b : Book α) (now : Nat) (kept : Bool) :
    (b.close now kept).entries.map (·.item) = b.entries.map (·.item) := by
  cases h : b.current with
  | none => simp [close, h]
  | some e =>
      obtain ⟨before, after, hb, hclose⟩ := @entries_close α b now e kept h
      rw [hb, hclose]
      simp

/-- Closing leaves the queue alone. -/
@[simp] theorem queued_close (b : Book α) (now : Nat) (kept : Bool) :
    (b.close now kept).queued = b.queued := by
  unfold close
  split <;> rfl

/-- Behind a close nothing is at hand. -/
@[simp] theorem current_close (b : Book α) (now : Nat) (kept : Bool) :
    (b.close now kept).current = none := by
  unfold close
  split
  · next h => exact h
  · rfl

/-- A count that looks at what is closed goes up by the entry closed. -/
theorem count_close {q : Entry α → Bool} {c kept : Bool} (hs : b.Sound now)
    (h : b.current = some e)
    (hq : ∀ y o t, q ⟨y, o, .closed t now kept⟩ = (q ⟨y, o, .held t⟩ || c))
    (hc : c = true → ∀ y o t, q ⟨y, o, .held t⟩ = false) :
    count q (b.close now kept) = count q b + c.toNat := by
  obtain ⟨t, ht⟩ := hs.current e (by simp [h])
  obtain ⟨before, after, hb, hclose⟩ := @entries_close α b now e kept h
  obtain ⟨y, o, fate⟩ := e
  cases ht
  unfold count
  rw [hb, hclose]
  simp only [List.countP_append, List.countP_cons, Entry.close, hq y o t]
  cases c with
  | false => simp
  | true =>
      simp [hc rfl y o t]
      omega

/-- The item closed is kept, if it is closed as one to keep. -/
theorem Sound.kept_close (hs : b.Sound now) (h : b.current = some e) (kept : Bool) :
    (b.close now kept).kept = b.kept ++ if kept then [e.item] else [] := by
  obtain ⟨t, ht⟩ := hs.current e (by simp [h])
  unfold close
  rw [h]
  cases kept <;> simp [Book.kept, List.filter_append, Entry.close, ht, Entry.keptAt]

/-- Closing keeps the book. -/
theorem Sound.close (hs : b.Sound now) (kept : Bool) : (b.close now kept).Sound now := by
  cases h : b.current with
  | none =>
      rw [show b.close now kept = b by simp [Book.close, h]]
      exact hs
  | some e =>
      obtain ⟨t, ht⟩ := hs.current e (by simp [h])
      have heq : e.close now kept = { e with fate := .closed t now kept } := by
        simp [Entry.close, ht]
      have hclose : b.close now kept =
          { b with settled := b.settled ++ [e.close now kept], current := none } := by
        simp [Book.close, h]
      rw [hclose, heq]
      constructor
      case settled =>
          intro e' he'
          obtain he' | he' := List.mem_append.mp he'
          · exact hs.settled e' he'
          · cases List.mem_singleton.mp he'
            exact ⟨rfl, nofun⟩
      case current => nofun
      case waiting => exact hs.waiting
      case timed =>
          intro e' he'
          obtain he' | he' | he' := mem_entries.mp he'
          · obtain he' | he' := List.mem_append.mp he'
            · exact hs.timed e' (mem_entries.mpr (.inl he'))
            · cases List.mem_singleton.mp he'
              have htimed := hs.timed e (mem_entries.mpr (.inr (.inl (by simp [h]))))
              simp only [Entry.Timed, ht] at htimed
              exact ⟨htimed.1, htimed.2, Nat.le_refl now⟩
          · contradiction
          · exact hs.timed e' (mem_entries.mpr (.inr (.inr he')))

/-! ## balances -/

/-- Every entry has exactly one fate. -/
theorem length_entries (b : Book α) :
    b.entries.length = count (·.keptAt.isSome) b + count (·.droppedAt.isSome) b +
      count (·.prunedAt.isSome) b + count (·.isWaiting) b +
      count (fun e => e.takenAt.isSome && e.keptAt.isNone && e.droppedAt.isNone) b := by
  unfold count
  induction b.entries with
  | nil => rfl
  | cons e l ih =>
      simp only [List.length_cons, List.countP_cons, ih]
      obtain ⟨item, offered, fate⟩ := e
      cases fate with
      | closed t t' kept =>
          cases kept <;>
            simp [Entry.keptAt, Entry.droppedAt, Entry.prunedAt, Entry.isWaiting, Entry.takenAt] <;>
            omega
      | _ =>
          simp [Entry.keptAt, Entry.droppedAt, Entry.prunedAt, Entry.isWaiting, Entry.takenAt]
          omega

/-- What waits is the queue. -/
theorem Sound.count_isWaiting (hs : b.Sound now) : count (·.isWaiting) b = b.queued.length := by
  have hsettled : b.settled.countP (·.isWaiting) = 0 :=
    List.countP_eq_zero.mpr fun e he => by simp [(hs.settled e he).1]
  have hcurrent : b.current.toList.countP (·.isWaiting) = 0 := by
    refine List.countP_eq_zero.mpr fun e he => ?_
    obtain ⟨t, ht⟩ := hs.current e (by simpa using he)
    simp [Entry.isWaiting, ht]
  rw [count, entries, List.countP_append, List.countP_append, hsettled, hcurrent, queued,
    List.length_map, List.countP_eq_length_filter, Nat.add_zero, Nat.zero_add]

/-- The consumer finished what it is past. -/
theorem Sound.length_kept (hs : b.Sound now) : b.kept.length = count (·.keptAt.isSome) b := by
  have hcurrent : b.current.toList.countP (·.keptAt.isSome) = 0 := by
    refine List.countP_eq_zero.mpr fun e he => ?_
    obtain ⟨t, ht⟩ := hs.current e (by simpa using he)
    simp [Entry.keptAt, ht]
  have hwaiting : b.waiting.countP (·.keptAt.isSome) = 0 := by
    refine List.countP_eq_zero.mpr fun e he => ?_
    obtain hw | ⟨t, ht⟩ := hs.waiting e he
    · have hfate : e.fate = .waiting := by simpa [Entry.isWaiting] using hw
      simp [Entry.keptAt, hfate]
    · simp [Entry.keptAt, ht]
  rw [count, entries, List.countP_append, List.countP_append, hcurrent, hwaiting, kept,
    List.length_map, List.countP_eq_length_filter]
  rfl

/-- It finished what it was offered, in the order of the offers. -/
theorem kept_sublist (b : Book α) : b.kept.Sublist (b.entries.map (·.item)) := by
  have hsettled : b.settled.Sublist b.entries :=
    (List.sublist_append_left ..).trans (List.sublist_append_left ..)
  exact (List.filter_sublist.trans hsettled).map _

/-- An entry that is taken and not closed is the one that is held. -/
theorem Sound.count_held (hs : b.Sound now) :
    count (fun e => e.takenAt.isSome && e.keptAt.isNone && e.droppedAt.isNone) b =
      b.current.toList.length := by
  have hsettled : b.settled.countP
      (fun e => e.takenAt.isSome && e.keptAt.isNone && e.droppedAt.isNone) = 0 := by
    refine List.countP_eq_zero.mpr fun e he => ?_
    obtain ⟨hw, hheld⟩ := hs.settled e he
    obtain ⟨item, offered, fate⟩ := e
    cases fate with
    | held t => exact absurd rfl (hheld t)
    | closed t t' kept => cases kept <;> simp [Entry.takenAt, Entry.keptAt, Entry.droppedAt]
    | _ => simp [Entry.takenAt]
  have hwaiting : b.waiting.countP
      (fun e => e.takenAt.isSome && e.keptAt.isNone && e.droppedAt.isNone) = 0 := by
    refine List.countP_eq_zero.mpr fun e he => ?_
    obtain hw | ⟨t, ht⟩ := hs.waiting e he
    · have hfate : e.fate = .waiting := by simpa [Entry.isWaiting] using hw
      simp [Entry.takenAt, hfate]
    · simp [Entry.takenAt, ht]
  unfold count entries
  rw [List.countP_append, List.countP_append, hsettled, hwaiting]
  cases h : b.current with
  | none => rfl
  | some e =>
      obtain ⟨t, ht⟩ := hs.current e (by simp [h])
      simp [Entry.takenAt, Entry.keptAt, Entry.droppedAt, ht]

/-- What was offered early and not taken or pruned early. -/
theorem Sound.count_offered {early : Nat → Bool} (hs : b.Sound now)
    (hearly : ∀ t t', t ≤ t' → early t' = true → early t = true) :
    count (fun e => early e.offered) b =
      count (fun e => early e.offered && !e.takenAt.any early && !e.prunedAt.any early) b +
        count (·.takenAt.any early) b + count (·.prunedAt.any early) b := by
  have htimed := hs.timed
  unfold count
  revert htimed
  generalize b.entries = l
  intro htimed
  induction l with
  | nil => rfl
  | cons e l ih =>
      have hrest := ih fun e' he' => htimed e' (List.mem_cons_of_mem _ he')
      have he := htimed e (List.mem_cons_self ..)
      simp only [List.countP_cons]
      have hone : (if early e.offered then 1 else 0) =
          (if early e.offered && !e.takenAt.any early && !e.prunedAt.any early then 1 else 0) +
            (if e.takenAt.any early then 1 else 0) +
            (if e.prunedAt.any early then 1 else 0) := by
        obtain ⟨item, offered, fate⟩ := e
        have hle : ∀ t, offered ≤ t → early t = true → early offered = true := hearly offered
        cases fate with
        | waiting => simp [Entry.takenAt, Entry.prunedAt]
        | pruned t =>
            have := hle t he.1
            cases hoff : early offered <;> cases ht : early t <;>
              simp_all [Entry.takenAt, Entry.prunedAt]
        | held t =>
            have := hle t he.1
            cases hoff : early offered <;> cases ht : early t <;>
              simp_all [Entry.takenAt, Entry.prunedAt]
        | closed t t' kept =>
            have := hle t he.1
            cases hoff : early offered <;> cases ht : early t <;>
              simp_all [Entry.takenAt, Entry.prunedAt]
      omega

end Book

end ScxSlam.Account
