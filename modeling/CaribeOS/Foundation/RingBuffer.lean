import Mathlib.Data.List.Destutter
import Mathlib.Data.List.DropRight
import Mathlib.Data.List.GetD
import Mathlib.Tactic

/-!
# Rings that keep the last entries

A ring has a fixed number of slots, a count of the entries and the slot that is written next. It is
filled from its first slot on, and then the oldest entry is overwritten. Read from the oldest entry
on, it holds the last entries that were pushed (`Wf.contents_push`).

An entry that repeats the one before it is often left out. What is then kept is the list of all
entries without repetitions in a row, and this list grows at its end (`destutter_concat`).
-/

/-- A ring of slots. -/
structure RingBuffer (α : Type) where
  slots : List α
  count : ℕ
  next : ℕ

namespace RingBuffer

variable {α : Type} (r : RingBuffer α) (dflt : α)

def size : ℕ := r.slots.length

/-- The slot of the entry that is `i`-th from the oldest one. -/
def slot (i : ℕ) : ℕ := ((if r.count < r.size then 0 else r.next % r.size) + i) % r.size

/-- The slot that was written last. -/
def lastSlot : ℕ := (r.next + r.size - 1) % r.size

/-- The entries, the oldest first. -/
def contents : List α := (List.range r.count).map fun i ↦ r.slots.getD (r.slot i) dflt

/-- Write an entry to the next slot. -/
def push (x : α) : RingBuffer α where
  slots := r.slots.set r.next x
  count := if r.count < r.size then r.count + 1 else r.count
  next := (r.next + 1) % r.size

/-- The indices are in range, and a ring that is not full has been filled from the start. -/
structure Wf : Prop where
  pos : 0 < r.size
  count_le : r.count ≤ r.size
  next_lt : r.next < r.size
  filling : r.count < r.size → r.next = r.count

variable {r} {dflt}

@[simp] theorem length_contents : (r.contents dflt).length = r.count := by
  rw [contents, List.length_map, List.length_range]

theorem getElem?_contents {i : ℕ} (hi : i < r.count) :
    (r.contents dflt)[i]? = some (r.slots.getD (r.slot i) dflt) := by
  rw [contents, List.getElem?_map, List.getElem?_range hi]
  rfl

theorem size_push (x : α) : (r.push x).size = r.size := List.length_set

namespace Wf

theorem slot_lt (h : r.Wf) (i : ℕ) : r.slot i < r.size := Nat.mod_lt _ h.pos

theorem push (h : r.Wf) (x : α) : (r.push x).Wf := by
  have hsize : (r.push x).size = r.size := size_push x
  obtain ⟨hpos, hcount, hnext, hfilling⟩ := h
  constructor
  · rwa [hsize]
  · rw [hsize, RingBuffer.push]
    dsimp only
    split_ifs <;> omega
  · rw [hsize]
    exact Nat.mod_lt _ hpos
  · rw [hsize, RingBuffer.push]
    split_ifs with hless
    · intro hlt
      rw [hfilling hless, Nat.mod_eq_of_lt hlt]
    · intro hlt
      exact absurd hlt hless

theorem contents_push_of_lt (h : r.Wf) (x : α) (hless : r.count < r.size) :
    (r.push x).contents dflt = r.contents dflt ++ [x] := by
  have hnext := h.filling hless
  have hslot : ∀ i ≤ r.count, (r.push x).slot i = i := by
    intro i hi
    rw [slot, size_push]
    have hbase : (if (r.push x).count < r.size then 0 else (r.push x).next % r.size) = 0 := by
      rw [RingBuffer.push, if_pos hless, hnext]
      dsimp only
      split_ifs with hfull
      · rfl
      · rw [show r.count + 1 = r.size by omega, Nat.mod_self, Nat.zero_mod]
    rw [hbase, Nat.zero_add, Nat.mod_eq_of_lt (by omega)]
  have hcount : (r.push x).count = r.count + 1 := if_pos hless
  rw [contents, hcount, List.range_succ, List.map_append, List.map_singleton, hslot _ le_rfl]
  have hlast : (r.push x).slots.getD r.count dflt = x := by
    rw [RingBuffer.push, hnext, List.getD_eq_getElem?_getD, List.getElem?_set_self hless]
    rfl
  rw [hlast, contents]
  congr 1
  refine List.map_congr_left fun i hi ↦ ?_
  have hi' := List.mem_range.mp hi
  have hold : r.slot i = i := by
    rw [slot, if_pos hless, Nat.zero_add, Nat.mod_eq_of_lt (by omega)]
  rw [hslot i hi'.le, hold, RingBuffer.push, hnext, List.getD_eq_getElem?_getD,
    List.getElem?_set_ne (by omega), ← List.getD_eq_getElem?_getD]

/-- In a full ring the oldest entry makes room. -/
theorem contents_push_of_eq (h : r.Wf) (x : α) (hfull : r.count = r.size) :
    (r.push x).contents dflt = (r.contents dflt).drop 1 ++ [x] := by
  have hnext := h.next_lt
  have hless : ¬r.count < r.size := by omega
  have hcount : (r.push x).count = r.count := if_neg hless
  have hslot : ∀ i, (r.push x).slot i = (r.next + 1 + i) % r.size := by
    intro i
    rw [slot, size_push, hcount, if_neg hless, RingBuffer.push, Nat.mod_mod, Nat.mod_add_mod]
  obtain ⟨n, hn⟩ : ∃ n, r.size = n + 1 := ⟨r.size - 1, by omega⟩
  have hlast : (r.push x).slots.getD ((r.push x).slot n) dflt = x := by
    rw [hslot, show r.next + 1 + n = r.next + r.size by omega, Nat.add_mod_right,
      Nat.mod_eq_of_lt hnext, RingBuffer.push, List.getD_eq_getElem?_getD,
      List.getElem?_set_self (show r.next < r.slots.length from hnext)]
    rfl
  rw [contents, hcount, hfull, hn, List.range_succ, List.map_append, List.map_singleton, hlast,
    contents, hfull, hn, List.range_succ_eq_map, List.map_cons, List.drop_one, List.tail_cons,
    List.map_map]
  congr 1
  refine List.map_congr_left fun i hi ↦ ?_
  have hi' := List.mem_range.mp hi
  -- the other entries are read one slot further on, and none of these is the one written
  have hne : r.next ≠ (r.next + 1 + i) % r.size := by
    rcases Nat.lt_or_ge (r.next + 1 + i) r.size with hlt | hge
    · rw [Nat.mod_eq_of_lt hlt]
      omega
    · rw [Nat.mod_eq_sub_mod hge, Nat.mod_eq_of_lt (by omega)]
      omega
  rw [hslot, Function.comp_apply, slot, if_neg hless, Nat.mod_add_mod, RingBuffer.push,
    List.getD_eq_getElem?_getD, List.getElem?_set_ne hne, ← List.getD_eq_getElem?_getD,
    Nat.add_assoc, Nat.add_comm 1 i]

/-- **Pushing an entry.** The ring holds the last entries. -/
theorem contents_push (h : r.Wf) (x : α) :
    (r.push x).contents dflt = (r.contents dflt ++ [x]).rtake r.size := by
  rw [List.rtake, List.length_append, length_contents, List.length_singleton]
  rcases h.count_le.lt_or_eq with hless | hfull
  · rw [h.contents_push_of_lt x hless, Nat.sub_eq_zero_of_le (by omega), List.drop_zero]
  · rw [h.contents_push_of_eq x hfull, hfull, Nat.add_sub_cancel_left,
      List.drop_append_of_le_length]
    rw [length_contents]
    have := h.pos
    omega

theorem getLast?_contents (h : r.Wf) (hcount : 0 < r.count) :
    (r.contents dflt).getLast? = some (r.slots.getD r.lastSlot dflt) := by
  have hslot : r.slot (r.count - 1) = r.lastSlot := by
    rw [slot, lastSlot]
    have hle := h.count_le
    split_ifs with hless
    · rw [h.filling hless, show r.count + r.size - 1 = r.count - 1 + r.size by omega,
        Nat.add_mod_right, Nat.zero_add]
    · rw [Nat.mod_add_mod]
      congr 1
      omega
  rw [List.getLast?_eq_getElem?, length_contents, getElem?_contents (by omega), hslot]

end Wf

end RingBuffer

section Repetitions

variable {α : Type}

/-- The last entries grow at their end like the list of all entries. -/
theorem rtake_rtake_concat (l : List α) (x : α) (n : ℕ) :
    (l.rtake n ++ [x]).rtake n = (l ++ [x]).rtake n := by
  cases n with
  | zero => rw [List.rtake_zero, List.rtake_zero]
  | succ n =>
    rw [List.rtake_concat_succ, List.rtake_concat_succ, List.rtake, List.rtake, List.rtake,
      List.drop_drop, List.length_drop]
    congr 2
    omega

theorem getLast?_rtake (l : List α) {n : ℕ} (hn : 0 < n) : (l.rtake n).getLast? = l.getLast? := by
  rcases List.eq_nil_or_concat l with rfl | ⟨l', x, rfl⟩
  · rw [List.rtake_nil]
  · obtain ⟨m, rfl⟩ := Nat.exists_eq_add_one_of_ne_zero hn.ne'
    rw [List.concat_eq_append, List.rtake_concat_succ, List.getLast?_concat, List.getLast?_concat]

variable [DecidableEq α]

theorem destutter'_concat (a x : α) (l : List α) :
    (l ++ [x]).destutter' (· ≠ ·) a
      = if (l.destutter' (· ≠ ·) a).getLast? = some x then l.destutter' (· ≠ ·) a
        else l.destutter' (· ≠ ·) a ++ [x] := by
  induction l generalizing a with
  | nil =>
    rw [List.nil_append, List.destutter'_singleton, List.destutter'_nil, ite_not]
    simp only [List.getLast?_singleton, Option.some_inj, List.singleton_append]
  | cons b l ih =>
    rw [List.cons_append]
    by_cases hab : a = b
    · have hrep : ¬a ≠ b := not_not.mpr hab
      rw [List.destutter'_cons_neg _ hrep, List.destutter'_cons_neg _ hrep, ih]
    · obtain ⟨c, l', hl⟩ := List.exists_cons_of_ne_nil
        (List.destutter'_ne_nil (a := b) l (· ≠ ·))
      rw [List.destutter'_cons_pos _ hab, List.destutter'_cons_pos _ hab, ih, hl,
        List.getLast?_cons_cons]
      split_ifs <;> rfl

/-- One more entry is left out if it repeats the last one that was kept. -/
theorem destutter_concat (x : α) (l : List α) :
    (l ++ [x]).destutter (· ≠ ·)
      = if (l.destutter (· ≠ ·)).getLast? = some x then l.destutter (· ≠ ·)
        else l.destutter (· ≠ ·) ++ [x] := by
  cases l with
  | nil => rfl
  | cons a l => exact destutter'_concat a x l

end Repetitions
