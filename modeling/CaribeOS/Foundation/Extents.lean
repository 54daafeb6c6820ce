import Mathlib.Data.List.Nodup
import Mathlib.Tactic

/-!
# Data kept in extents

The data of a file is kept in blocks of equal size, and its blocks are listed as extents: runs of
consecutive blocks, given by start and length. `blockAt` searches the extents for a block of the
file, as readers do; `blocks` is the list of all of them. The address of a byte on the medium
(`byteAt`) depends on that list only. If no block occurs twice, different bytes have different
addresses.
-/

namespace Extents

/-- The block with number `n`, found by going through the extents. -/
def blockAt : List (ℕ × ℕ) → ℕ → Option ℕ
  | [], _ => none
  | (start, count) :: es, n => if n < count then some (start + n) else blockAt es (n - count)

/-- All blocks, in order. -/
def blocks (es : List (ℕ × ℕ)) : List ℕ := es.flatMap fun e ↦ List.range' e.1 e.2

@[simp] theorem blocks_cons (e : ℕ × ℕ) (es : List (ℕ × ℕ)) :
    blocks (e :: es) = List.range' e.1 e.2 ++ blocks es := rfl

/-- **The search finds the block.** -/
theorem blockAt_eq (es : List (ℕ × ℕ)) (n : ℕ) : blockAt es n = (blocks es)[n]? := by
  induction es generalizing n with
  | nil => rfl
  | cons e es ih =>
    obtain ⟨start, count⟩ := e
    rw [blockAt, blocks_cons]
    by_cases hlt : n < count
    · rw [if_pos hlt, List.getElem?_append_left (by rwa [List.length_range']),
        List.getElem?_range' (by exact hlt), Nat.one_mul]
    · rw [if_neg hlt, ih, List.getElem?_append_right (by rw [List.length_range']; omega),
        List.length_range']

theorem length_blocks (es : List (ℕ × ℕ)) : (blocks es).length = (es.map Prod.snd).sum := by
  rw [blocks, List.length_flatMap]
  congr 1
  exact List.map_congr_left fun e _ ↦ List.length_range'

theorem blocks_filter (es : List (ℕ × ℕ)) : blocks (es.filter (·.2 ≠ 0)) = blocks es := by
  induction es with
  | nil => rfl
  | cons e es ih =>
    by_cases hzero : e.2 = 0
    · rw [List.filter_cons_of_neg (by simpa using hzero), ih, blocks_cons, hzero]
      rfl
    · rw [List.filter_cons_of_pos (by simpa using hzero), blocks_cons, blocks_cons, ih]

/-! ## Addresses -/

/-- Where byte `x` of a file with the blocks `bl` is on the medium. -/
def byteAt (bs : ℕ) (bl : List ℕ) (x : ℕ) : Option ℕ := bl[x / bs]?.map fun p ↦ p * bs + x % bs

section Address

variable {bs : ℕ} {bl : List ℕ} {x y a : ℕ}

theorem byteAt_eq_some_iff : byteAt bs bl x = some a ↔
    ∃ p, bl[x / bs]? = some p ∧ p * bs + x % bs = a := by
  rw [byteAt, Option.map_eq_some_iff]

theorem byteAt_add {k : ℕ} (hk : x % bs + k < bs) :
    byteAt bs bl (x + k) = bl[x / bs]?.map fun p ↦ p * bs + x % bs + k := by
  have hdiv : (x + k) / bs = x / bs := by
    rw [← Nat.div_add_mod x bs, Nat.add_assoc, Nat.mul_add_div (by omega), Nat.div_eq_of_lt hk,
      Nat.mul_add_div (by omega), Nat.div_eq_of_lt (Nat.mod_lt _ (by omega))]
  have hmod : (x + k) % bs = x % bs + k := by
    rw [← Nat.mod_eq_of_lt hk, Nat.mod_add_mod]
  rw [byteAt, hdiv, hmod]
  simp only [Nat.add_assoc]

theorem div_mem_of_byteAt (hbs : 0 < bs) (h : byteAt bs bl x = some a) : a / bs ∈ bl := by
  obtain ⟨p, hp, rfl⟩ := byteAt_eq_some_iff.mp h
  have hdiv : (p * bs + x % bs) / bs = p := by
    rw [Nat.add_comm, Nat.add_mul_div_right _ _ hbs, Nat.div_eq_of_lt (Nat.mod_lt _ hbs),
      Nat.zero_add]
  rw [hdiv]
  exact List.mem_of_getElem? hp

/-- **Different bytes have different addresses**, if no block occurs twice. -/
theorem byteAt_inj (hbs : 0 < bs) (hnodup : bl.Nodup) (hx : byteAt bs bl x = some a)
    (hy : byteAt bs bl y = some a) : x = y := by
  obtain ⟨p, hp, hpa⟩ := byteAt_eq_some_iff.mp hx
  obtain ⟨q, hq, hqa⟩ := byteAt_eq_some_iff.mp hy
  have hxmod := Nat.mod_lt x hbs
  have hymod := Nat.mod_lt y hbs
  have hpq : p = q := by
    have hpdiv : (p * bs + x % bs) / bs = p := by
      rw [Nat.add_comm, Nat.add_mul_div_right _ _ hbs, Nat.div_eq_of_lt hxmod, Nat.zero_add]
    have hqdiv : (q * bs + y % bs) / bs = q := by
      rw [Nat.add_comm, Nat.add_mul_div_right _ _ hbs, Nat.div_eq_of_lt hymod, Nat.zero_add]
    rw [← hpdiv, ← hqdiv, hpa, hqa]
  subst hpq
  have hlt : x / bs < bl.length := (List.getElem?_eq_some_iff.mp hp).1
  have hdiv : x / bs = y / bs := (List.getElem?_inj hlt hnodup).mp (hp.trans hq.symm)
  have hmod : x % bs = y % bs := by omega
  rw [← Nat.div_add_mod' x bs, hdiv, hmod, Nat.div_add_mod']

theorem exists_byteAt (hbs : 0 < bs) (hx : x < bl.length * bs) : ∃ a, byteAt bs bl x = some a := by
  have hlt : x / bs < bl.length := (Nat.div_lt_iff_lt_mul hbs).mpr hx
  exact ⟨_, byteAt_eq_some_iff.mpr ⟨_, List.getElem?_eq_getElem hlt, rfl⟩⟩

end Address

end Extents
