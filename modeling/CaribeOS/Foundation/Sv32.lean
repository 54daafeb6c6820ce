import Mathlib.Tactic

/-!
# The Sv32 page tables of RISC-V

`walk` is the translation of an address by a page table of two levels. An entry of the first level
with read or execute permission is a leaf and maps a superpage of 4 MiB; it must name a physical
address that is a multiple of 4 MiB, else the walk faults.

Programs build tables of superpages by writing entries of the form `superEntry`. `walk_superEntry`
says what such an entry maps. `mapSuperpages` is a loop that enters a range of addresses, with a
counter of 32 bits: it ends if the range ends in front of the last superpage
(`mapSuperpages_eq`), and goes on for ever if it ends inside of it (`mapSuperpages_diverges`).
-/

namespace Sv32

/-! ## The walk -/

/-- A bit of a page table entry. -/
def bit (pte : UInt32) (i : ℕ) : Bool := pte.toNat.testBit i

/-- The entry is valid, and not writable without being readable. -/
def valid (pte : UInt32) : Bool := bit pte 0 && !(!bit pte 1 && bit pte 2)

/-- The entry can be read or executed. -/
def leaf (pte : UInt32) : Bool := bit pte 1 || bit pte 3

/-- The physical page number. -/
def ppn (pte : UInt32) : ℕ := pte.toNat / 1024

/-- The physical address and the entry that an address is translated to. The first level is `root`;
`mem` is the memory with the tables of the second level. -/
def walk (root mem : ℕ → UInt32) (va : UInt32) : Option (ℕ × UInt32) :=
  let pte := root (va.toNat / 4194304)
  if valid pte = false then none
  else if leaf pte then
    if ppn pte % 1024 ≠ 0 then none
    else some (ppn pte / 1024 * 4194304 + va.toNat % 4194304, pte)
  else
    let pte := mem (ppn pte * 4096 + va.toNat / 4096 % 1024 * 4)
    if valid pte = false ∨ leaf pte = false then none
    else some (ppn pte * 4096 + va.toNat % 4096, pte)

/-- The walk of an access in user mode: the entry must be one of a user page. -/
def userWalk (root mem : ℕ → UInt32) (va : UInt32) : Option ℕ :=
  match walk root mem va with
  | some (pa, pte) => if bit pte 4 then some pa else none
  | none => none

/-! ## Superpages -/

/-- The entry for the physical address `pa`, with `flags` in its low ten bits. -/
def superEntry (pa flags : UInt32) : UInt32 := (pa >>> 12) <<< 10 ||| flags

variable {root : ℕ → UInt32} {va : UInt32}

section Super

variable {pa flags : UInt32}

theorem toNat_superEntry (h : flags.toNat < 1024) :
    (superEntry pa flags).toNat = pa.toNat / 4096 * 1024 + flags.toNat := by
  have hpa := pa.toNat_lt
  rw [superEntry, UInt32.toNat_or, UInt32.toNat_shiftLeft, UInt32.toNat_shiftRight]
  change pa.toNat >>> 12 <<< 10 % 4294967296 ||| flags.toNat = _
  rw [Nat.shiftRight_eq_div_pow, Nat.shiftLeft_eq, Nat.mod_eq_of_lt (by omega), Nat.mul_comm,
    ← Nat.two_pow_add_eq_or_of_lt h, Nat.mul_comm]

theorem bit_superEntry (h : flags.toNat < 1024) {i : ℕ} (hi : i < 10) :
    bit (superEntry pa flags) i = bit flags i := by
  have hmod : (superEntry pa flags).toNat % 2 ^ 10 = flags.toNat := by
    rw [toNat_superEntry h]
    omega
  rw [bit, bit, ← hmod, Nat.testBit_mod_two_pow, decide_eq_true hi, Bool.true_and]

theorem ppn_superEntry (h : flags.toNat < 1024) : ppn (superEntry pa flags) = pa.toNat / 4096 := by
  rw [ppn, toNat_superEntry h]
  omega

/-- The permissions of a superpage: valid and readable. -/
@[mk_iff]
structure SuperFlags (flags : UInt32) : Prop where
  lt : flags.toNat < 1024
  valid : bit flags 0 = true
  read : bit flags 1 = true

instance (flags : UInt32) : Decidable (SuperFlags flags) :=
  decidable_of_iff' _ (superFlags_iff flags)

/-- **What a superpage maps.** The low twelve bits of the physical address are not in the entry; the
next ten must be zero. -/
theorem walk_superEntry {mem : ℕ → UInt32} (h : SuperFlags flags)
    (hroot : root (va.toNat / 4194304) = superEntry pa flags) :
    walk root mem va = if pa.toNat % 4194304 < 4096 then
      some (pa.toNat / 4194304 * 4194304 + va.toNat % 4194304, superEntry pa flags) else none := by
  have hvalid : valid (superEntry pa flags) = true := by
    rw [valid, bit_superEntry h.lt (by decide), bit_superEntry h.lt (by decide), h.valid, h.read]
    rfl
  have hleaf : leaf (superEntry pa flags) = true := by
    rw [leaf, bit_superEntry h.lt (by decide), h.read]
    rfl
  rw [walk, hroot]
  dsimp only
  rw [if_neg (by rw [hvalid]; decide), if_pos hleaf, ppn_superEntry h.lt]
  have hdiv : pa.toNat / 4096 / 1024 = pa.toNat / 4194304 := Nat.div_div_eq_div_mul _ _ _
  rw [hdiv]
  by_cases haligned : pa.toNat % 4194304 < 4096
  · rw [if_pos haligned, if_neg (by omega)]
  · rw [if_neg haligned, if_pos (by omega)]

theorem walk_identity (mem : ℕ → UInt32) (h : SuperFlags flags)
    (hroot : root (va.toNat / 4194304) = superEntry pa flags)
    (hsame : pa.toNat / 4194304 = va.toNat / 4194304) :
    walk root mem va = if pa.toNat % 4194304 < 4096 then
      some (va.toNat, superEntry pa flags) else none := by
  rw [walk_superEntry h hroot, hsame, Nat.div_add_mod']

theorem walk_zero {mem : ℕ → UInt32} (h : root (va.toNat / 4194304) = 0) :
    walk root mem va = none := by
  rw [walk, h]
  rfl

end Super

/-! ## A loop over superpages -/

/-- The index of an address in the table of the first level. -/
def index (va : UInt32) : ℕ := ((va >>> 22) &&& 0x3ff).toNat

theorem index_eq (va : UInt32) : index va = va.toNat / 4194304 := by
  have hva := va.toNat_lt
  rw [index, UInt32.toNat_and, UInt32.toNat_shiftRight]
  change va.toNat >>> 22 &&& (2 ^ 10 - 1) = _
  rw [Nat.and_two_pow_sub_one_eq_mod, Nat.shiftRight_eq_div_pow, Nat.mod_eq_of_lt (by omega)]

/-- `for (; va < end; va += 4 MiB) table[index va] = entry va`, for `fuel` rounds at most. -/
def mapSuperpages (entry : UInt32 → UInt32) (stop : UInt32) :
    ℕ → UInt32 → (ℕ → UInt32) → Option (ℕ → UInt32)
  | 0, _, _ => none
  | fuel + 1, va, table =>
    if va < stop then
      mapSuperpages entry stop fuel (va + 0x400000) (Function.update table (index va) (entry va))
    else some table

section Loop

variable {entry : UInt32 → UInt32} {stop : UInt32}

/-- The address of the round that enters index `i`, in a loop from `va` on. -/
def addressAt (va : UInt32) (i : ℕ) : UInt32 :=
  .ofNat (va.toNat + (i - va.toNat / 4194304) * 4194304)

/-- **The loop ends** with a range in front of the last superpage, and has entered each superpage that
one of its addresses is in. -/
theorem mapSuperpages_eq (entry : UInt32 → UInt32) (hstop : stop.toNat ≤ 0xffc00000) {fuel : ℕ}
    (hfuel : stop.toNat ≤ va.toNat + fuel * 4194304) (table : ℕ → UInt32) :
    mapSuperpages entry stop (fuel + 1) va table = some fun i ↦
      if va.toNat / 4194304 ≤ i ∧ va.toNat + (i - va.toNat / 4194304) * 4194304 < stop.toNat then
        entry (addressAt va i) else table i := by
  induction fuel generalizing va table with
  | zero =>
    rw [mapSuperpages, if_neg (UInt32.not_lt.mpr (UInt32.le_iff_toNat_le.mpr (by omega)))]
    refine congrArg some (funext fun i ↦ ?_)
    rw [if_neg (by omega)]
  | succ fuel ih =>
    by_cases hlt : va < stop
    · have hva := UInt32.lt_iff_toNat_lt.mp hlt
      have hnext : (va + 0x400000).toNat = va.toNat + 4194304 := by
        rw [UInt32.toNat_add]
        exact Nat.mod_eq_of_lt (by change va.toNat + 4194304 < _; omega)
      have hdiv : (va.toNat + 4194304) / 4194304 = va.toNat / 4194304 + 1 :=
        Nat.add_div_right _ (by decide)
      rw [mapSuperpages, if_pos hlt, ih (by omega)]
      refine congrArg some (funext fun i ↦ ?_)
      rw [addressAt, addressAt, hnext, hdiv]
      by_cases hfirst : i = va.toNat / 4194304
      · -- the round that is made here
        have hself : UInt32.ofNat (va.toNat + (i - va.toNat / 4194304) * 4194304) = va := by
          rw [hfirst, Nat.sub_self, Nat.zero_mul, Nat.add_zero, UInt32.ofNat_toNat]
        rw [if_neg (by omega), if_pos (by omega), hself, hfirst, ← index_eq, Function.update_self]
      · rw [← index_eq] at hfirst
        rw [Function.update_of_ne hfirst]
        rw [index_eq] at hfirst
        by_cases hle : va.toNat / 4194304 + 1 ≤ i
        · have hsame : va.toNat + 4194304 + (i - (va.toNat / 4194304 + 1)) * 4194304
              = va.toNat + (i - va.toNat / 4194304) * 4194304 := by omega
          rw [hsame]
          refine if_congr ?_ rfl rfl
          omega
        · rw [if_neg (by omega), if_neg (by omega)]
    · have hge := UInt32.le_iff_toNat_le.mp (UInt32.not_lt.mp hlt)
      rw [mapSuperpages, if_neg hlt]
      refine congrArg some (funext fun i ↦ ?_)
      rw [if_neg (by omega)]

/-- **The loop does not end** with a range that ends inside the last superpage: the counter runs over
zero. -/
theorem mapSuperpages_diverges (hstop : 0xffc00000 < stop.toNat) (fuel : ℕ)
    (hva : 4194304 ∣ va.toNat) (table : ℕ → UInt32) :
    mapSuperpages entry stop fuel va table = none := by
  induction fuel generalizing va table with
  | zero => rfl
  | succ fuel ih =>
    have hlt := va.toNat_lt
    have hnext : (va + 0x400000).toNat = (va.toNat + 4194304) % 4294967296 := UInt32.toNat_add _ _
    rw [mapSuperpages, if_pos (UInt32.lt_iff_toNat_lt.mpr (by omega))]
    exact ih (by omega) _

end Loop

end Sv32
