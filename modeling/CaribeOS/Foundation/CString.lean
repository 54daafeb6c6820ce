import CaribeOS.Foundation.ByteMemory

/-!
# C strings in memory

A C string is the bytes from an address on up to the first zero. Nothing bounds its length but the
size of the address space, so the loops over strings carry that size as fuel; a memory in which they
run out of it has no zero byte at all.
-/

namespace ByteMemory

/-- The bytes at `a` are those of `s`, none of them zero, followed by a zero. -/
def IsCstr (m : Mem) : UInt32 → List UInt8 → Prop
  | a, [] => m a = 0
  | a, c :: cs => m a = c ∧ c ≠ 0 ∧ IsCstr m (a + 1) cs

instance decidableIsCstr (m : Mem) : (a : UInt32) → (s : List UInt8) → Decidable (IsCstr m a s)
  | a, [] => inferInstanceAs (Decidable (m a = 0))
  | a, c :: cs =>
    have := decidableIsCstr m (a + 1) cs
    inferInstanceAs (Decidable (m a = c ∧ c ≠ 0 ∧ IsCstr m (a + 1) cs))

/-- The loop of a comparison. -/
def cstrEqualFrom (m : Mem) : ℕ → UInt32 → UInt32 → Bool
  | 0, _, _ => false
  | n + 1, a, b =>
    if m a ≠ m b then false else if m a = 0 then true else cstrEqualFrom m n (a + 1) (b + 1)

/-- The size of the address space. -/
abbrev addressSpace : ℕ := 4294967296

def cstrEqual (m : Mem) (a b : UInt32) : Bool := cstrEqualFrom m addressSpace a b

/-- The string at `a`, cut off after `n` characters. -/
def cstrTake (m : Mem) : ℕ → UInt32 → List UInt8
  | 0, _ => []
  | n + 1, a => if m a = 0 then [] else m a :: cstrTake m n (a + 1)

variable {m : Mem} {a b : UInt32} {s t : List UInt8}

theorem length_cstrTake_le (n : ℕ) : (cstrTake m n a).length ≤ n := by
  induction n generalizing a with
  | zero => exact le_rfl
  | succ n ih =>
    rw [cstrTake]
    split_ifs
    · exact Nat.zero_le _
    · exact Nat.succ_le_succ ih

theorem cstrEqualFrom_eq_true_iff {n : ℕ} :
    cstrEqualFrom m n a b = true ↔ ∃ s, s.length < n ∧ IsCstr m a s ∧ IsCstr m b s := by
  induction n generalizing a b with
  | zero => simp [cstrEqualFrom]
  | succ n ih =>
    rw [cstrEqualFrom]
    by_cases hne : m a ≠ m b
    · rw [if_pos hne]
      refine iff_of_false Bool.false_ne_true ?_
      rintro ⟨_ | ⟨c, cs⟩, -, ha, hb⟩
      · exact hne (ha.trans hb.symm)
      · exact hne (ha.1.trans hb.1.symm)
    rw [if_neg hne]
    have heq : m a = m b := not_not.mp hne
    by_cases hzero : m a = 0
    · rw [if_pos hzero]
      exact iff_of_true rfl ⟨[], n.succ_pos, hzero, heq.symm.trans hzero⟩
    rw [if_neg hzero, ih]
    constructor
    · rintro ⟨s, hlen, ha, hb⟩
      exact ⟨m a :: s, Nat.succ_lt_succ hlen, ⟨rfl, hzero, ha⟩, ⟨heq.symm, hzero, hb⟩⟩
    · rintro ⟨_ | ⟨c, cs⟩, hlen, ha, hb⟩
      · exact absurd ha hzero
      · exact ⟨cs, Nat.lt_of_succ_lt_succ hlen, ha.2.2, hb.2.2⟩

theorem IsCstr.cstrTake_eq_take (h : IsCstr m a s) (n : ℕ) : cstrTake m n a = s.take n := by
  induction s generalizing a n with
  | nil =>
    cases n with
    | zero => rfl
    | succ n => exact if_pos h
  | cons c cs ih =>
    obtain ⟨hc, hne, hcs⟩ := h
    cases n with
    | zero => rfl
    | succ n => rw [cstrTake, if_neg (hc ▸ hne), hc, ih hcs, List.take_succ_cons]

theorem IsCstr.image {m' : Mem} {b : UInt32} {n : ℕ}
    (h : ∀ k < n, m (a + .ofNat k) = m' (b + .ofNat k)) {o : ℕ} (ho : o + s.length < n)
    (hs : IsCstr m (a + .ofNat o) s) : IsCstr m' (b + .ofNat o) s := by
  induction s generalizing o with
  | nil =>
    rw [IsCstr, ← h o (by rw [List.length_nil] at ho; omega)]
    exact hs
  | cons c cs ih =>
    rw [List.length_cons] at ho
    obtain ⟨hc, hne, hcs⟩ := hs
    rw [add_ofNat_lit] at hcs
    refine ⟨(h o (by omega)).symm.trans hc, hne, ?_⟩
    rw [add_ofNat_lit]
    exact ih (by omega) hcs

end ByteMemory
