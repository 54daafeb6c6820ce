import Mathlib.Data.Finset.Card
import Mathlib.Data.Nat.Bitwise
import Mathlib.Tactic

/-!
# Bitmaps

A bitmap is a sequence of bytes; bit `i` is in byte `i / 8`, the first bit of a byte being the
highest. Setting a bit changes that bit and no other (`getBit_setBit`). `clearBits` counts the bits
that are not set below a bound, and `card_clearBits_add` says how the count changes when bits are
set and others cleared.
-/

namespace Bitmap

/-- The mask of bit `i` in its byte. -/
def mask (i : ℕ) : UInt8 := 0x80 >>> UInt8.ofNat (i % 8)

def getBit (b : ℕ → UInt8) (i : ℕ) : Bool := b (i / 8) &&& mask i ≠ 0

/-- The byte with bit `i` set or cleared. -/
def byteWith (byte : UInt8) (i : ℕ) (v : Bool) : UInt8 :=
  if v then byte ||| mask i else byte &&& ~~~mask i

def setBit (b : ℕ → UInt8) (i : ℕ) (v : Bool) : ℕ → UInt8 :=
  Function.update b (i / 8) (byteWith (b (i / 8)) i v)

theorem mask_mod (i : ℕ) : mask (i % 8) = mask i := by
  rw [mask, mask, Nat.mod_mod]

theorem mask_cases {p : UInt8 → Prop} (h : ∀ r : Fin 8, p (mask r)) (i : ℕ) : p (mask i) := by
  rw [← mask_mod]
  exact h ⟨i % 8, Nat.mod_lt _ (by decide)⟩

theorem toNat_mask (i : ℕ) : (mask i).toNat = 2 ^ (7 - i % 8) := by
  have hcases : ∀ r : Fin 8, (mask r).toNat = 2 ^ (7 - r.val) := by decide
  rw [← mask_mod]
  exact hcases ⟨i % 8, Nat.mod_lt _ (by decide)⟩

theorem getBit_eq_testBit (b : ℕ → UInt8) (i : ℕ) :
    getBit b i = (b (i / 8)).toNat.testBit (7 - i % 8) := by
  have hbit : b (i / 8) &&& mask i = 0 ↔ (b (i / 8)).toNat.testBit (7 - i % 8) = false := by
    rw [← UInt8.toNat_inj, UInt8.toNat_and, toNat_mask, Nat.and_two_pow]
    cases (b (i / 8)).toNat.testBit (7 - i % 8) <;> simp
  rw [getBit, decide_not, Bool.not_eq_eq_eq_not, Bool.eq_iff_iff, decide_eq_true_iff, hbit,
    Bool.not_eq_true']

theorem or_and_distrib (a b c : UInt8) : (a ||| b) &&& c = a &&& c ||| b &&& c :=
  UInt8.toBitVec_inj.mp (by simp [BitVec.and_or_distrib_right])

theorem byteWith_and_mask_self (byte : UInt8) (i : ℕ) (v : Bool) :
    (byteWith byte i v &&& mask i ≠ 0) ↔ v = true := by
  have hne : mask i ≠ 0 := mask_cases (p := (· ≠ 0)) (by decide) i
  have hnot : ~~~mask i &&& mask i = 0 := mask_cases (p := fun u ↦ ~~~u &&& u = 0) (by decide) i
  cases v with
  | false =>
    rw [byteWith, if_neg Bool.false_ne_true, UInt8.and_assoc, hnot, UInt8.and_zero]
    simp
  | true =>
    rw [byteWith, if_pos rfl, or_and_distrib, UInt8.and_self, ne_eq, UInt8.or_eq_zero_iff]
    exact ⟨fun _ ↦ rfl, fun _ h ↦ hne h.2⟩

theorem mask_and_mask {i j : ℕ} (h : i % 8 ≠ j % 8) :
    mask i &&& mask j = 0 ∧ ~~~mask i &&& mask j = mask j := by
  have hall : ∀ r s : Fin 8, r ≠ s → mask r &&& mask s = 0 ∧ ~~~mask r &&& mask s = mask s := by
    decide
  have hne : (⟨i % 8, Nat.mod_lt _ (by decide)⟩ : Fin 8) ≠ ⟨j % 8, Nat.mod_lt _ (by decide)⟩ :=
    fun heq ↦ h (Fin.mk.inj heq)
  have := hall _ _ hne
  rwa [mask_mod, mask_mod] at this

theorem byteWith_and_mask_of_ne (byte : UInt8) {i j : ℕ} (h : i % 8 ≠ j % 8) (v : Bool) :
    byteWith byte i v &&& mask j = byte &&& mask j := by
  obtain ⟨hand, hnot⟩ := mask_and_mask h
  cases v with
  | false => rw [byteWith, if_neg Bool.false_ne_true, UInt8.and_assoc, hnot]
  | true =>
    rw [byteWith, if_pos rfl, or_and_distrib, hand, UInt8.or_zero]

/-- **One bit is changed.** -/
theorem getBit_setBit (b : ℕ → UInt8) (i j : ℕ) (v : Bool) :
    getBit (setBit b i v) j = if j = i then v else getBit b j := by
  rw [Bool.eq_iff_iff, getBit, decide_eq_true_eq, setBit]
  by_cases hbyte : j / 8 = i / 8
  · rw [hbyte, Function.update_self]
    by_cases hij : j = i
    · rw [hij, if_pos rfl, byteWith_and_mask_self]
    · have hmod : i % 8 ≠ j % 8 := by omega
      rw [if_neg hij, byteWith_and_mask_of_ne _ hmod, getBit, decide_eq_true_eq, hbyte]
  · have hij : j ≠ i := fun h ↦ hbyte (by rw [h])
    rw [Function.update_of_ne hbyte, if_neg hij, getBit, decide_eq_true_eq]

theorem eq_of_and_mask (x : UInt8) :
    x = (List.range 8).foldl (fun acc r ↦ acc ||| if x &&& mask r ≠ 0 then mask r else 0) 0 := by
  have h : ∀ n < 256, UInt8.ofNat n = (List.range 8).foldl
      (fun acc r ↦ acc ||| if UInt8.ofNat n &&& mask r ≠ 0 then mask r else 0) 0 := by
    decide +kernel
  simpa only [UInt8.ofNat_toNat] using h x.toNat x.toNat_lt

/-- **The bits decide the bytes.** -/
theorem byte_eq_of_getBit_eq {b b' : ℕ → UInt8} (h : ∀ i, getBit b i = getBit b' i) (k : ℕ) :
    b k = b' k := by
  have hbit : ∀ r ∈ List.range 8, (b k &&& mask r ≠ 0 ↔ b' k &&& mask r ≠ 0) := by
    intro r hr
    rw [List.mem_range] at hr
    have hdiv : (8 * k + r) / 8 = k := by omega
    have hmod : (8 * k + r) % 8 = r := by omega
    have hbits := h (8 * k + r)
    rw [getBit, getBit, hdiv, ← mask_mod, hmod] at hbits
    rwa [decide_eq_decide] at hbits
  rw [eq_of_and_mask (b k), eq_of_and_mask (b' k)]
  refine List.foldl_ext _ _ _ fun acc r hr ↦ ?_
  simp only [hbit r hr]

/-! ## Counting -/

/-- The bits below `n` that are not set. -/
def clearBits (used : ℕ → Bool) (n : ℕ) : Finset ℕ := (Finset.range n).filter fun i ↦ used i = false

theorem mem_clearBits {used : ℕ → Bool} {n i : ℕ} :
    i ∈ clearBits used n ↔ i < n ∧ used i = false := by
  rw [clearBits, Finset.mem_filter, Finset.mem_range]

/-- **The count of clear bits** after the bits of `new`, which were clear, are set and those of
`old`, which were set, are cleared. -/
theorem card_clearBits_add {used used' : ℕ → Bool} {n : ℕ} {new old : List ℕ}
    (hnew : ∀ i ∈ new, i < n ∧ used i = false) (hold : ∀ i ∈ old, i < n ∧ used i = true)
    (hnewNodup : new.Nodup) (holdNodup : old.Nodup)
    (hset : ∀ i ∈ new, used' i = true) (hclear : ∀ i ∈ old, used' i = false)
    (hrest : ∀ i, i ∉ new → i ∉ old → used' i = used i) :
    (clearBits used' n).card + new.length = (clearBits used n).card + old.length := by
  have hnewSub : new.toFinset ⊆ clearBits used n := fun i hi ↦
    mem_clearBits.mpr (hnew i (List.mem_toFinset.mp hi))
  have heq : clearBits used' n = (clearBits used n \ new.toFinset) ∪ old.toFinset := by
    ext i
    rw [Finset.mem_union, Finset.mem_sdiff, mem_clearBits, mem_clearBits, List.mem_toFinset,
      List.mem_toFinset]
    by_cases hin : i ∈ new
    · have hnot : i ∉ old := fun ho ↦ by
        have := (hnew i hin).2
        rw [(hold i ho).2] at this
        exact Bool.noConfusion this
      simp [hin, hnot, hset i hin]
    · by_cases ho : i ∈ old
      · simp [ho, (hold i ho).1, hclear i ho]
      · simp [hin, ho, hrest i hin ho]
  have hdisjoint : Disjoint (clearBits used n \ new.toFinset) old.toFinset := by
    rw [Finset.disjoint_left]
    intro i hi ho
    have hclr := (mem_clearBits.mp (Finset.mem_sdiff.mp hi).1).2
    rw [(hold i (List.mem_toFinset.mp ho)).2] at hclr
    exact Bool.noConfusion hclr
  have hsub := Finset.card_sdiff_add_card_eq_card hnewSub
  rw [List.toFinset_card_of_nodup hnewNodup] at hsub
  rw [heq, Finset.card_union_of_disjoint hdisjoint, List.toFinset_card_of_nodup holdNodup]
  omega

end Bitmap
