import Mathlib.Data.UInt
import Mathlib.Tactic

/-!
# Byte-addressed memory with 32-bit addresses

Memory is a total function from 32-bit addresses to bytes, so that address arithmetic wraps the way
it does on the machine. A little-endian word store is described by the distance `x - a` from the
store's address: an address is touched exactly when that distance is below `4`. Distances are what
make the frame rule uniform: two words are disjoint when each is at distance at least `4` from the
other, whichever way the addresses wrap. Blocks of bytes are described the same way. A byte-by-byte
copy is kept as the loop it is, because what it does depends on how source and destination overlap.
-/

namespace ByteMemory

/-- A memory: every 32-bit address holds a byte. -/
abbrev Mem := UInt32 → UInt8

/-- Byte `k` of a word, counted from the least significant one. -/
def byteOf (v : UInt32) (k : ℕ) : UInt8 := .ofNat (v.toNat / 256 ^ k)

/-- The bytes of a word, the least significant one first. -/
def wordBytes (v : UInt32) : List UInt8 := (List.range 4).map (byteOf v)

/-- Store one byte. -/
def storeByte (m : Mem) (a : UInt32) (b : UInt8) : Mem := fun x ↦ if x = a then b else m x

/-- Store a little-endian word. -/
def storeWord (m : Mem) (a v : UInt32) : Mem :=
  fun x ↦ if x - a < 4 then byteOf v (x - a).toNat else m x

/-- Load a little-endian word. -/
def loadWord (m : Mem) (a : UInt32) : UInt32 :=
  .ofNat ((m a).toNat + 256 * (m (a + 1)).toNat + 65536 * (m (a + 2)).toNat
    + 16777216 * (m (a + 3)).toNat)

/-- Load a little-endian half-word. -/
def loadHalf (m : Mem) (a : UInt32) : UInt16 := (m (a + 1)).toUInt16 <<< 8 ||| (m a).toUInt16

variable {a x b : UInt32} {m m' : Mem} {k o n : ℕ}

@[simp] theorem storeByte_same (m : Mem) (a : UInt32) (b : UInt8) : storeByte m a b a = b := by
  rw [storeByte, if_pos rfl]

theorem storeByte_of_ne (m : Mem) (b : UInt8) (h : x ≠ a) : storeByte m a b x = m x := by
  rw [storeByte, if_neg h]

theorem ofNat_byteOf (v : UInt32) :
    UInt32.ofNat ((byteOf v 0).toNat + 256 * (byteOf v 1).toNat + 65536 * (byteOf v 2).toNat
      + 16777216 * (byteOf v 3).toNat) = v := by
  have hv := v.toNat_lt
  apply UInt32.toNat_inj.mp
  simp only [byteOf, UInt8.toNat_ofNat', UInt32.toNat_ofNat', pow_zero, Nat.div_one]
  omega

theorem storeWord_add (m : Mem) (a v k : UInt32) (hk : k < 4) :
    storeWord m a v (a + k) = byteOf v k.toNat := by
  have hdist : a + k - a = k := by grind
  rw [storeWord, hdist, if_pos hk]

theorem storeWord_of_le (m : Mem) (v : UInt32) (h : 4 ≤ x - a) : storeWord m a v x = m x := by
  rw [storeWord, if_neg (by grind)]

@[simp] theorem loadWord_storeWord (m : Mem) (a v : UInt32) : loadWord (storeWord m a v) a = v := by
  have h0 : storeWord m a v a = byteOf v 0 := by simpa using storeWord_add m a v 0 (by decide)
  rw [loadWord, h0, storeWord_add m a v 1 (by decide), storeWord_add m a v 2 (by decide),
    storeWord_add m a v 3 (by decide)]
  exact ofNat_byteOf v

/-- Two words overlap nowhere: each starts at distance at least `4` from the other. -/
def WordDisjoint (a b : UInt32) : Prop := 4 ≤ b - a ∧ 4 ≤ a - b
  deriving Decidable

theorem WordDisjoint.symm (h : WordDisjoint a b) : WordDisjoint b a := ⟨h.2, h.1⟩

theorem wordDisjoint_add_left (s a b : UInt32) :
    WordDisjoint (s + a) (s + b) ↔ WordDisjoint a b := by
  have hab : s + b - (s + a) = b - a := by grind
  have hba : s + a - (s + b) = a - b := by grind
  rw [WordDisjoint, WordDisjoint, hab, hba]

theorem loadWord_congr (h : ∀ k < 4, m' (a + k) = m (a + k)) : loadWord m' a = loadWord m a := by
  have h0 : m' a = m a := by simpa using h 0 (by decide)
  rw [loadWord, loadWord, h0, h 1 (by decide), h 2 (by decide), h 3 (by decide)]

theorem loadWord_storeWord_of_disjoint (m : Mem) (v : UInt32) (h : WordDisjoint a b) :
    loadWord (storeWord m a v) b = loadWord m b := by
  obtain ⟨hab, hba⟩ := h
  refine loadWord_congr fun k hk ↦ storeWord_of_le m v ?_
  grind

/-- The characters of a C string, without the terminating zero. -/
def cString (s : String) : List UInt8 := s.toList.map fun c ↦ .ofNat c.toNat

/-! ## Blocks of bytes

A block at `a` is described by the distance `x - a` as well, so that its addresses are `a`, `a + 1`
and so on, wrapping where the address space ends. -/

theorem toNat_ofNat_lt {n : ℕ} (h : n < 4294967296) : (UInt32.ofNat n).toNat = n :=
  UInt32.toNat_ofNat_of_lt' h

theorem toNat_add_ofNat_sub (a : UInt32) (hk : k < 4294967296) : (a + .ofNat k - a).toNat = k := by
  rw [UInt32.add_comm, UInt32.add_sub_cancel, toNat_ofNat_lt hk]

theorem add_ofNat_zero (a : UInt32) : a + .ofNat 0 = a := UInt32.add_zero a

theorem add_ofNat_add (a : UInt32) (i j : ℕ) : a + .ofNat i + .ofNat j = a + .ofNat (i + j) := by
  rw [UInt32.add_assoc, UInt32.ofNat_add]

theorem add_ofNat_lit (a : UInt32) (i j : ℕ) :
    a + .ofNat i + OfNat.ofNat j = a + .ofNat (i + OfNat.ofNat j) := add_ofNat_add a i j

theorem add_ofNat_toNat_sub (a x : UInt32) : a + .ofNat (x - a).toNat = x := by
  rw [UInt32.ofNat_toNat, UInt32.add_comm, UInt32.sub_add_cancel]

theorem toNat_sub_add_ofNat {r : ℕ} (h : r ≤ (b - a).toNat) :
    (b - (a + .ofNat r)).toNat = (b - a).toNat - r := by
  have hlt : (b - a).toNat < 4294967296 := UInt32.toNat_lt _
  have hr : (UInt32.ofNat r).toNat = r := by
    rw [toNat_ofNat_lt (by omega)]
  have heq : b - (a + .ofNat r) = b - a - .ofNat r := by grind
  rw [heq, UInt32.toNat_sub_of_le _ _ (by rwa [UInt32.le_iff_toNat_le, hr]), hr]

section Image

variable {img img' : UInt32} {n : ℕ} {m m' : Mem}
  (h : ∀ k < n, m (img + .ofNat k) = m' (img' + .ofNat k))
include h

theorem loadHalf_image (ho : o + 2 ≤ n) :
    loadHalf m (img + .ofNat o) = loadHalf m' (img' + .ofNat o) := by
  have hnext : m (img + .ofNat o + 1) = m' (img' + .ofNat o + 1) := by
    rw [add_ofNat_lit, add_ofNat_lit]
    exact h _ (by omega)
  rw [loadHalf, loadHalf, hnext, h o (by omega)]

theorem loadWord_image (ho : o + 4 ≤ n) :
    loadWord m (img + .ofNat o) = loadWord m' (img' + .ofNat o) := by
  have hnext : ∀ j < 4, m (img + .ofNat o + .ofNat j) = m' (img' + .ofNat o + .ofNat j) := by
    intro j hj
    rw [add_ofNat_add, add_ofNat_add]
    exact h _ (by omega)
  have h1 : m (img + .ofNat o + 1) = m' (img' + .ofNat o + 1) := hnext 1 (by decide)
  have h2 : m (img + .ofNat o + 2) = m' (img' + .ofNat o + 2) := hnext 2 (by decide)
  have h3 : m (img + .ofNat o + 3) = m' (img' + .ofNat o + 3) := hnext 3 (by decide)
  rw [loadWord, loadWord, h o (by omega), h1, h2, h3]

end Image

/-- `x` is one of the `n` bytes from `a` on. -/
def InBlock (a : UInt32) (n : ℕ) (x : UInt32) : Prop := (x - a).toNat < n
  deriving Decidable

theorem inBlock_iff (h : a.toNat + n ≤ 4294967296) :
    InBlock a n x ↔ a.toNat ≤ x.toNat ∧ x.toNat < a.toNat + n := by
  have hx := x.toNat_lt
  rw [InBlock, UInt32.toNat_sub]
  omega

theorem inBlock_add (a : UInt32) (hk : k < n) (hlt : k < 4294967296) :
    InBlock a n (a + .ofNat k) := by
  rwa [InBlock, toNat_add_ofNat_sub a hlt]

theorem InBlock.exists_eq_add (h : InBlock a n x) :
    ∃ k < n, x = a + .ofNat k := ⟨(x - a).toNat, h, (add_ofNat_toNat_sub a x).symm⟩

theorem InBlock.mono {n' : ℕ} (h : InBlock a n x) (hle : n ≤ n') :
    InBlock a n' x := lt_of_lt_of_le h hle

theorem InBlock.of_add {i n' : ℕ} (h : InBlock (a + .ofNat i) n x) (hle : i + n ≤ n')
    (hn : n' ≤ 4294967296) : InBlock a n' x := by
  obtain ⟨k, hk, rfl⟩ := h.exists_eq_add
  rw [add_ofNat_add]
  exact inBlock_add a (by omega) (by omega)

/-- When a block is a part of another one that does not reach the end of memory. -/
theorem forall_inBlock_iff (hb : b.toNat + k < 4294967296) :
    (∀ x, InBlock a n x → InBlock b k x) ↔
      n = 0 ∨ b.toNat ≤ a.toNat ∧ a.toNat + n ≤ b.toNat + k := by
  have hiff : ∀ x, InBlock b k x ↔ b.toNat ≤ x.toNat ∧ x.toNat < b.toNat + k :=
    fun x ↦ inBlock_iff hb.le
  constructor
  · intro hall
    rcases Nat.eq_zero_or_pos n with hzero | hpos
    · exact .inl hzero
    have hfirst := (hiff a).mp (hall a (by rwa [InBlock, UInt32.sub_self]))
    refine .inr ⟨hfirst.1, ?_⟩
    -- otherwise the first byte behind the second block is in the first one
    by_contra hlong
    obtain ⟨i, hi⟩ : ∃ i, a.toNat + i = b.toNat + k := ⟨b.toNat + k - a.toNat, by omega⟩
    have hlt : i < 4294967296 := by omega
    have hin : i < n := by omega
    have hsum : (a + .ofNat i).toNat = b.toNat + k := by
      rw [UInt32.toNat_add, toNat_ofNat_lt hlt, hi, Nat.mod_eq_of_lt hb]
    have hend := (hiff _).mp (hall _ (inBlock_add a hin hlt))
    rw [hsum] at hend
    exact absurd hend.2 (lt_irrefl _)
  · rintro (rfl | ⟨hle, hlen⟩) x hx
    · exact absurd hx (Nat.not_lt_zero _)
    · have hx := (inBlock_iff (by omega)).mp hx
      exact (hiff x).mpr (by omega)

theorem forall_inBlock_add_iff (hpos : 0 < k) (ho : o < 4294967296)
    (hend : o + k ≤ 4294967296 ∨ n < 4294967296) :
    (∀ x, InBlock (a + .ofNat o) k x → InBlock a n x) ↔ o + k ≤ n := by
  constructor
  · intro hall
    by_contra hlong
    -- the first byte of the row that is not in the block
    obtain ⟨i, hi⟩ : ∃ i, o + i = max o n := ⟨max o n - o, by omega⟩
    have hin : InBlock (a + .ofNat o) k (a + .ofNat o + .ofNat i) :=
      inBlock_add _ (by omega) (by omega)
    have hlt : o + i < 4294967296 := by omega
    have hbyte := hall _ hin
    rw [add_ofNat_add, InBlock, toNat_add_ofNat_sub a hlt] at hbyte
    omega
  · intro hle x hx
    obtain ⟨i, hi, rfl⟩ := hx.exists_eq_add
    rw [add_ofNat_add]
    exact inBlock_add a (by omega) (by omega)

@[simp] theorem inBlock_zero (a x : UInt32) : ¬InBlock a 0 x := Nat.not_lt_zero _

theorem toNat_sub_of_ne (h : x ≠ a) : (x - a).toNat = (x - (a + 1)).toNat + 1 := by
  have hpos : (x - a).toNat ≠ 0 := by
    intro hzero
    apply h
    rw [← add_ofNat_toNat_sub a x, hzero, add_ofNat_zero]
  have hnext : (x - (a + 1)).toNat = (x - a).toNat - 1 :=
    toNat_sub_add_ofNat (r := 1) (Nat.one_le_iff_ne_zero.mpr hpos)
  omega

theorem inBlock_succ (a x : UInt32) (n : ℕ) :
    InBlock a (n + 1) x ↔ x = a ∨ InBlock (a + 1) n x := by
  by_cases hx : x = a
  · rw [hx, InBlock, UInt32.sub_self, UInt32.toNat_zero]
    exact ⟨fun _ ↦ .inl rfl, fun _ ↦ n.succ_pos⟩
  · rw [InBlock, InBlock, toNat_sub_of_ne hx, or_iff_right hx, Nat.add_lt_add_iff_right]

theorem inBlock_append (a x : UInt32) (n k : ℕ) :
    InBlock a (n + k) x ↔ InBlock a n x ∨ InBlock (a + .ofNat n) k x := by
  induction n generalizing a with
  | zero => simp
  | succ n ih =>
    have hnext : a + 1 + .ofNat n = a + .ofNat (n + 1) := by
      rw [Nat.add_comm n 1]
      exact add_ofNat_add a 1 n
    rw [Nat.add_right_comm, inBlock_succ, inBlock_succ, ih, hnext, or_assoc]

/-- The address lies in one of the blocks of a list, each an address with a length. -/
def InBlocks (bs : List (UInt32 × ℕ)) (x : UInt32) : Prop := ∃ r ∈ bs, InBlock r.1 r.2 x

@[simp] theorem inBlocks_nil (x : UInt32) : InBlocks [] x ↔ False := by
  simp [InBlocks]

@[simp] theorem inBlocks_cons (r : UInt32 × ℕ) (bs : List (UInt32 × ℕ)) (x : UInt32) :
    InBlocks (r :: bs) x ↔ InBlock r.1 r.2 x ∨ InBlocks bs x := by
  simp [InBlocks]

@[simp] theorem inBlocks_append (bs cs : List (UInt32 × ℕ)) (x : UInt32) :
    InBlocks (bs ++ cs) x ↔ InBlocks bs x ∨ InBlocks cs x := by
  simp only [InBlocks, List.mem_append, or_and_right, exists_or]

@[simp] theorem inBlocks_ite (c : Prop) [Decidable c] (bs cs : List (UInt32 × ℕ)) (x : UInt32) :
    InBlocks (if c then bs else cs) x ↔ if c then InBlocks bs x else InBlocks cs x := by
  split_ifs
  · rfl
  · rfl

theorem not_inBlock_add_of_lt (a : UInt32) (hk : k < o) (hn : o + n ≤ 4294967296) :
    ¬InBlock (a + .ofNat o) n (a + .ofNat k) := by
  have heq : a + .ofNat k - (a + .ofNat o) = UInt32.ofNat k - .ofNat o := by grind
  rw [InBlock, heq, not_lt]
  rcases Nat.lt_or_ge o 4294967296 with ho | ho
  · rw [UInt32.toNat_sub, toNat_ofNat_lt (hk.trans ho), toNat_ofNat_lt ho]
    omega
  · omega

/-- Two blocks without a common byte. -/
def Apart (a : UInt32) (n : ℕ) (b : UInt32) (k : ℕ) : Prop := ∀ x, InBlock a n x → ¬InBlock b k x

theorem Apart.of_le (hle : a.toNat + n ≤ b.toNat) (hk : b.toNat + k ≤ 4294967296) :
    Apart a n b k := by
  intro x hx hx'
  rw [inBlock_iff (by omega)] at hx hx'
  omega

theorem Apart.symm (h : Apart a n b k) : Apart b k a n := fun x hb ha ↦ h x ha hb

/-- Write the bytes `f 0`, …, `f (n - 1)` at `a`. -/
def writeBytes (m : Mem) (a : UInt32) (n : ℕ) (f : ℕ → UInt8) : Mem :=
  fun x ↦ if (x - a).toNat < n then f (x - a).toNat else m x

theorem writeBytes_congr (n : ℕ) (f : ℕ → UInt8) (h : m x = m' x) :
    writeBytes m a n f x = writeBytes m' a n f x := by
  rw [writeBytes, writeBytes, h]

theorem writeBytes_add (m : Mem) (a : UInt32) (f : ℕ → UInt8) (hk : k < n) (hlt : k < 4294967296) :
    writeBytes m a n f (a + .ofNat k) = f k := by
  rw [writeBytes, toNat_add_ofNat_sub a hlt, if_pos hk]

theorem writeBytes_of_le (m : Mem) (f : ℕ → UInt8) (h : n ≤ (x - a).toNat) :
    writeBytes m a n f x = m x := by
  rw [writeBytes, if_neg (not_lt.mpr h)]

theorem writeBytes_add_of_le (m : Mem) (a : UInt32) (f : ℕ → UInt8) (hk : n ≤ k)
    (hlt : k < 4294967296) : writeBytes m a n f (a + .ofNat k) = m (a + .ofNat k) :=
  writeBytes_of_le m f (by rwa [toNat_add_ofNat_sub a hlt])

/-- Copy `n` bytes, one after the other from the first on: a byte that was overwritten before its
turn is copied as it is then. -/
def copyForward (m : Mem) (dst src : UInt32) : ℕ → Mem
  | 0 => m
  | n + 1 =>
    let m' := copyForward m dst src n
    storeByte m' (dst + .ofNat n) (m' (src + .ofNat n))

theorem copyForward_succ (m : Mem) (dst src : UInt32) (n : ℕ) : copyForward m dst src (n + 1)
    = storeByte (copyForward m dst src n) (dst + .ofNat n)
        (copyForward m dst src n (src + .ofNat n)) := rfl

theorem copyForward_of_le (m : Mem) {dst src : UInt32} (h : n ≤ (x - dst).toNat) :
    copyForward m dst src n x = m x := by
  induction n with
  | zero => rfl
  | succ n ih =>
    have hne : x ≠ dst + .ofNat n := by
      rintro rfl
      have hlt : (dst + .ofNat n - dst).toNat < 4294967296 := UInt32.toNat_lt _
      rw [toNat_add_ofNat_sub dst (by omega)] at h
      omega
    rw [copyForward_succ, storeByte_of_ne _ _ hne, ih (by omega)]

theorem copyForward_first (m : Mem) (dst src : UInt32) (hpos : 0 < n) (hn : n ≤ 4294967296) :
    copyForward m dst src n dst = m src := by
  induction n with
  | zero => exact absurd hpos (lt_irrefl 0)
  | succ n ih =>
    rw [copyForward_succ]
    rcases Nat.eq_zero_or_pos n with rfl | hn0
    · rw [add_ofNat_zero, add_ofNat_zero, storeByte_same]
      rfl
    · have hne : dst ≠ dst + .ofNat n := by
        intro h
        have hdist := toNat_add_ofNat_sub dst (k := n) (by omega)
        rw [← h, UInt32.sub_self, UInt32.toNat_zero] at hdist
        omega
      rw [storeByte_of_ne _ _ hne, ih hn0 (by omega)]

/-- **Copying without hazard.** If the destination starts at the source, or at least `n` past it,
no byte is overwritten before its turn and the copy is a block write. -/
theorem copyForward_eq_writeBytes (m : Mem) {dst src : UInt32} (hn : n ≤ 4294967296)
    (h : dst = src ∨ n ≤ (dst - src).toNat) :
    copyForward m dst src n = writeBytes m dst n fun k ↦ m (src + .ofNat k) := by
  induction n with
  | zero =>
    funext x
    rfl
  | succ n ih =>
    have hprev := ih (by omega) (h.imp id fun hle ↦ by omega)
    -- the byte copied now has not been overwritten
    have hsrc : copyForward m dst src n (src + .ofNat n) = m (src + .ofNat n) := by
      rcases h with rfl | hle
      · exact copyForward_of_le _ (by rw [toNat_add_ofNat_sub _ (by omega)])
      · refine copyForward_of_le _ ?_
        have hdist : (dst - src).toNat < 4294967296 := UInt32.toNat_lt _
        have hback : (src + .ofNat n - dst).toNat = 4294967296 + n - (dst - src).toNat := by
          have heq : src + .ofNat n - dst = .ofNat n - (dst - src) := by grind
          rw [heq, UInt32.toNat_sub, toNat_ofNat_lt (by omega : n < 2 ^ 32)]
          omega
        omega
    rw [copyForward_succ, hsrc, hprev]
    funext x
    by_cases hx : x = dst + .ofNat n
    · rw [hx, storeByte_same, writeBytes_add _ _ _ (Nat.lt_succ_self n) (by omega)]
    · have hne : (x - dst).toNat ≠ n := by
        rintro rfl
        exact hx (add_ofNat_toNat_sub dst x).symm
      rw [storeByte_of_ne _ _ hx, writeBytes, writeBytes]
      by_cases hlt : (x - dst).toNat < n
      · rw [if_pos hlt, if_pos (by omega)]
      · rw [if_neg hlt, if_neg (by omega)]

theorem copyForward_add_of_lt (m : Mem) (a src : UInt32) (hk : k < o) (hn : o + n ≤ 4294967296) :
    copyForward m (a + .ofNat o) src n (a + .ofNat k) = m (a + .ofNat k) :=
  copyForward_of_le m (not_lt.mp (not_inBlock_add_of_lt a hk hn))

/-- A copy from `a` to at least its own length past `a` copies the bytes as they were. -/
theorem copyForward_add_add (m : Mem) (a : UInt32) (hn : n ≤ o) (ho : o + n ≤ 4294967296)
    (hk : k < n) : copyForward m (a + .ofNat o) a n (a + .ofNat (o + k)) = m (a + .ofNat k) := by
  have hdist : (a + .ofNat o - a).toNat = o := toNat_add_ofNat_sub a (by omega)
  rw [copyForward_eq_writeBytes m (by omega) (Or.inr (by rw [hdist]; exact hn)), ← add_ofNat_add,
    writeBytes_add _ _ _ hk (by omega)]

theorem copyForward_down (m : Mem) (a : UInt32) {r : ℕ} (hn : r + n ≤ 4294967296) (hk : k < n) :
    copyForward m a (a + .ofNat r) n (a + .ofNat k) = m (a + .ofNat (r + k)) := by
  have hsafe : a = a + .ofNat r ∨ n ≤ (a - (a + .ofNat r)).toNat := by
    rcases Nat.eq_zero_or_pos r with rfl | hr
    · exact Or.inl (add_ofNat_zero a).symm
    · right
      have heq : a - (a + .ofNat r) = 0 - .ofNat r := by grind
      have hr' : (UInt32.ofNat r).toNat = r := by
        rw [toNat_ofNat_lt (by omega)]
      rw [heq, UInt32.toNat_sub, hr', UInt32.toNat_zero]
      omega
  rw [copyForward_eq_writeBytes m (by omega) hsafe, writeBytes_add _ _ _ hk (by omega),
    add_ofNat_add]

/-! ## Frames -/

/-- `m'` differs from `m` in the region `S` at most. -/
def SameOutside (S : UInt32 → Prop) (m m' : Mem) : Prop := ∀ x, ¬S x → m' x = m x

theorem SameOutside.refl (S : UInt32 → Prop) (m : Mem) : SameOutside S m m := fun _ _ ↦ rfl

theorem SameOutside.trans {S : UInt32 → Prop} {m'' : Mem} (h : SameOutside S m m')
    (h' : SameOutside S m' m'') : SameOutside S m m'' := fun x hx ↦ (h' x hx).trans (h x hx)

theorem SameOutside.mono {S T : UInt32 → Prop} (h : SameOutside S m m') (hle : ∀ x, S x → T x) :
    SameOutside T m m' := fun x hx ↦ h x fun hS ↦ hx (hle x hS)

theorem sameOutside_writeBytes (m : Mem) (a : UInt32) (n : ℕ) (f : ℕ → UInt8) :
    SameOutside (InBlock a n) m (writeBytes m a n f) :=
  fun _ hx ↦ writeBytes_of_le m f (not_lt.mp hx)

theorem sameOutside_copyForward (m : Mem) (dst src : UInt32) (n : ℕ) :
    SameOutside (InBlock dst n) m (copyForward m dst src n) :=
  fun _ hx ↦ copyForward_of_le m (not_lt.mp hx)

end ByteMemory
