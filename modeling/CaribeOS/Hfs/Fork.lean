import CaribeOS.Foundation.ByteMemory

/-!
# Reading a fork

`fork_read` (`booter/hfsplus_boot.c`) reads bytes `[off, off + len)` of an HFS+ fork block by
block. Each block is found in one of eight extents and read from the disk into the staging buffer
`secbuf`, and the wanted part of it is copied to the destination.

The catalog is read with `secbuf` itself as the destination. The destination then is overwritten by
every block read after the first, so that the bytes at its front are those of the last block.
`nodeAssembled_iff` says for which ranges the result is still the fork's: those inside one block,
and the odd case of a range that starts and ends in one and the same physical block.

The fork as such is described over natural numbers (`forkBlock`, `forkByte`), the code over 32-bit
words; the sector number `physBlock * sectorsPerBlock` can wrap in the code and not in the fork.
-/

namespace CaribeOS

open ByteMemory

/-! ## The disk and the volume -/

/-- The disk behind `virtio_blk_read_blocks`: its bytes, and which reads succeed. -/
structure Disk where
  bytes : ℕ → UInt8
  ok : UInt64 → UInt32 → Bool

/-- `disk_read`, on memory. A read that fails leaves memory alone. -/
def diskRead (disk : Disk) (lba : UInt64) (count buf : UInt32) (m : Mem) : Bool × Mem :=
  if disk.ok lba count then
    (true, writeBytes m buf (512 * count.toNat) fun k ↦ disk.bytes (512 * lba.toNat + k))
  else (false, m)

/-- One of the eight extents of a fork. -/
structure Extent where
  start : UInt32
  count : UInt32
deriving DecidableEq, Repr

/-- `ForkMeta`. -/
structure ForkMeta where
  size : UInt64
  ext : Fin 8 → Extent
deriving DecidableEq

/-- The `hfs` global. -/
structure HfsVolume where
  blockSize : UInt32
  totalBlocks : UInt32
  catalogNodeSize : UInt16
  firstLeafNode : UInt32
  lastLeafNode : UInt32
  totalCatalogNodes : UInt32
  catalog : ForkMeta

def hfsSectorSize : UInt32 := 512

def hfsNodeBufSize : UInt32 := 8192

/-- The block size that `fork_read` works with. -/
def HfsVolume.bs (hfs : HfsVolume) : UInt32 := if hfs.blockSize ≠ 0 then hfs.blockSize else 4096

/-- The number of sectors that `fork_read` reads for a block. -/
def HfsVolume.sectorsPerBlock (hfs : HfsVolume) : UInt32 :=
  if hfs.bs / hfsSectorSize = 0 then 1 else hfs.bs / hfsSectorSize

/-! ## `fork_read` as it stands in the source -/

/-- The search through the extents: the physical block of a logical one. -/
def findExtent : List Extent → UInt32 → Option UInt32
  | [], _ => none
  | e :: es, logical =>
    if e.count = 0 then findExtent es logical
    else if logical < e.count then some (e.start + logical)
    else findExtent es (logical - e.count)

section Code

variable (disk : Disk) (hfs : HfsVolume) (secbuf : UInt32) (ext : List Extent)

/-- The sector number that `fork_read` asks for. -/
def blockLba (physBlock : UInt32) : UInt64 := (physBlock * hfs.sectorsPerBlock).toUInt64

/-- The loop of `fork_read`. Every round reads at least one byte, so `len` bounds the rounds. -/
def forkReadLoop : ℕ → UInt32 → UInt32 → UInt32 → Mem → Bool × Mem
  | 0, _, _, len, m => (len = 0, m)
  | fuel + 1, off, out, len, m =>
    if len = 0 then (true, m)
    else
      let fileBlock := off / hfs.bs
      let inBlock := off - fileBlock * hfs.bs
      match findExtent ext fileBlock with
      | none => (false, m)
      | some physBlock =>
        match diskRead disk (blockLba hfs physBlock) hfs.sectorsPerBlock secbuf m with
        | (false, m) => (false, m)
        | (true, m) =>
          let chunk := if len < hfs.bs - inBlock then len else hfs.bs - inBlock
          let m := copyForward m out (secbuf + inBlock) chunk.toNat
          forkReadLoop fuel (off + chunk) (out + chunk) (len - chunk) m

/-- `fork_read` for a fork that is not a null pointer: whether it returns `0`, and the memory it
leaves. -/
def forkRead (fk : ForkMeta) (off dst len : UInt32) (m : Mem) : Bool × Mem :=
  if fk.size = 0 then (false, m)
  else if hfsNodeBufSize < hfs.bs then (false, m)
  else if fk.size ≤ off.toUInt64 then (false, m)
  else
    let len := if fk.size < off.toUInt64 + len.toUInt64 then (fk.size - off.toUInt64).toUInt32
      else len
    forkReadLoop disk hfs secbuf (List.ofFn fk.ext) len.toNat off dst len m

end Code

/-! ## The fork -/

/-- The physical block of logical block `n`, as a number. -/
def forkBlock : List Extent → ℕ → Option ℕ
  | [], _ => none
  | e :: es, n => if n < e.count.toNat then some (e.start.toNat + n)
    else forkBlock es (n - e.count.toNat)

/-- Byte `x` of a fork on a volume with blocks of `bs` bytes. -/
def forkByte (disk : Disk) (bs : ℕ) (ext : List Extent) (x : ℕ) : Option UInt8 :=
  (forkBlock ext (x / bs)).map fun p ↦ disk.bytes (p * bs + x % bs)

/-- The search in the code finds the fork's block, up to the width of a word. -/
theorem findExtent_eq (ext : List Extent) (n : UInt32) :
    findExtent ext n = (forkBlock ext n.toNat).map UInt32.ofNat := by
  induction ext generalizing n with
  | nil => rfl
  | cons e es ih =>
    rw [findExtent, forkBlock]
    by_cases hzero : e.count = 0
    · rw [if_pos hzero, hzero, ih]
      rfl
    · rw [if_neg hzero]
      by_cases hlt : n < e.count
      · rw [if_pos hlt, if_pos (UInt32.lt_iff_toNat_lt.mp hlt), Option.map_some, UInt32.ofNat_add,
          UInt32.ofNat_toNat, UInt32.ofNat_toNat]
      · have hle : e.count ≤ n := UInt32.not_lt.mp hlt
        rw [if_neg hlt, if_neg (mt UInt32.lt_iff_toNat_lt.mpr hlt), ih,
          UInt32.toNat_sub_of_le _ _ hle]

/-! ## One round of the loop -/

/-- The block sizes that the reader is meant for. -/
structure HfsVolume.SaneBlockSize (hfs : HfsVolume) : Prop where
  dvd : 512 ∣ hfs.blockSize.toNat
  le : hfs.blockSize.toNat ≤ 8192

theorem HfsVolume.SaneBlockSize.toNat_bs {hfs : HfsVolume} (h : hfs.SaneBlockSize) :
    hfs.bs.toNat = 512 * hfs.sectorsPerBlock.toNat ∧ 0 < hfs.sectorsPerBlock.toNat ∧
      hfs.bs.toNat ≤ 8192 := by
  obtain ⟨hdvd, hle⟩ := h
  have hbs : 512 ∣ hfs.bs.toNat ∧ 0 < hfs.bs.toNat ∧ hfs.bs.toNat ≤ 8192 := by
    rw [bs]
    by_cases hzero : hfs.blockSize = 0
    · rw [if_neg (not_not.mpr hzero)]
      decide
    · rw [if_pos hzero]
      rw [← UInt32.toNat_inj, UInt32.toNat_zero] at hzero
      exact ⟨hdvd, Nat.pos_of_ne_zero hzero, hle⟩
  have hdiv : (hfs.bs / hfsSectorSize).toNat = hfs.bs.toNat / 512 := UInt32.toNat_div _ _
  have hne : ¬hfs.bs / hfsSectorSize = 0 := by
    rw [← UInt32.toNat_inj, hdiv, UInt32.toNat_zero]
    omega
  rw [sectorsPerBlock, if_neg hne, hdiv]
  omega

variable {b fuel k o u p : ℕ} {len off out : UInt32} {m : Mem}

section Loop

variable (disk : Disk) (hfs : HfsVolume) (secbuf : UInt32) (ext : List Extent)

/-- The extents cover block `b` and the disk delivers it. -/
def BlockOk (b : ℕ) : Prop :=
  ∃ p, forkBlock ext b = some p ∧ disk.ok (blockLba hfs (.ofNat p)) hfs.sectorsPerBlock = true

/-- The disk address that the code reads block `b` from. -/
def blockAddr (b : ℕ) : ℕ := 512 * (blockLba hfs (.ofNat ((forkBlock ext b).getD 0))).toNat

/-- Memory with block `b` in the staging buffer. -/
def stageBlock (b : ℕ) (m : Mem) : Mem :=
  writeBytes m secbuf hfs.bs.toNat fun k ↦ disk.bytes (blockAddr hfs ext b + k)

/-- The part of the current block that a round copies. -/
def chunkOf (off len : UInt32) : UInt32 :=
  if len < hfs.bs - (off - off / hfs.bs * hfs.bs) then len
  else hfs.bs - (off - off / hfs.bs * hfs.bs)

variable {disk hfs secbuf ext}

@[simp] theorem forkReadLoop_zero (fuel : ℕ) (off out : UInt32) (m : Mem) :
    forkReadLoop disk hfs secbuf ext fuel off out 0 m = (true, m) := by
  cases fuel with
  | zero => rfl
  | succ fuel => rw [forkReadLoop, if_pos rfl]

theorem toNat_inBlock (off : UInt32) :
    (off - off / hfs.bs * hfs.bs).toNat = off.toNat % hfs.bs.toNat := by
  have hmul : (off / hfs.bs * hfs.bs).toNat = off.toNat / hfs.bs.toNat * hfs.bs.toNat := by
    have hle : off.toNat / hfs.bs.toNat * hfs.bs.toNat ≤ off.toNat := Nat.div_mul_le_self _ _
    have hoff := off.toNat_lt
    rw [UInt32.toNat_mul, UInt32.toNat_div, Nat.mod_eq_of_lt (by omega)]
  have hle : off / hfs.bs * hfs.bs ≤ off := by
    rw [UInt32.le_iff_toNat_le, hmul]
    exact Nat.div_mul_le_self _ _
  rw [UInt32.toNat_sub_of_le _ _ hle, hmul]
  have := Nat.div_add_mod' off.toNat hfs.bs.toNat
  omega

theorem toNat_chunkOf (hs : hfs.SaneBlockSize) (off len : UInt32) :
    (chunkOf hfs off len).toNat = min len.toNat (hfs.bs.toNat - off.toNat % hfs.bs.toNat) := by
  obtain ⟨hbs, hpos, -⟩ := hs.toNat_bs
  have hmod : off.toNat % hfs.bs.toNat < hfs.bs.toNat := Nat.mod_lt _ (by omega)
  have hrest : (hfs.bs - (off - off / hfs.bs * hfs.bs)).toNat
      = hfs.bs.toNat - off.toNat % hfs.bs.toNat := by
    rw [UInt32.toNat_sub_of_le, toNat_inBlock]
    rw [UInt32.le_iff_toNat_le, toNat_inBlock]
    exact hmod.le
  rw [chunkOf]
  by_cases hlt : len < hfs.bs - (off - off / hfs.bs * hfs.bs)
  · rw [if_pos hlt]
    rw [UInt32.lt_iff_toNat_lt, hrest] at hlt
    omega
  · rw [if_neg hlt, hrest]
    rw [UInt32.lt_iff_toNat_lt, hrest] at hlt
    omega

theorem forkReadLoop_of_not_ok (hlen : len ≠ 0)
    (h : ¬BlockOk disk hfs ext (off.toNat / hfs.bs.toNat)) :
    (forkReadLoop disk hfs secbuf ext (fuel + 1) off out len m).1 = false := by
  rw [forkReadLoop, if_neg hlen]
  simp only [findExtent_eq, UInt32.toNat_div]
  cases hfind : forkBlock ext (off.toNat / hfs.bs.toNat) with
  | none => rfl
  | some p =>
    have hread : disk.ok (blockLba hfs (.ofNat p)) hfs.sectorsPerBlock = false := by
      by_contra hok
      rw [Bool.not_eq_false] at hok
      exact h ⟨p, hfind, hok⟩
    simp only [Option.map_some, diskRead, hread]
    rfl

theorem forkReadLoop_of_ok (hs : hfs.SaneBlockSize) (hlen : len ≠ 0)
    (h : BlockOk disk hfs ext (off.toNat / hfs.bs.toNat)) :
    forkReadLoop disk hfs secbuf ext (fuel + 1) off out len m
      = forkReadLoop disk hfs secbuf ext fuel (off + chunkOf hfs off len)
          (out + chunkOf hfs off len) (len - chunkOf hfs off len)
          (copyForward (stageBlock disk hfs secbuf ext (off.toNat / hfs.bs.toNat) m) out
            (secbuf + .ofNat (off.toNat % hfs.bs.toNat)) (chunkOf hfs off len).toNat) := by
  obtain ⟨p, hfind, hok⟩ := h
  have hstage : stageBlock disk hfs secbuf ext (off.toNat / hfs.bs.toNat) m
      = (diskRead disk (blockLba hfs (.ofNat p)) hfs.sectorsPerBlock secbuf m).2 := by
    rw [stageBlock, diskRead, if_pos hok, blockAddr, hfind, Option.getD_some, hs.toNat_bs.1]
  have hin : UInt32.ofNat (off.toNat % hfs.bs.toNat) = off - off / hfs.bs * hfs.bs := by
    rw [← toNat_inBlock, UInt32.ofNat_toNat]
  rw [forkReadLoop, if_neg hlen, hstage, hin]
  simp only [findExtent_eq, UInt32.toNat_div, hfind, Option.map_some, diskRead, if_pos hok]
  rfl

/-- What a round leaves to do: it ends the range, or it ends at a block boundary. -/
theorem chunkOf_cases (hs : hfs.SaneBlockSize) (htop : off.toNat + len.toNat ≤ 4294967296) :
    (chunkOf hfs off len = len ∧ off.toNat % hfs.bs.toNat + len.toNat ≤ hfs.bs.toNat) ∨
      ((chunkOf hfs off len).toNat + off.toNat % hfs.bs.toNat = hfs.bs.toNat ∧
        (off + chunkOf hfs off len).toNat = off.toNat + (chunkOf hfs off len).toNat ∧
        (len - chunkOf hfs off len).toNat + (chunkOf hfs off len).toNat = len.toNat ∧
        (chunkOf hfs off len).toNat < len.toNat ∧ 0 < (chunkOf hfs off len).toNat) := by
  obtain ⟨hbs, hpos, -⟩ := hs.toNat_bs
  have hchunk := toNat_chunkOf hs off len
  have hmod : off.toNat % hfs.bs.toNat < hfs.bs.toNat := Nat.mod_lt _ (by omega)
  generalize off.toNat % hfs.bs.toNat = r at hchunk hmod ⊢
  rcases Nat.lt_or_ge (hfs.bs.toNat - r) len.toNat with hlt | hge
  · right
    have hle : chunkOf hfs off len ≤ len := by
      rw [UInt32.le_iff_toNat_le]
      omega
    rw [UInt32.toNat_sub_of_le _ _ hle, UInt32.toNat_add, Nat.mod_eq_of_lt (by omega)]
    omega
  · left
    refine ⟨UInt32.toNat_inj.mp ?_, ?_⟩ <;> omega

theorem div_eq_of_lt_chunkOf (hs : hfs.SaneBlockSize) {x : ℕ} (hle : off.toNat ≤ x)
    (hlt : x < off.toNat + (chunkOf hfs off len).toNat) :
    x / hfs.bs.toNat = off.toNat / hfs.bs.toNat ∧
      x % hfs.bs.toNat = off.toNat % hfs.bs.toNat + (x - off.toNat) := by
  have hchunk := toNat_chunkOf hs off len
  have hsplit := Nat.div_add_mod' off.toNat hfs.bs.toNat
  have hx : x = off.toNat / hfs.bs.toNat * hfs.bs.toNat
      + (off.toNat % hfs.bs.toNat + (x - off.toNat)) := by omega
  constructor
  · rw [hx, Nat.add_comm, Nat.add_mul_div_right _ _ (by omega), Nat.div_eq_of_lt (by omega),
      Nat.zero_add]
  · conv_lhs => rw [hx]
    rw [Nat.add_comm, Nat.add_mul_mod_self_right, Nat.mod_eq_of_lt (by omega)]

/-- **The loop succeeds** exactly when every block of the range can be read. -/
theorem forkReadLoop_fst_iff (hs : hfs.SaneBlockSize) (hfuel : len.toNat ≤ fuel)
    (htop : off.toNat + len.toNat ≤ 4294967296) :
    (forkReadLoop disk hfs secbuf ext fuel off out len m).1 = true ↔
      ∀ x, off.toNat ≤ x → x < off.toNat + len.toNat → BlockOk disk hfs ext (x / hfs.bs.toNat) := by
  induction fuel generalizing off out len m with
  | zero =>
    obtain rfl : len = 0 := UInt32.toNat_inj.mp (by rw [UInt32.toNat_zero]; omega)
    exact ⟨fun _ x hle hlt ↦ absurd hlt (by omega), fun _ ↦ rfl⟩
  | succ fuel ih =>
    by_cases hlen : len = 0
    · rw [hlen, forkReadLoop_zero, UInt32.toNat_zero]
      exact ⟨fun _ x hle hlt ↦ absurd hlt (by omega), fun _ ↦ rfl⟩
    have hpos : 0 < len.toNat := by
      rw [← UInt32.toNat_inj, UInt32.toNat_zero] at hlen
      omega
    by_cases hok : BlockOk disk hfs ext (off.toNat / hfs.bs.toNat)
    · rw [forkReadLoop_of_ok hs hlen hok]
      rcases chunkOf_cases hs htop with ⟨hchunk, -⟩ | ⟨-, hoff, hrest, hlt, hchunk⟩
      · rw [hchunk, UInt32.sub_self, forkReadLoop_zero]
        refine ⟨fun _ x hle hx ↦ ?_, fun _ ↦ rfl⟩
        rwa [(div_eq_of_lt_chunkOf hs hle (by rwa [hchunk])).1]
      · rw [ih (by omega) (by omega), hoff]
        constructor
        · intro h x hle hx
          rcases Nat.lt_or_ge x (off.toNat + (chunkOf hfs off len).toNat) with hin | hout
          · rwa [(div_eq_of_lt_chunkOf hs hle hin).1]
          · exact h x hout (by omega)
        · intro h x hle hx
          exact h x (by omega) (by omega)
    · rw [forkReadLoop_of_not_ok hlen hok]
      refine ⟨fun h ↦ absurd h (by decide), fun h ↦ ?_⟩
      exact absurd (h off.toNat le_rfl (by omega)) hok

theorem forkReadLoop_round (hs : hfs.SaneBlockSize) (hfuel : len.toNat ≤ fuel + 1)
    (htop : off.toNat + len.toNat ≤ 4294967296) (hpos : 0 < len.toNat)
    (hok : (forkReadLoop disk hfs secbuf ext (fuel + 1) off out len m).1 = true) :
    forkReadLoop disk hfs secbuf ext (fuel + 1) off out len m
      = forkReadLoop disk hfs secbuf ext fuel (off + chunkOf hfs off len)
          (out + chunkOf hfs off len) (len - chunkOf hfs off len)
          (copyForward (stageBlock disk hfs secbuf ext (off.toNat / hfs.bs.toNat) m) out
            (secbuf + .ofNat (off.toNat % hfs.bs.toNat)) (chunkOf hfs off len).toNat) :=
  forkReadLoop_of_ok hs (by rintro rfl; exact absurd hpos (by decide))
    ((forkReadLoop_fst_iff hs hfuel htop).mp hok _ le_rfl (by omega))

/-! ## Reading into the staging buffer

The rounds after the first start at a block boundary. With the destination inside `secbuf`, each of
them puts its block at the front of the buffer first. -/

/-- What the rounds from the aligned offset `u` on make of the buffer when they copy to its
position `o`: the last block is at the front, and if `o` is past the first block, every block is
also where it belongs. -/
structure TailAssembled (disk : Disk) (hfs : HfsVolume) (secbuf : UInt32) (ext : List Extent)
    (u len o : ℕ) (m m' : Mem) : Prop where
  front : m' secbuf = disk.bytes (blockAddr hfs ext ((u + len - 1) / hfs.bs.toNat))
  lastByte : m' (secbuf + .ofNat (o + ((u + len - 1) / hfs.bs.toNat * hfs.bs.toNat - u)))
    = disk.bytes (blockAddr hfs ext ((u + len - 1) / hfs.bs.toNat))
  frame : ∀ k, hfs.bs.toNat ≤ k → k < o → m' (secbuf + .ofNat k) = m (secbuf + .ofNat k)
  block : hfs.bs.toNat ≤ o → ∀ k < hfs.bs.toNat, m' (secbuf + .ofNat k)
    = disk.bytes (blockAddr hfs ext ((u + len - 1) / hfs.bs.toNat) + k)
  bytes : hfs.bs.toNat ≤ o → ∀ k < len, m' (secbuf + .ofNat (o + k))
    = disk.bytes (blockAddr hfs ext ((u + k) / hfs.bs.toNat) + (u + k) % hfs.bs.toNat)

theorem stageBlock_add (hs : hfs.SaneBlockSize) (b : ℕ) (m : Mem) (hk : k < hfs.bs.toNat) :
    stageBlock disk hfs secbuf ext b m (secbuf + .ofNat k)
      = disk.bytes (blockAddr hfs ext b + k) := by
  have := hs.toNat_bs.2.2
  exact writeBytes_add _ _ _ hk (by omega)

theorem stageBlock_add_of_le (b : ℕ) (m : Mem) (hk : hfs.bs.toNat ≤ k) (hlt : k < 4294967296) :
    stageBlock disk hfs secbuf ext b m (secbuf + .ofNat k) = m (secbuf + .ofNat k) :=
  writeBytes_add_of_le _ _ _ hk hlt

theorem stageBlock_front (hs : hfs.SaneBlockSize) (b : ℕ) (m : Mem) :
    stageBlock disk hfs secbuf ext b m secbuf = disk.bytes (blockAddr hfs ext b) := by
  obtain ⟨hbs, hspb, -⟩ := hs.toNat_bs
  have hfirst : stageBlock disk hfs secbuf ext b m (secbuf + .ofNat 0)
      = disk.bytes (blockAddr hfs ext b + 0) := stageBlock_add hs b m (by omega)
  rwa [add_ofNat_zero, Nat.add_zero] at hfirst

theorem div_mod_of_aligned (haligned : u % b = 0) (hk : k < b) :
    (u + k) / b = u / b ∧ (u + k) % b = k := by
  obtain ⟨q, rfl⟩ := Nat.dvd_of_mod_eq_zero haligned
  have hpos : 0 < b := by omega
  rw [Nat.mul_add_div hpos, Nat.mul_add_mod, Nat.div_eq_of_lt hk, Nat.mod_eq_of_lt hk,
    Nat.mul_div_cancel_left _ hpos]
  exact ⟨rfl, rfl⟩

theorem le_div_mul_of_aligned {x : ℕ} (haligned : u % b = 0) (hle : u ≤ x) : u ≤ x / b * b := by
  have hmul : u / b * b = u := Nat.div_mul_cancel (Nat.dvd_of_mod_eq_zero haligned)
  rw [← hmul]
  exact Nat.mul_le_mul_right _ (Nat.div_le_div_right hle)

theorem tailAssembled_last (hs : hfs.SaneBlockSize) {len : ℕ} (m : Mem) (hpos : 0 < len)
    (hle : len ≤ hfs.bs.toNat) (haligned : u % hfs.bs.toNat = 0) (ho : 0 < o)
    (hbuf : o + len ≤ 8192) :
    TailAssembled disk hfs secbuf ext u len o m
      (copyForward (stageBlock disk hfs secbuf ext (u / hfs.bs.toNat) m) (secbuf + .ofNat o) secbuf
        len) := by
  have hu : u / hfs.bs.toNat * hfs.bs.toNat = u := by
    have := Nat.div_add_mod' u hfs.bs.toNat
    omega
  have hblock : ∀ k < len, (u + k) / hfs.bs.toNat = u / hfs.bs.toNat ∧
      (u + k) % hfs.bs.toNat = k := fun k hk ↦ div_mod_of_aligned haligned (by omega)
  have hlast : (u + len - 1) / hfs.bs.toNat = u / hfs.bs.toNat := by
    rw [Nat.add_sub_assoc hpos]
    exact (hblock (len - 1) (by omega)).1
  constructor
  · have hfront := copyForward_add_of_lt (stageBlock disk hfs secbuf ext (u / hfs.bs.toNat) m)
      secbuf secbuf ho (by omega : o + len ≤ 4294967296)
    rw [add_ofNat_zero] at hfront
    rw [hlast, hfront, stageBlock_front hs]
  · rw [hlast, hu, Nat.sub_self, Nat.add_zero, copyForward_first _ _ _ hpos (by omega),
      stageBlock_front hs]
  · intro k hk hko
    rw [copyForward_add_of_lt _ _ _ hko (by omega), stageBlock_add_of_le _ _ hk (by omega)]
  · intro hbo k hk
    rw [hlast, copyForward_add_of_lt _ _ _ (by omega) (by omega), stageBlock_add hs _ _ hk]
  · intro hbo k hk
    rw [copyForward_add_add _ _ (by omega) (by omega) hk, stageBlock_add hs _ _ (by omega),
      (hblock k hk).1, (hblock k hk).2]

/-- A round before the last: what the later rounds do to the buffer they find is what all rounds
do to the buffer at the start. -/
theorem TailAssembled.cons (hs : hfs.SaneBlockSize) {len : ℕ} {m' : Mem} (hlt : hfs.bs.toNat < len)
    (haligned : u % hfs.bs.toNat = 0) (hbuf : o + len ≤ 8192)
    (h : TailAssembled disk hfs secbuf ext (u + hfs.bs.toNat) (len - hfs.bs.toNat)
      (o + hfs.bs.toNat)
      (copyForward (stageBlock disk hfs secbuf ext (u / hfs.bs.toNat) m) (secbuf + .ofNat o) secbuf
        hfs.bs.toNat) m') : TailAssembled disk hfs secbuf ext u len o m m' := by
  have hlast : u + hfs.bs.toNat + (len - hfs.bs.toNat) - 1 = u + len - 1 := by omega
  obtain ⟨hfront, hlastByte, hframe, hblock, hbytes⟩ := h
  rw [hlast] at hfront hlastByte hblock
  refine ⟨hfront, ?_, fun k hk hko ↦ ?_, fun hbo ↦ hblock (by omega), fun hbo k hk ↦ ?_⟩
  · have hge : u + hfs.bs.toNat ≤ (u + len - 1) / hfs.bs.toNat * hfs.bs.toNat :=
      le_div_mul_of_aligned (by rw [Nat.add_mod_right, haligned]) (by omega)
    rw [← hlastByte]
    congr 3
    omega
  · rw [hframe k hk (by omega), copyForward_add_of_lt _ _ _ hko (by omega),
      stageBlock_add_of_le _ _ hk (by omega)]
  · rcases Nat.lt_or_ge k hfs.bs.toNat with hin | hout
    · -- copied in this round, and past the reach of the later ones
      rw [hframe (o + k) (by omega) (by omega), copyForward_add_add _ _ hbo (by omega) hin,
        stageBlock_add hs _ _ hin, (div_mod_of_aligned haligned hin).1,
        (div_mod_of_aligned haligned hin).2]
    · have hk' := hbytes (by omega) (k - hfs.bs.toNat) (by omega)
      rwa [Nat.add_assoc, Nat.add_assoc, Nat.add_sub_cancel' hout] at hk'

/-- The rounds from an aligned offset on, with the destination inside the staging buffer. -/
theorem tailAssembled_loop (hs : hfs.SaneBlockSize) (hfuel : len.toNat ≤ fuel)
    (htop : off.toNat + len.toNat ≤ 4294967296) (hpos : 0 < len.toNat)
    (haligned : off.toNat % hfs.bs.toNat = 0) (ho : 0 < o) (hbuf : o + len.toNat ≤ 8192)
    (hok : (forkReadLoop disk hfs secbuf ext fuel off (secbuf + .ofNat o) len m).1 = true) :
    TailAssembled disk hfs secbuf ext off.toNat len.toNat o m
      (forkReadLoop disk hfs secbuf ext fuel off (secbuf + .ofNat o) len m).2 := by
  induction fuel generalizing off len o m with
  | zero => omega
  | succ fuel ih =>
    have hround := forkReadLoop_round hs hfuel htop hpos hok
    rw [hround] at hok ⊢
    rw [haligned, add_ofNat_zero] at hok ⊢
    rcases chunkOf_cases hs htop with ⟨hchunk, hle⟩ | ⟨hchunk, hoff, hrest, hlt, hcpos⟩
    · rw [hchunk, UInt32.sub_self, forkReadLoop_zero]
      exact tailAssembled_last hs m hpos (by omega) haligned ho hbuf
    · rw [haligned, Nat.add_zero] at hchunk
      have hout : secbuf + .ofNat o + chunkOf hfs off len = secbuf + .ofNat (o + hfs.bs.toNat) := by
        rw [← hchunk, ← add_ofNat_add, UInt32.ofNat_toNat]
      have hnext : (off + chunkOf hfs off len).toNat % hfs.bs.toNat = 0 := by
        rw [hoff, hchunk, Nat.add_mod_right, haligned]
      rw [hout, hchunk] at hok ⊢
      have htail := ih (by omega) (by omega) (by omega) hnext (by omega) (by omega) hok
      rw [hoff, hchunk, show (len - chunkOf hfs off len).toNat = len.toNat - hfs.bs.toNat by omega]
        at htail
      exact htail.cons hs (by omega) haligned hbuf

/-- **Reading a range inside one block.** -/
theorem forkReadLoop_oneBlock (hs : hfs.SaneBlockSize) (hfuel : len.toNat ≤ fuel)
    (hone : off.toNat % hfs.bs.toNat + len.toNat ≤ hfs.bs.toNat)
    (hok : (forkReadLoop disk hfs secbuf ext fuel off secbuf len m).1 = true) (hk : k < len.toNat) :
    BlockOk disk hfs ext (off.toNat / hfs.bs.toNat) ∧
      (forkReadLoop disk hfs secbuf ext fuel off secbuf len m).2 (secbuf + .ofNat k)
        = disk.bytes (blockAddr hfs ext (off.toNat / hfs.bs.toNat)
            + (off.toNat % hfs.bs.toNat + k)) := by
  obtain ⟨fuel, rfl⟩ : ∃ n, fuel = n + 1 := Nat.exists_eq_succ_of_ne_zero (by omega)
  have hlen : len ≠ 0 := by
    rintro rfl
    exact absurd hk (Nat.not_lt_zero k)
  have hblock : BlockOk disk hfs ext (off.toNat / hfs.bs.toNat) := by
    by_contra hnot
    rw [forkReadLoop_of_not_ok hlen hnot] at hok
    exact Bool.noConfusion hok
  have hchunk : chunkOf hfs off len = len := by
    rw [← UInt32.toNat_inj, toNat_chunkOf hs]
    omega
  have hmax := hs.toNat_bs.2.2
  refine ⟨hblock, ?_⟩
  rw [forkReadLoop_of_ok hs hlen hblock, hchunk, UInt32.sub_self, forkReadLoop_zero]
  dsimp only
  rw [copyForward_down _ _ (by omega) hk, stageBlock_add hs _ _ (by omega)]

/-- **Reading a range of several blocks.** The first round leaves the rest to the aligned ones. -/
theorem forkReadLoop_severalBlocks (hs : hfs.SaneBlockSize) (hfuel : len.toNat ≤ fuel)
    (htop : off.toNat + len.toNat ≤ 4294967296) (hmax : len.toNat ≤ 8192)
    (hmany : hfs.bs.toNat < off.toNat % hfs.bs.toNat + len.toNat)
    (hok : (forkReadLoop disk hfs secbuf ext fuel off secbuf len m).1 = true) :
    ∃ m₁ c, c + off.toNat % hfs.bs.toNat = hfs.bs.toNat ∧
      TailAssembled disk hfs secbuf ext (off.toNat + c) (len.toNat - c) c m₁
        (forkReadLoop disk hfs secbuf ext fuel off secbuf len m).2 := by
  obtain ⟨hbs, hspb, -⟩ := hs.toNat_bs
  obtain ⟨fuel, rfl⟩ : ∃ n, fuel = n + 1 := by
    refine Nat.exists_eq_succ_of_ne_zero ?_
    have := Nat.mod_lt off.toNat (by omega : 0 < hfs.bs.toNat)
    omega
  have hmod : off.toNat % hfs.bs.toNat < hfs.bs.toNat := Nat.mod_lt _ (by omega)
  have hround := forkReadLoop_round hs hfuel htop (by omega) hok
  rw [hround] at hok ⊢
  rcases chunkOf_cases hs htop with ⟨-, hle⟩ | ⟨hchunk, hoff, hrest, hlt, hcpos⟩
  · omega
  · have hout : secbuf + chunkOf hfs off len = secbuf + .ofNat (chunkOf hfs off len).toNat := by
      rw [UInt32.ofNat_toNat]
    have hnext : (off + chunkOf hfs off len).toNat % hfs.bs.toNat = 0 := by
      have hsplit := Nat.div_add_mod' off.toNat hfs.bs.toNat
      have heq : off.toNat + (chunkOf hfs off len).toNat
          = off.toNat / hfs.bs.toNat * hfs.bs.toNat + hfs.bs.toNat := by omega
      rw [hoff, heq, Nat.add_mod_right, Nat.mul_mod_left]
    rw [hout] at hok ⊢
    have htail := tailAssembled_loop hs (by omega) (by omega) (by omega) hnext hcpos (by omega) hok
    rw [hoff, show (len - chunkOf hfs off len).toNat
      = len.toNat - (chunkOf hfs off len).toNat by omega] at htail
    exact ⟨_, _, hchunk, htail⟩

end Loop

/-! ## A node read in place -/

section Node

variable {hfs : HfsVolume} {fk : ForkMeta} {secbuf off len : UInt32}

/-- Whatever the disk holds, a read into the staging buffer that succeeds leaves the fork's bytes
`[off, off + len)` there. -/
def NodeAssembled (hfs : HfsVolume) (fk : ForkMeta) (secbuf off len : UInt32) : Prop :=
  ∀ disk m m', forkRead disk hfs secbuf fk off secbuf len m = (true, m') →
    ∀ k < len.toNat, forkByte disk hfs.bs.toNat (List.ofFn fk.ext) (off.toNat + k)
      = some (m' (secbuf + .ofNat k))

/-- A range inside the fork, no longer than the staging buffer, on a volume with a block size that
the reader is meant for. -/
structure NodeRange (hfs : HfsVolume) (fk : ForkMeta) (off len : UInt32) : Prop where
  sane : hfs.SaneBlockSize
  le : len.toNat ≤ 8192
  inside : off.toNat + len.toNat ≤ fk.size.toNat

/-- Every byte of the range has a block in the eight extents. -/
def InExtents (hfs : HfsVolume) (ext : List Extent) (off len : ℕ) : Prop :=
  ∀ x, off ≤ x → x < off + len → ∃ p, forkBlock ext (x / hfs.bs.toNat) = some p

/-- The sector numbers of the range's blocks fit in 32 bits. -/
def SectorsFit (hfs : HfsVolume) (ext : List Extent) (off len : ℕ) : Prop :=
  ∀ x, off ≤ x → x < off + len → ∀ p, forkBlock ext (x / hfs.bs.toNat) = some p →
    p * hfs.sectorsPerBlock.toNat < 4294967296

/-- The range lies in one block. -/
def InOneBlock (hfs : HfsVolume) (off len : ℕ) : Prop := off % hfs.bs.toNat + len ≤ hfs.bs.toNat

/-- The range starts at a block boundary, and its first and last block are the same on the disk. -/
def EndsInFirstBlock (hfs : HfsVolume) (ext : List Extent) (off len : ℕ) : Prop :=
  off % hfs.bs.toNat = 0 ∧
    forkBlock ext (off / hfs.bs.toNat) = forkBlock ext ((off + len - 1) / hfs.bs.toNat)

theorem div_mod_of_inOneBlock {off len : ℕ} (hone : InOneBlock hfs off len) (hk : k < len) :
    (off + k) / hfs.bs.toNat = off / hfs.bs.toNat ∧
      (off + k) % hfs.bs.toNat = off % hfs.bs.toNat + k := by
  rw [InOneBlock] at hone
  have hsplit := Nat.div_add_mod' off hfs.bs.toNat
  have hblock := div_mod_of_aligned (Nat.mul_mod_left (off / hfs.bs.toNat) hfs.bs.toNat)
    (by omega : off % hfs.bs.toNat + k < hfs.bs.toNat)
  rwa [← Nat.add_assoc, hsplit, Nat.mul_div_cancel _ (by omega)] at hblock

/-- The code reads a block from where it is exactly when the sector number fits. -/
theorem blockAddr_eq_iff (hs : hfs.SaneBlockSize) {ext : List Extent}
    (hp : forkBlock ext b = some p) :
    blockAddr hfs ext b = p * hfs.bs.toNat ↔ p * hfs.sectorsPerBlock.toNat < 4294967296 := by
  obtain ⟨hbs, -, -⟩ := hs.toNat_bs
  have haddr : blockAddr hfs ext b = 512 * (p * hfs.sectorsPerBlock.toNat % 4294967296) := by
    rw [blockAddr, hp, Option.getD_some, blockLba, UInt32.toNat_toUInt64, UInt32.toNat_mul,
      UInt32.toNat_ofNat', Nat.mod_mul_mod]
  have hmul : p * hfs.bs.toNat = 512 * (p * hfs.sectorsPerBlock.toNat) := by
    rw [hbs, Nat.mul_left_comm]
  omega

theorem blockLba_eq (hfit : p * hfs.sectorsPerBlock.toNat < 4294967296) :
    blockLba hfs (.ofNat p) = .ofNat (p * hfs.sectorsPerBlock.toNat) := by
  rw [← UInt64.toNat_inj, blockLba, UInt32.toNat_toUInt64, UInt32.toNat_mul, UInt32.toNat_ofNat',
    Nat.mod_mul_mod, UInt64.toNat_ofNat', Nat.mod_eq_of_lt hfit, Nat.mod_eq_of_lt (by omega)]

/-- `fork_read` cuts the range at the end of the fork and reads what is left. -/
theorem forkRead_eq_clamped (disk : Disk) (hs : hfs.SaneBlockSize)
    (hstart : off.toNat < fk.size.toNat) (secbuf dst len : UInt32) (m : Mem) :
    ∃ n : UInt32, n.toNat = min len.toNat (fk.size.toNat - off.toNat) ∧
      forkRead disk hfs secbuf fk off dst len m
        = forkReadLoop disk hfs secbuf (List.ofFn fk.ext) n.toNat off dst n m := by
  have hoff := off.toNat_lt
  have hlt := len.toNat_lt
  have hzero : fk.size ≠ 0 := by
    rw [ne_eq, ← UInt64.toNat_inj, UInt64.toNat_zero]
    omega
  have hbs : ¬hfsNodeBufSize < hfs.bs := by
    exact not_lt.mpr hs.toNat_bs.2.2
  have hinside : ¬fk.size ≤ off.toUInt64 := by
    rw [UInt64.le_iff_toNat_le, UInt32.toNat_toUInt64]
    omega
  have hend : fk.size < off.toUInt64 + len.toUInt64 ↔ fk.size.toNat < off.toNat + len.toNat := by
    rw [UInt64.lt_iff_toNat_lt, UInt64.toNat_add, UInt32.toNat_toUInt64, UInt32.toNat_toUInt64,
      Nat.mod_eq_of_lt (by omega)]
  rw [forkRead, if_neg hzero, if_neg hbs, if_neg hinside]
  by_cases hlong : fk.size < off.toUInt64 + len.toUInt64
  · have hrest : (fk.size - off.toUInt64).toUInt32.toNat = fk.size.toNat - off.toNat := by
      rw [hend] at hlong
      rw [UInt64.toNat_toUInt32, UInt64.toNat_sub_of_le _ _ (UInt64.le_of_lt (UInt64.not_le.mp hinside)),
        UInt32.toNat_toUInt64]
      exact Nat.mod_eq_of_lt (by omega)
    refine ⟨(fk.size - off.toUInt64).toUInt32, ?_, by rw [if_pos hlong]⟩
    rw [hend] at hlong
    omega
  · refine ⟨len, ?_, by rw [if_neg hlong]⟩
    rw [hend] at hlong
    omega

theorem forkRead_eq_loop (disk : Disk) (hs : hfs.SaneBlockSize)
    (hsize : off.toNat + len.toNat ≤ fk.size.toNat) (hpos : 0 < len.toNat) (dst : UInt32)
    (m : Mem) : forkRead disk hfs secbuf fk off dst len m
      = forkReadLoop disk hfs secbuf (List.ofFn fk.ext) len.toNat off dst len m := by
  obtain ⟨n, hn, hread⟩ := forkRead_eq_clamped disk hs
    (by omega : off.toNat < fk.size.toNat) secbuf dst len m
  obtain rfl : n = len := UInt32.toNat_inj.mp (by omega)
  exact hread

/-! ### The ranges that are read right -/

theorem nodeAssembled_of_inOneBlock (hr : NodeRange hfs fk off len)
    (hone : InOneBlock hfs off.toNat len.toNat)
    (hfit : SectorsFit hfs (List.ofFn fk.ext) off.toNat len.toNat) :
    NodeAssembled hfs fk secbuf off len := by
  intro disk m m' hread k hk
  rw [forkRead_eq_loop disk hr.sane hr.inside (by omega)] at hread
  obtain ⟨⟨p, hp, -⟩, hbyte⟩ :=
    forkReadLoop_oneBlock hr.sane le_rfl hone (congrArg Prod.fst hread) hk
  obtain ⟨hdiv, hmod⟩ := div_mod_of_inOneBlock hone hk
  rw [hread, (blockAddr_eq_iff hr.sane hp).mpr (hfit _ le_rfl (by omega) p hp)] at hbyte
  rw [forkByte, hdiv, hmod, hp, Option.map_some]
  exact congrArg some hbyte.symm

/-- The odd case: the last block, which ends up in front, is also the first. -/
theorem nodeAssembled_of_endsInFirstBlock (hr : NodeRange hfs fk off len)
    (htop : off.toNat + len.toNat ≤ 4294967296) (hmany : ¬InOneBlock hfs off.toNat len.toNat)
    (hends : EndsInFirstBlock hfs (List.ofFn fk.ext) off.toNat len.toNat)
    (hfit : SectorsFit hfs (List.ofFn fk.ext) off.toNat len.toNat) :
    NodeAssembled hfs fk secbuf off len := by
  obtain ⟨haligned, hsame⟩ := hends
  rw [InOneBlock, not_le] at hmany
  intro disk m m' hread k hk
  rw [forkRead_eq_loop disk hr.sane hr.inside (by omega)] at hread
  have hok := congrArg Prod.fst hread
  obtain ⟨m₁, c, hc, htail⟩ := forkReadLoop_severalBlocks hr.sane le_rfl htop hr.le hmany hok
  obtain ⟨p, hp, -⟩ := (forkReadLoop_fst_iff hr.sane le_rfl htop).mp hok (off.toNat + k)
    (by omega) (by omega)
  obtain rfl : c = hfs.bs.toNat := by omega
  rw [hread] at htail
  rw [forkByte, hp, Option.map_some, Option.some_inj]
  rcases Nat.lt_or_ge k hfs.bs.toNat with hfirst | hlater
  · obtain ⟨hdiv, hmod⟩ := div_mod_of_aligned haligned hfirst
    rw [hdiv, hsame] at hp
    have hblock := htail.block le_rfl k hfirst
    rw [show off.toNat + hfs.bs.toNat + (len.toNat - hfs.bs.toNat) - 1 = off.toNat + len.toNat - 1
      by omega, (blockAddr_eq_iff hr.sane hp).mpr (hfit _ (by omega) (by omega) p hp)] at hblock
    rw [hmod]
    exact hblock.symm
  · have hbytes := htail.bytes le_rfl (k - hfs.bs.toNat) (by omega)
    rw [Nat.add_assoc, Nat.add_sub_cancel' hlater,
      (blockAddr_eq_iff hr.sane hp).mpr (hfit _ (by omega) (by omega) p hp)] at hbytes
    exact hbytes.symm

/-! ### No others -/

/-- A disk whose every byte is `0` but the one at `a`. -/
def markedDisk (a : ℕ) : Disk := ⟨fun x ↦ if x = a then 1 else 0, fun _ _ ↦ true⟩

/-- Two addresses that no disk tells apart are one. -/
theorem eq_of_markedDisk {a : ℕ} (h : (markedDisk a).bytes a = (markedDisk a).bytes b) : a = b := by
  by_contra hne
  dsimp only [markedDisk] at h
  rw [if_pos rfl, if_neg (Ne.symm hne)] at h
  exact absurd h (by decide)

namespace NodeAssembled

variable (h : NodeAssembled hfs fk secbuf off len) (hr : NodeRange hfs fk off len)
  (htop : off.toNat + len.toNat ≤ 4294967296)
  (hin : InExtents hfs (List.ofFn fk.ext) off.toNat len.toNat)
include h hr htop hin

/-- What a read that is right for every disk says of the addresses: the byte that the code puts at
position `k` comes from where byte `off + k` of the fork is. -/
theorem addr_eq {a : ℕ} (hk : k < len.toNat)
    (hp : forkBlock (List.ofFn fk.ext) ((off.toNat + k) / hfs.bs.toNat) = some p) (hbyte : ∀ disk m,
      (forkReadLoop disk hfs secbuf (List.ofFn fk.ext) len.toNat off secbuf len m).1 = true →
      (forkReadLoop disk hfs secbuf (List.ofFn fk.ext) len.toNat off secbuf len m).2
        (secbuf + .ofNat k) = disk.bytes a) :
    p * hfs.bs.toNat + (off.toNat + k) % hfs.bs.toNat = a := by
  apply eq_of_markedDisk
  generalize hx : p * hfs.bs.toNat + (off.toNat + k) % hfs.bs.toNat = x
  obtain ⟨m⟩ : Nonempty Mem := ⟨fun _ ↦ 0⟩
  have hok : (forkReadLoop (markedDisk x) hfs secbuf (List.ofFn fk.ext) len.toNat off secbuf len
      m).1 = true := by
    rw [forkReadLoop_fst_iff hr.sane le_rfl htop]
    intro y hle hlt
    obtain ⟨q, hq⟩ := hin y hle hlt
    exact ⟨q, hq, rfl⟩
  have hread := h (markedDisk x) m _
    ((forkRead_eq_loop _ hr.sane hr.inside (by omega) _ _).trans (Prod.ext hok rfl)) k hk
  rw [forkByte, hp, Option.map_some, Option.some_inj, hx] at hread
  exact hread.trans (hbyte _ _ hok)

/-- A node inside one block that is read right has a sector number that fits. -/
theorem sectorsFit_of_inOneBlock (hone : InOneBlock hfs off.toNat len.toNat) :
    SectorsFit hfs (List.ofFn fk.ext) off.toNat len.toNat := by
  intro x hle hlt p hp
  obtain ⟨k, rfl⟩ := Nat.exists_eq_add_of_le hle
  have hk : k < len.toNat := by omega
  obtain ⟨hdiv, hmod⟩ := div_mod_of_inOneBlock hone hk
  have haddr := h.addr_eq hr htop hin hk hp fun disk m hok ↦
    (forkReadLoop_oneBlock hr.sane le_rfl hone hok hk).2
  rw [hmod, Nat.add_right_cancel_iff, ← hdiv] at haddr
  exact (blockAddr_eq_iff hr.sane hp).mp haddr.symm

/-- A node of several blocks that is read right has its last block in front, which is then also
where the code put it last. -/
theorem front_addr (hmany : ¬InOneBlock hfs off.toNat len.toNat) {q : ℕ}
    (hp : forkBlock (List.ofFn fk.ext) (off.toNat / hfs.bs.toNat) = some p)
    (hq : forkBlock (List.ofFn fk.ext) ((off.toNat + len.toNat - 1) / hfs.bs.toNat) = some q) :
    p * hfs.bs.toNat + off.toNat % hfs.bs.toNat = q * hfs.bs.toNat ∧
      blockAddr hfs (List.ofFn fk.ext) ((off.toNat + len.toNat - 1) / hfs.bs.toNat)
        = q * hfs.bs.toNat := by
  obtain ⟨hbs, hspb, -⟩ := hr.sane.toNat_bs
  rw [InOneBlock, not_le] at hmany
  have hsplit := Nat.div_add_mod' off.toNat hfs.bs.toNat
  have hmod : off.toNat % hfs.bs.toNat < hfs.bs.toNat := Nat.mod_lt _ (by omega)
  -- the last block starts inside the range, and not in the first block
  have hle := Nat.div_mul_le_self (off.toNat + len.toNat - 1) hfs.bs.toNat
  have hge : off.toNat / hfs.bs.toNat * hfs.bs.toNat + hfs.bs.toNat
      ≤ (off.toNat + len.toNat - 1) / hfs.bs.toNat * hfs.bs.toNat :=
    le_div_mul_of_aligned (by rw [Nat.add_mod_right, Nat.mul_mod_left]) (by omega)
  generalize hl : (off.toNat + len.toNat - 1) / hfs.bs.toNat = l at hle hge hq ⊢
  have hfront : p * hfs.bs.toNat + off.toNat % hfs.bs.toNat
      = blockAddr hfs (List.ofFn fk.ext) l := by
    refine h.addr_eq hr htop hin (by omega : 0 < len.toNat) hp fun disk m hok ↦ ?_
    obtain ⟨m₁, c, hc, htail⟩ := forkReadLoop_severalBlocks hr.sane le_rfl htop hr.le hmany hok
    have hbyte := htail.front
    rw [show off.toNat + c + (len.toNat - c) - 1 = off.toNat + len.toNat - 1 by omega, hl] at hbyte
    rwa [add_ofNat_zero]
  have hstart : q * hfs.bs.toNat = blockAddr hfs (List.ofFn fk.ext) l := by
    have hpos : off.toNat + (l * hfs.bs.toNat - off.toNat) = l * hfs.bs.toNat := by omega
    have haddr := h.addr_eq hr htop hin (by omega : l * hfs.bs.toNat - off.toNat < len.toNat)
      (by rwa [hpos, Nat.mul_div_cancel _ (by omega)]) fun disk m hok ↦ by
        obtain ⟨m₁, c, hc, htail⟩ := forkReadLoop_severalBlocks hr.sane le_rfl htop hr.le hmany hok
        have hbyte := htail.lastByte
        rwa [show off.toNat + c + (len.toNat - c) - 1 = off.toNat + len.toNat - 1 by omega, hl,
          show c + (l * hfs.bs.toNat - (off.toNat + c)) = l * hfs.bs.toNat - off.toNat by omega]
          at hbyte
    rwa [hpos, Nat.mul_mod_left, Nat.add_zero] at haddr
  exact ⟨hfront.trans hstart.symm, hstart.symm⟩

/-- In a node that starts at a block boundary, each block after the first stays where it was
copied to. -/
theorem later_addr (haligned : off.toNat % hfs.bs.toNat = 0)
    (hge : off.toNat + hfs.bs.toNat ≤ b * hfs.bs.toNat)
    (hlt : b * hfs.bs.toNat < off.toNat + len.toNat)
    (hp : forkBlock (List.ofFn fk.ext) b = some p) :
    blockAddr hfs (List.ofFn fk.ext) b = p * hfs.bs.toNat := by
  obtain ⟨hbs, hspb, -⟩ := hr.sane.toNat_bs
  have hmany : hfs.bs.toNat < off.toNat % hfs.bs.toNat + len.toNat := by omega
  have hpos : off.toNat + (b * hfs.bs.toNat - off.toNat) = b * hfs.bs.toNat := by omega
  have haddr := h.addr_eq hr htop hin (by omega : b * hfs.bs.toNat - off.toNat < len.toNat)
    (by rwa [hpos, Nat.mul_div_cancel _ (by omega)]) fun disk m hok ↦ by
      obtain ⟨m₁, c, hc, htail⟩ := forkReadLoop_severalBlocks hr.sane le_rfl htop hr.le hmany hok
      have hbyte := htail.bytes (by omega) (b * hfs.bs.toNat - off.toNat - c) (by omega)
      rwa [show off.toNat + c + (b * hfs.bs.toNat - off.toNat - c) = b * hfs.bs.toNat by omega,
        show c + (b * hfs.bs.toNat - off.toNat - c) = b * hfs.bs.toNat - off.toNat by omega,
        Nat.mul_div_cancel _ (by omega), Nat.mul_mod_left, Nat.add_zero] at hbyte
  rw [hpos, Nat.mul_mod_left, Nat.add_zero] at haddr
  exact haddr.symm

/-- A node of several blocks that is read right starts at a block boundary and ends in its first
block. -/
theorem endsInFirstBlock (hmany : ¬InOneBlock hfs off.toNat len.toNat) :
    EndsInFirstBlock hfs (List.ofFn fk.ext) off.toNat len.toNat ∧
      SectorsFit hfs (List.ofFn fk.ext) off.toNat len.toNat := by
  obtain ⟨hbs, hspb, -⟩ := hr.sane.toNat_bs
  have hpos : 0 < len.toNat := by
    have := Nat.mod_lt off.toNat (by omega : 0 < hfs.bs.toNat)
    rw [InOneBlock] at hmany
    omega
  obtain ⟨p, hp⟩ := hin off.toNat le_rfl (by omega)
  obtain ⟨q, hq⟩ := hin (off.toNat + len.toNat - 1) (by omega) (by omega)
  obtain ⟨hfront, hlast⟩ := h.front_addr hr htop hin hmany hp hq
  have haligned : off.toNat % hfs.bs.toNat = 0 := by
    have hmods : (p * hfs.bs.toNat + off.toNat % hfs.bs.toNat) % hfs.bs.toNat
        = q * hfs.bs.toNat % hfs.bs.toNat := by rw [hfront]
    rwa [Nat.mul_add_mod', Nat.mod_mod, Nat.mul_mod_left] at hmods
  have hpq : p = q := by
    refine Nat.eq_of_mul_eq_mul_right (by omega : 0 < hfs.bs.toNat) ?_
    rw [← hfront, haligned, Nat.add_zero]
  refine ⟨⟨haligned, by rw [hp, hq, hpq]⟩, fun x hle hlt y hy ↦ ?_⟩
  rcases Nat.lt_or_ge x (off.toNat + hfs.bs.toNat) with hfirst | hlater
  · have hblock := (div_mod_of_aligned haligned (by omega : x - off.toNat < hfs.bs.toNat)).1
    rw [Nat.add_sub_cancel' hle] at hblock
    rw [hblock, hp, Option.some_inj] at hy
    rw [← hy, hpq]
    exact (blockAddr_eq_iff hr.sane hq).mp hlast
  · have hxle := Nat.div_mul_le_self x hfs.bs.toNat
    exact (blockAddr_eq_iff hr.sane hy).mp (h.later_addr hr htop hin haligned
      (le_div_mul_of_aligned (by rw [Nat.add_mod_right, haligned]) hlater) (by omega) hy)

end NodeAssembled

/-- **A catalog node is read right**, for every disk, exactly when it lies in one block, or starts
at a block boundary and ends in the physical block in which it starts; and the sector numbers fit in
32 bits. Beyond 4 GiB, where the offset can wrap inside the node, a node in one block is still read
right. -/
theorem nodeAssembled_iff (hr : NodeRange hfs fk off len) :
    (SectorsFit hfs (List.ofFn fk.ext) off.toNat len.toNat →
      InOneBlock hfs off.toNat len.toNat → NodeAssembled hfs fk secbuf off len) ∧
    (off.toNat + len.toNat ≤ 4294967296 →
      (NodeAssembled hfs fk secbuf off len ↔
        (InExtents hfs (List.ofFn fk.ext) off.toNat len.toNat →
          SectorsFit hfs (List.ofFn fk.ext) off.toNat len.toNat ∧
          (InOneBlock hfs off.toNat len.toNat ∨
            EndsInFirstBlock hfs (List.ofFn fk.ext) off.toNat len.toNat)))) := by
  refine ⟨fun hfit hone ↦ nodeAssembled_of_inOneBlock hr hone hfit, fun htop ↦ ?_⟩
  constructor
  · intro h hin
    by_cases hone : InOneBlock hfs off.toNat len.toNat
    · exact ⟨h.sectorsFit_of_inOneBlock hr htop hin hone, Or.inl hone⟩
    · obtain ⟨hends, hfit⟩ := h.endsInFirstBlock hr htop hin hone
      exact ⟨hfit, Or.inr hends⟩
  · intro h disk m m' hread k hk
    have hin : InExtents hfs (List.ofFn fk.ext) off.toNat len.toNat := by
      intro x hle hlt
      have hok := congrArg Prod.fst
        ((forkRead_eq_loop disk hr.sane hr.inside (by omega) _ _).symm.trans hread)
      obtain ⟨p, hp, -⟩ := (forkReadLoop_fst_iff hr.sane le_rfl htop).mp hok x hle hlt
      exact ⟨p, hp⟩
    obtain ⟨hfit, hplace⟩ := h hin
    by_cases hone : InOneBlock hfs off.toNat len.toNat
    · exact nodeAssembled_of_inOneBlock hr hone hfit disk m m' hread k hk
    · exact nodeAssembled_of_endsInFirstBlock hr htop hone (hplace.resolve_left hone) hfit
        disk m m' hread k hk

/-- A volume with blocks of 4 KiB and a catalog of sixteen of them, from block 100 on. -/
def catalogVolume : HfsVolume where
  blockSize := 4096
  totalBlocks := 4096
  catalogNodeSize := 8192
  firstLeafNode := 1
  lastLeafNode := 1
  totalCatalogNodes := 8
  catalog := ⟨65536, fun
    | 0 => ⟨100, 16⟩
    | _ => ⟨0, 0⟩⟩

theorem forkBlock_catalogVolume (hb : b < 16) :
    forkBlock (List.ofFn catalogVolume.catalog.ext) b = some (100 + b) := if_pos hb

/-- With nodes of 4 KiB, its node 1 is read right. -/
theorem nodeAssembled_iff_node_one :
    NodeAssembled catalogVolume catalogVolume.catalog 2149580800 4096 4096 := by
  have hr : NodeRange catalogVolume catalogVolume.catalog 4096 4096 :=
    ⟨⟨by decide, by decide⟩, by decide, by decide⟩
  refine ((nodeAssembled_iff hr).2 (by decide)).mpr fun _ ↦ ⟨fun x hle hlt p hp ↦ ?_, Or.inl ?_⟩
  · have hx : x / catalogVolume.bs.toNat = 1 :=
      (Nat.div_eq_iff (by decide)).mpr ⟨hle, Nat.le_sub_one_of_lt hlt⟩
    rw [hx, forkBlock_catalogVolume (by decide), Option.some_inj] at hp
    rw [← hp]
    decide
  · rw [InOneBlock]
    decide

/-- With nodes of 8 KiB, the front half of its node 1 is lost. -/
theorem node_of_two_blocks_lost :
    ¬NodeAssembled catalogVolume catalogVolume.catalog 2149580800 8192 8192 := by
  intro h
  have hr : NodeRange catalogVolume catalogVolume.catalog 8192 8192 :=
    ⟨⟨by decide, by decide⟩, by decide, by decide⟩
  have hin : InExtents catalogVolume (List.ofFn catalogVolume.catalog.ext) 8192 8192 := by
    intro x hle hlt
    have hx : x / 4096 < 16 := by omega
    exact ⟨_, forkBlock_catalogVolume hx⟩
  have hmany : ¬InOneBlock catalogVolume 8192 8192 := by
    rw [InOneBlock]
    decide
  exact absurd (h.endsInFirstBlock hr (by decide) hin hmany).1.2 (by decide)

end Node

end CaribeOS
