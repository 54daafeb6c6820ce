import CaribeOS.Stage0.RootProbe

/-!
# The sectors that are asked for

Both HFS+ readers, `fork_read` of the booter and `hfs_read_block` of the kernel, turn the number of a
block into the number of its first sector with a product of 32 bits. The booter widens the product
afterwards, when the upper bits are gone.

`forkReadRequests` and `hfsBlockRequest` are the requests that the two functions make of the disk:
they depend on the disk through these only (`forkRead_congr`, `hfsReadBlock_eq_request`). A request
is for the sectors of its block exactly if the product has 32 bits (`sector_exact_iff`).
-/

namespace CaribeOS

open ByteMemory

/-! ## Requests -/

/-- A read of `count` sectors from `lba` on, for the physical block `block`. -/
structure SectorRequest where
  block : UInt32
  lba : UInt64
  count : UInt32
deriving DecidableEq

variable {len off : UInt32} {r : SectorRequest}

variable {fk : ForkMeta} {fuel : ℕ} {m : Mem} {secbuf : UInt32}

section Booter

variable (disk : Disk) (hfs : HfsVolume) (ext : List Extent)

/-- The request of `fork_read` for a block. -/
def blockRequest (physBlock : UInt32) : SectorRequest :=
  ⟨physBlock, blockLba hfs physBlock, hfs.sectorsPerBlock⟩

/-- The requests of the loop of `fork_read`. The first one that fails is the last. -/
def forkLoopRequests : ℕ → UInt32 → UInt32 → List SectorRequest
  | 0, _, _ => []
  | fuel + 1, off, len =>
    if len = 0 then []
    else
      match findExtent ext (off / hfs.bs) with
      | none => []
      | some physBlock =>
        blockRequest hfs physBlock ::
          if disk.ok (blockLba hfs physBlock) hfs.sectorsPerBlock then
            forkLoopRequests fuel (off + chunkOf hfs off len) (len - chunkOf hfs off len)
          else []

/-- The requests of `fork_read`. -/
def forkReadRequests (fk : ForkMeta) (off len : UInt32) : List SectorRequest :=
  if fk.size = 0 then []
  else if hfsNodeBufSize < hfs.bs then []
  else if fk.size ≤ off.toUInt64 then []
  else
    let len := if fk.size < off.toUInt64 + len.toUInt64 then (fk.size - off.toUInt64).toUInt32
      else len
    forkLoopRequests disk hfs (List.ofFn fk.ext) len.toNat off len

/-- Two disks answer a request in the same way. -/
def SameAnswer (disk disk' : Disk) (r : SectorRequest) : Prop :=
  disk'.ok r.lba r.count = disk.ok r.lba r.count ∧
    ∀ k < 512 * r.count.toNat, disk'.bytes (512 * r.lba.toNat + k) = disk.bytes (512 * r.lba.toNat + k)

variable {disk hfs ext} {disk' : Disk}

theorem SameAnswer.diskRead (h : SameAnswer disk disk' r) (buf : UInt32) (m : Mem) :
    diskRead disk' r.lba r.count buf m = diskRead disk r.lba r.count buf m := by
  have hbytes : writeBytes m buf (512 * r.count.toNat) (fun k ↦ disk'.bytes (512 * r.lba.toNat + k))
      = writeBytes m buf (512 * r.count.toNat) fun k ↦ disk.bytes (512 * r.lba.toNat + k) := by
    funext x
    rw [writeBytes, writeBytes]
    split_ifs with hx
    · exact h.2 _ hx
    · rfl
  rw [CaribeOS.diskRead, CaribeOS.diskRead, h.1, hbytes]

theorem forkReadLoop_congr {out : UInt32}
    (h : ∀ r ∈ forkLoopRequests disk hfs ext fuel off len, SameAnswer disk disk' r) :
    forkReadLoop disk' hfs secbuf ext fuel off out len m
      = forkReadLoop disk hfs secbuf ext fuel off out len m := by
  induction fuel generalizing off out len m with
  | zero => rfl
  | succ fuel ih =>
    rw [forkLoopRequests] at h
    rw [forkReadLoop, forkReadLoop]
    by_cases hlen : len = 0
    · rw [if_pos hlen, if_pos hlen]
    rw [if_neg hlen] at h ⊢
    rw [if_neg hlen]
    dsimp only
    cases hfind : findExtent ext (off / hfs.bs) with
    | none => rfl
    | some physBlock =>
      rw [hfind] at h
      dsimp only at h ⊢
      rw [List.forall_mem_cons] at h
      have hread := h.1.diskRead secbuf m
      rw [blockRequest] at hread
      rw [hread, CaribeOS.diskRead]
      by_cases hok : disk.ok (blockLba hfs physBlock) hfs.sectorsPerBlock = true
      · rw [if_pos hok] at h ⊢
        exact ih h.2
      · rw [if_neg hok]

/-- **`fork_read` depends on the disk through its requests only.** -/
theorem forkRead_congr {dst : UInt32}
    (h : ∀ r ∈ forkReadRequests disk hfs fk off len, SameAnswer disk disk' r) :
    forkRead disk' hfs secbuf fk off dst len m = forkRead disk hfs secbuf fk off dst len m := by
  rw [forkReadRequests] at h
  rw [forkRead, forkRead]
  split_ifs at h ⊢
  · rfl
  · rfl
  · rfl
  · exact forkReadLoop_congr h
  · exact forkReadLoop_congr h

theorem eq_blockRequest_of_mem_loop (h : r ∈ forkLoopRequests disk hfs ext fuel off len) :
    r = blockRequest hfs r.block := by
  induction fuel generalizing off len with
  | zero => exact absurd h List.not_mem_nil
  | succ fuel ih =>
    rw [forkLoopRequests] at h
    split_ifs at h with hlen
    · exact absurd h List.not_mem_nil
    cases hfind : findExtent ext (off / hfs.bs) with
    | none =>
      rw [hfind] at h
      exact absurd h List.not_mem_nil
    | some physBlock =>
      rw [hfind] at h
      rcases List.mem_cons.mp h with rfl | hrest
      · rfl
      · split_ifs at hrest
        · exact ih hrest
        · exact absurd hrest List.not_mem_nil

theorem eq_blockRequest_of_mem (h : r ∈ forkReadRequests disk hfs fk off len) :
    r = blockRequest hfs r.block := by
  rw [forkReadRequests] at h
  split_ifs at h
  · exact absurd h List.not_mem_nil
  · exact absurd h List.not_mem_nil
  · exact absurd h List.not_mem_nil
  · exact eq_blockRequest_of_mem_loop h
  · exact eq_blockRequest_of_mem_loop h

end Booter

/-- The request of `hfs_read_block`, if it makes one. -/
def hfsBlockRequest (g : HfsGlobals) (block : UInt32) : Option SectorRequest :=
  if g.blockSize = 0 ∨ 4096 < g.blockSize ∨ g.blockSize % 512 ≠ 0 then none
  else some ⟨block, (block * (g.blockSize / 512)).toUInt64, g.blockSize / 512⟩

/-- **`hfs_read_block` depends on the disk through its request only.** -/
theorem hfsReadBlock_eq_request (disk : Disk) (g : HfsGlobals) (block : UInt32)
    (buf : ℕ → UInt8) : hfsReadBlock disk g block buf
      = match hfsBlockRequest g block with
        | none => (false, buf)
        | some r => virtioBlkRead disk r.lba.toUInt32 r.count buf := by
  rw [hfsReadBlock, hfsBlockRequest]
  split_ifs
  · rfl
  · dsimp only
    rw [UInt32.toUInt32_toUInt64]

/-! ## Exact numbers -/

/-- The request is for the sectors of its block, on a volume with blocks of `bs` bytes. -/
def SectorRequest.Exact (r : SectorRequest) (bs : ℕ) : Prop :=
  r.lba.toNat = r.block.toNat * (bs / 512)
  deriving Decidable

theorem toNat_mul_toUInt64_eq_iff (p s : UInt32) :
    (p * s).toUInt64.toNat = p.toNat * s.toNat ↔ p.toNat * s.toNat < 4294967296 := by
  exact Nat.mod_eq_iff_lt (by decide)

/-- **When the sector numbers are exact.** On volumes with a sane block size, the request of either
reader for a block is exact if and only if the number of the sector has 32 bits; and what
`hfs_read_block` reads is what its request asks for. -/
theorem sector_exact_iff (disk : Disk) (hfs : HfsVolume) (hs : hfs.SaneBlockSize) (fk : ForkMeta)
    (off len : UInt32) (g : HfsGlobals) (block : UInt32) :
    (∀ r ∈ forkReadRequests disk hfs fk off len,
      (r.Exact hfs.bs.toNat ↔ r.block.toNat * (hfs.bs.toNat / 512) < 4294967296)) ∧
    ∀ r ∈ hfsBlockRequest g block, r.block = block ∧
      (∀ buf, hfsReadBlock disk g block buf = virtioBlkRead disk r.lba.toUInt32 r.count buf) ∧
      (r.Exact g.blockSize.toNat ↔ block.toNat * (g.blockSize.toNat / 512) < 4294967296) := by
  constructor
  · intro r hr
    obtain ⟨hbs, -, -⟩ := hs.toNat_bs
    have hspb : hfs.bs.toNat / 512 = hfs.sectorsPerBlock.toNat := by omega
    rw [SectorRequest.Exact, hspb, eq_blockRequest_of_mem hr]
    exact toNat_mul_toUInt64_eq_iff _ _
  · intro r hr
    have hread : ∀ buf, hfsReadBlock disk g block buf =
        virtioBlkRead disk r.lba.toUInt32 r.count buf := by
      intro buf
      rw [hfsReadBlock_eq_request, Option.mem_def.mp hr]
    rw [hfsBlockRequest] at hr
    split_ifs at hr with hbad
    · exact absurd hr (Option.not_mem_none r)
    obtain rfl := Option.some_inj.mp hr
    exact ⟨rfl, hread, toNat_mul_toUInt64_eq_iff _ _⟩

/-! ### A volume of 2 TiB -/

/-- A volume with blocks of 4096 bytes. -/
def largeVolume : HfsVolume := ⟨4096, 0x20000001, 4096, 1, 1, 2, ⟨0, fun _ ↦ ⟨0, 0⟩⟩⟩

/-- A file in the block `block`. -/
def blockFork (block : UInt32) : ForkMeta where
  size := 4096
  ext
    | 0 => ⟨block, 1⟩
    | _ => ⟨0, 0⟩

/-- A disk on which all reads succeed. -/
def zeroDisk : Disk := ⟨fun _ ↦ 0, fun _ _ ↦ true⟩

/-- The kernel's globals for that volume. -/
def largeGlobals : HfsGlobals := ⟨4096, 1, 1, 2, 4096, fun _ ↦ ⟨0, 0⟩⟩

theorem sector_exact_iff_small :
    forkReadRequests zeroDisk largeVolume (blockFork 10) 0 1 = [⟨10, 80, 8⟩] ∧
      (⟨10, 80, 8⟩ : SectorRequest).Exact 4096 := by
  have hrequests : forkReadRequests zeroDisk largeVolume (blockFork 10) 0 1 = [⟨10, 80, 8⟩] := by
    decide
  refine ⟨hrequests, ((sector_exact_iff zeroDisk largeVolume ⟨by decide, by decide⟩
    (blockFork 10) 0 1 largeGlobals 10).1 ⟨10, 80, 8⟩ ?_).mpr (by decide)⟩
  exact List.mem_singleton_self _

/-- A disk with another first byte, which is not in the block that is read. -/
def firstByteDisk : Disk := { zeroDisk with bytes := fun x ↦ if x = 0 then 1 else 0 }

theorem forkRead_congr_small : firstByteDisk.bytes 0 ≠ zeroDisk.bytes 0 ∧
    ∀ secbuf dst m, forkRead firstByteDisk largeVolume secbuf (blockFork 10) 0 dst 1 m
      = forkRead zeroDisk largeVolume secbuf (blockFork 10) 0 dst 1 m := by
  refine ⟨by decide, fun secbuf dst m ↦ forkRead_congr fun r hr ↦ ?_⟩
  have hrequests : forkReadRequests zeroDisk largeVolume (blockFork 10) 0 1 = [⟨10, 80, 8⟩] := by
    decide
  rw [hrequests, List.mem_singleton] at hr
  rw [hr]
  refine ⟨rfl, fun k _ ↦ if_neg ?_⟩
  change 40960 + k ≠ 0
  omega

/-- The first block behind 2 TiB: both readers ask for sector `0`. -/
theorem sector_of_large_block :
    forkReadRequests zeroDisk largeVolume (blockFork 0x20000000) 0 1 = [⟨0x20000000, 0, 8⟩] ∧
      hfsBlockRequest largeGlobals 0x20000000 = some ⟨0x20000000, 0, 8⟩ ∧
      ¬(⟨0x20000000, 0, 8⟩ : SectorRequest).Exact 4096 := by
  refine ⟨by decide, by decide, by decide⟩

end CaribeOS
