import CaribeOS.Hfs.ReadFile

/-!
# Mounting the volume

`hfsplus_mount` (`booter/hfsplus_boot.c`) fills in the `hfs` global: it reads the volume header from
sector 2 and the B-tree header from the first node of the catalog, both to the staging buffer. If
the node cannot be read it keeps default values and still succeeds.

`hfsplusMount_eq` gives the volume as a function of the bytes on the disk, for a first node that can
be read and lies in one block.
-/

namespace CaribeOS

open ByteMemory

/-! ## `hfsplus_mount` as it stands in the source -/

/-- `fork_from_volume_fork`. -/
def forkFromVolumeFork (m : Mem) (p : UInt32) : ForkMeta where
  size := rdbe64 m p
  ext i := ⟨rdbe32 m (p + .ofNat (16 + 8 * i)), rdbe32 m (p + .ofNat (16 + 8 * i) + 4)⟩

/-- The `hfs` global from the volume header in the staging buffer. -/
def volumeFromHeader (m : Mem) (secbuf : UInt32) : HfsVolume where
  blockSize := rdbe32 m (secbuf + 40)
  totalBlocks := rdbe32 m (secbuf + 44)
  catalogNodeSize := 4096
  firstLeafNode := 1
  lastLeafNode := 1
  totalCatalogNodes := (forkFromVolumeFork m (secbuf + 272)).size.toUInt32 / 4096
  catalog := forkFromVolumeFork m (secbuf + 272)

/-- `hfsplus_mount`: the `hfs` global, `none` for the return value `-1`. -/
def hfsplusMount (disk : Disk) (secbuf : UInt32) (m : Mem) : Option HfsVolume × Mem :=
  match diskRead disk 2 1 secbuf m with
  | (false, m) => (none, m)
  | (true, m) =>
    let sig := rdbe16 m secbuf
    if sig ≠ 0x482b ∧ sig ≠ 0x4858 then (none, m)
    else
      let hfs := volumeFromHeader m secbuf
      match forkRead disk hfs secbuf hfs.catalog 0 secbuf 4096 m with
      | (false, m) => (some hfs, m)
      | (true, m) =>
        let nodeSize := rdbe16 m (secbuf + 32)
        (some { hfs with
          catalogNodeSize := if nodeSize ≠ 0 ∧ nodeSize.toUInt32 ≤ hfsNodeBufSize then nodeSize
            else hfs.catalogNodeSize
          firstLeafNode := rdbe32 m (secbuf + 24)
          lastLeafNode := rdbe32 m (secbuf + 28)
          totalCatalogNodes := rdbe32 m (secbuf + 36) }, m)

/-! ## What is mounted -/

/-- The bytes of the volume header. -/
def volumeHeader (disk : Disk) (k : ℕ) : UInt8 := disk.bytes (1024 + k)

/-- The fork described at offset `o`. -/
def forkData (b : ℕ → UInt8) (o : ℕ) : ForkMeta where
  size := be64 b o
  ext i := ⟨be32 b (o + (16 + 8 * i)), be32 b (o + (20 + 8 * i))⟩

/-- The volume with the header `header` and the first catalog node `node`. -/
def volumeOf (header node : ℕ → UInt8) : HfsVolume where
  blockSize := be32 header 40
  totalBlocks := be32 header 44
  catalogNodeSize := if be16 node 32 ≠ 0 ∧ (be16 node 32).toUInt32 ≤ hfsNodeBufSize then be16 node 32
    else 4096
  firstLeafNode := be32 node 24
  lastLeafNode := be32 node 28
  totalCatalogNodes := be32 node 36
  catalog := forkData header 272

section Mount

variable {disk : Disk} {secbuf : UInt32} {m : Mem}

theorem Staged.forkFromVolumeFork {n o : ℕ} {b : ℕ → UInt8} (hview : Staged m secbuf n b)
    (hin : o + 80 ≤ n) : forkFromVolumeFork m (secbuf + .ofNat o) = forkData b o := by
  have hsize : CaribeOS.rdbe64 m (secbuf + .ofNat o) = be64 b o := hview.rdbe64 (by omega)
  have hext : (CaribeOS.forkFromVolumeFork m (secbuf + .ofNat o)).ext = (forkData b o).ext := by
    funext i
    dsimp only [CaribeOS.forkFromVolumeFork, forkData]
    rw [add_ofNat_lit, add_ofNat_add, add_ofNat_add, hview.rdbe32 (by omega),
      hview.rdbe32 (by omega), show 16 + 8 * i.val + 4 = 20 + 8 * i.val by omega]
  exact congrArg₂ ForkMeta.mk hsize hext

theorem HfsVolume.bs_of_blockSize {hfs : HfsVolume}
    (h : hfs.blockSize = 4096 ∨ hfs.blockSize = 8192) :
    hfs.SaneBlockSize ∧ hfs.bs = hfs.blockSize ∧
      hfs.sectorsPerBlock.toNat = hfs.blockSize.toNat / 512 ∧ 4096 ≤ hfs.blockSize.toNat := by
  have hsane : hfs.SaneBlockSize := by
    rcases h with h | h <;> constructor <;> rw [h] <;> decide
  have hbs : hfs.bs = hfs.blockSize := by
    rw [bs, if_pos]
    rcases h with h | h <;> rw [h] <;> decide
  have hspb := hsane.toNat_bs.1
  rw [hbs] at hspb
  refine ⟨hsane, hbs, by omega, ?_⟩
  rcases h with h | h <;> rw [h] <;> decide

/-- The beginning of the first node of the catalog, read to the staging buffer. The catalog may be
shorter than what is asked for. -/
theorem forkRead_firstNode {hfs : HfsVolume} {p : ℕ}
    (hbs : hfs.blockSize = 4096 ∨ hfs.blockSize = 8192) (hsize : 40 ≤ hfs.catalog.size.toNat)
    (hp : forkBlock (List.ofFn hfs.catalog.ext) 0 = some p)
    (hfit : p * hfs.sectorsPerBlock.toNat < 4294967296)
    (hread : disk.ok (.ofNat (p * hfs.sectorsPerBlock.toNat)) hfs.sectorsPerBlock = true) :
    ∃ m', forkRead disk hfs secbuf hfs.catalog 0 secbuf 4096 m = (true, m') ∧
      Staged m' secbuf 40 fun k ↦ disk.bytes (p * hfs.blockSize.toNat + k) := by
  obtain ⟨hsane, hbs', -, hmin⟩ := hfs.bs_of_blockSize hbs
  have hzero : (0 : UInt32).toNat = 0 := rfl
  have hlen : (4096 : UInt32).toNat = 4096 := rfl
  have hblock : ∀ x < 4096, x / hfs.bs.toNat = 0 := fun x hx ↦
    Nat.div_eq_of_lt (by rw [hbs']; omega)
  obtain ⟨n, hn, hclamped⟩ := forkRead_eq_clamped disk hsane
    (by omega : (0 : UInt32).toNat < hfs.catalog.size.toNat) secbuf secbuf 4096 m
  have hrange : NodeRange hfs hfs.catalog 0 n := ⟨hsane, by omega, by omega⟩
  -- reading what the catalog has is reading all that is asked for
  have hsame : forkRead disk hfs secbuf hfs.catalog 0 secbuf 4096 m
      = forkRead disk hfs secbuf hfs.catalog 0 secbuf n m := by
    rw [hclamped, forkRead_eq_loop disk hsane hrange.inside (by omega)]
  rw [hsame]
  have hok : (forkRead disk hfs secbuf hfs.catalog 0 secbuf n m).1 = true := by
    rw [forkRead_eq_loop disk hsane hrange.inside (by omega),
      forkReadLoop_fst_iff hsane le_rfl (by omega)]
    intro x _ hx
    rw [hblock x (by omega)]
    exact ⟨p, hp, by rw [blockLba_eq hfit]; exact hread⟩
  refine ⟨_, Prod.ext hok rfl, fun k hk ↦ ?_⟩
  have hone : InOneBlock hfs (0 : UInt32).toNat n.toNat := by
    rw [InOneBlock, hbs', hzero, Nat.zero_mod]
    omega
  have hfits : SectorsFit hfs (List.ofFn hfs.catalog.ext) (0 : UInt32).toNat n.toNat := by
    intro x _ hx p' hp'
    rw [hblock x (by omega), hp, Option.some_inj] at hp'
    exact hp' ▸ hfit
  have hbyte := nodeAssembled_of_inOneBlock hrange hone hfits disk m _ (Prod.ext hok rfl) k
    (by omega)
  rw [hzero, Nat.zero_add, forkByte, hblock k (by omega), hp, Option.map_some,
    Option.some_inj] at hbyte
  rw [← hbyte, Nat.mod_eq_of_lt (by rw [hbs']; omega), hbs']

/-- **What `hfsplus_mount` mounts**, if the signature is right and the first node of the catalog,
in block `p`, can be read. -/
theorem hfsplusMount_eq {p : ℕ} (hheader : disk.ok 2 1 = true)
    (hsig : be16 (volumeHeader disk) 0 = 0x482b ∨ be16 (volumeHeader disk) 0 = 0x4858)
    (hbs : be32 (volumeHeader disk) 40 = 4096 ∨ be32 (volumeHeader disk) 40 = 8192)
    (hsize : 40 ≤ (forkData (volumeHeader disk) 272).size.toNat)
    (hp : forkBlock (List.ofFn (forkData (volumeHeader disk) 272).ext) 0 = some p)
    (hsector : p * (be32 (volumeHeader disk) 40).toNat < 512 * 4294967296)
    (hread : disk.ok (.ofNat (p * ((be32 (volumeHeader disk) 40).toNat / 512)))
      (.ofNat ((be32 (volumeHeader disk) 40).toNat / 512)) = true) :
    (hfsplusMount disk secbuf m).1 = some (volumeOf (volumeHeader disk) fun k ↦
      disk.bytes (p * (be32 (volumeHeader disk) 40).toNat + k)) := by
  have hone : (1 : UInt32).toNat = 1 := rfl
  rw [hfsplusMount, diskRead, if_pos hheader]
  dsimp only
  -- the header in the staging buffer
  have hview : Staged (writeBytes m secbuf (512 * (1 : UInt32).toNat)
      fun k ↦ disk.bytes (512 * (2 : UInt64).toNat + k)) secbuf 512 (volumeHeader disk) :=
    fun k hk ↦ writeBytes_add _ _ _ (by omega) (by omega)
  generalize writeBytes m secbuf (512 * (1 : UInt32).toNat)
    (fun k ↦ disk.bytes (512 * (2 : UInt64).toNat + k)) = m₁ at hview ⊢
  have hsig₁ : rdbe16 m₁ secbuf = be16 (volumeHeader disk) 0 := by
    rw [← hview.rdbe16 (by omega : 0 + 2 ≤ 512), add_ofNat_zero]
  have hgood : ¬(be16 (volumeHeader disk) 0 ≠ 0x482b ∧ be16 (volumeHeader disk) 0 ≠ 0x4858) := by
    rintro ⟨hplus, hx⟩
    exact hsig.elim hplus hx
  rw [hsig₁, if_neg hgood]
  have hfork : forkFromVolumeFork m₁ (secbuf + 272) = forkData (volumeHeader disk) 272 :=
    hview.forkFromVolumeFork (by omega : 272 + 80 ≤ 512)
  have hblockSize : (volumeFromHeader m₁ secbuf).blockSize = be32 (volumeHeader disk) 40 :=
    hview.rdbe32 (by omega : 40 + 4 ≤ 512)
  have htotal : (volumeFromHeader m₁ secbuf).totalBlocks = be32 (volumeHeader disk) 44 :=
    hview.rdbe32 (by omega : 44 + 4 ≤ 512)
  have hcatalog : (volumeFromHeader m₁ secbuf).catalog = forkData (volumeHeader disk) 272 := hfork
  have hdefault : (volumeFromHeader m₁ secbuf).catalogNodeSize = 4096 := rfl
  generalize volumeFromHeader m₁ secbuf = hfs at hblockSize htotal hcatalog hdefault ⊢
  -- the first node in its place
  rw [← hblockSize] at hbs hsector hread ⊢
  rw [← hcatalog] at hsize hp
  obtain ⟨-, -, hspb, hmin⟩ := hfs.bs_of_blockSize hbs
  have hfit : p * hfs.sectorsPerBlock.toNat < 4294967296 := by
    rw [hspb]
    rcases hbs with h | h <;> rw [h] at hsector ⊢ <;> simp only [UInt32.reduceToNat] at hsector ⊢ <;>
      omega
  rw [← hspb, UInt32.ofNat_toNat] at hread
  obtain ⟨m₂, hnode, hview₂⟩ := forkRead_firstNode hbs hsize hp hfit hread
  rw [hnode]
  dsimp only
  have hlast : rdbe32 m₂ (secbuf + 28) = _ := hview₂.rdbe32 (by omega : 28 + 4 ≤ 40)
  have hfirst : rdbe32 m₂ (secbuf + 24) = _ := hview₂.rdbe32 (by omega : 24 + 4 ≤ 40)
  have hnodes : rdbe32 m₂ (secbuf + 36) = _ := hview₂.rdbe32 (by omega : 36 + 4 ≤ 40)
  have hnodeSize : rdbe16 m₂ (secbuf + 32) = _ := hview₂.rdbe16 (by omega : 32 + 2 ≤ 40)
  rw [hlast, hfirst, hnodes, hnodeSize, hdefault, hcatalog, hblockSize, htotal]
  rfl

end Mount

end CaribeOS
